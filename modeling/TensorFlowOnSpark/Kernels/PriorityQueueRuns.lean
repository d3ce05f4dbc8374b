import TensorFlowOnSpark.Kernels.PriorityQueue
import TensorFlowOnSpark.Kernels.QueueConservation
import Mathlib.Data.Fin.VecNotation

/-!
# The heaps of a priority queue stay aligned

All components of an element are pushed and popped with its priority, so the heaps have
the same keys at the same positions and are rearranged in the same way.
-/

namespace TensorFlowOnSpark.Kernels.PriorityQueue

open Framework BinaryHeap QueueBase FifoQueue List HeapOrder Int Nat

universe u

variable {k : Nat} {β : Type u}

def Whole (x : Tuple k (Cell β)) : Prop := ∀ i, x i = .tensor (x i).second

variable {x : Tuple k (Cell β)}

section Heaps

variable (settings : Settings β)

def priority (x : Tuple k (Cell β)) : Int := settings.scalar (x 0).second

def entry (i : Fin (k + 1)) (x : Tuple k (Cell β)) : Cell β :=
  .pair (priority settings x) (x i).second

structure Heaps (queues : Batch k (Cell β)) (content : List (Tuple k (Cell β))) : Prop where
  whole : ∀ x ∈ content, Whole x
  aligned : ∀ i, queues i = content.map (entry settings i)
  heap : IsHeap (content.map (priority settings))

variable {settings} {queues : Batch k (Cell β)} {content : List (Tuple k (Cell β))}

theorem Heaps.length (h : Heaps settings queues content) (i : Fin (k + 1)) :
    (queues i).length = content.length := by
  rw [h.aligned i, length_map]

theorem heaps_nil : Heaps settings (fun _ => []) ([] : List (Tuple k (Cell β))) :=
  ⟨nofun, fun _ => rfl, isHeap_of_pairwise .nil⟩

theorem Heaps.emplace (h : Heaps settings queues content) (hx : Whole x) :
    Heaps settings
      (fun i => emplace settings (queues i) (priority settings x) (x i).second)
      (settings.heap.emplace (priority settings) content x) where
  whole y hy := by
    rcases mem_append.mp (emplace_perm x |>.mem_iff.mp hy) with hOld | hNew
    · exact h.whole y hOld
    · rw [mem_singleton.mp hNew]
      exact hx
  aligned i := by
    rw [h.aligned i]
    exact emplace_map (entry settings i) Cell.first x fun y _ => rfl
  heap := isHeap_emplace x h.heap

variable [Inhabited β] {q : QueueBase k (Cell β)}

theorem Heaps.dequeueLocked {rest : List (Tuple k (Cell β))}
    (h : Heaps settings q.queues (x :: rest)) :
    ∃ queues, dequeueLocked settings q = .ok (x, { q with queues := queues }) ∧
      Heaps settings queues (settings.heap.popTop (priority settings) (x :: rest)) := by
  have hSome : ∀ i, q.queues i ≠ [] := by
    intro i
    rw [h.aligned i]
    exact cons_ne_nil _ _
  refine ⟨fun i => settings.heap.popTop Cell.first (q.queues i), ?_, ?_, fun i => ?_,
    isHeap_popTop h.heap⟩
  · refine (if_pos hSome).trans ?_
    congr 2
    funext i
    have hTop : elementAt q.queues 0 i = entry settings i x := by
      simp [elementAt, h.aligned i]
    rw [hTop]
    exact (h.whole x mem_cons_self i).symm
  · intro y hy
    exact h.whole y ((popTop_perm _ _ rfl).mem_iff.mp (mem_cons_of_mem x hy))
  · rw [h.aligned i]
    exact popTop_map (entry settings i) Cell.first fun y _ => rfl

def tensors (q : QueueBase k (Cell β)) : List (Tuple k (Cell β)) :=
  (FifoQueue.content q).map fun x i => .tensor (x i).second

theorem Heaps.tensors (h : Heaps settings q.queues content) :
    PriorityQueue.tensors q = content := by
  have hContent : FifoQueue.content q = content.map fun x i => entry settings i x := by
    apply Stores.slices
    intro i
    rw [h.aligned i, map_map]
    rfl
  rw [PriorityQueue.tensors, hContent, map_map]
  refine (map_congr_left fun x hx => ?_).trans (map_id content)
  funext i
  exact (h.whole x hx i).symm

end Heaps

section Batches

variable {env : Env k} {q : QueueBase k (Cell β)} {a : Attempt k (Cell β)}

theorem copyComponents_cases (env : Env k) (ha : a.status = .ok) (element : Tuple k (Cell β))
    (index : Nat) (components : List (Fin (k + 1))) (hNodup : components.Nodup)
    (t : Batch k (Cell β)) :
    (∃ copies, copyComponents env element index components t q a = (true,
      fun i => if i ∈ components then (t i).set index (element i) else t i, a,
        { q with copies := copies })) ∨
      ∃ t' n i copies, copyComponents env element index components t q a =
        (false, t', { a with status := env.copyElement n i }, { q with copies := copies }) ∧
          env.copyElement n i ≠ .ok := by
  induction components generalizing q t with
  | nil => exact .inl ⟨q.copies, by simp [copyComponents]⟩
  | cons i rest ih =>
    obtain ⟨hNew, hRest⟩ := nodup_cons.mp hNodup
    rw [copyComponents]
    rcases eq_or_ne (env.copyElement q.copies i) .ok with hOk | hFails
    · simp only [hOk, setStatus_ok ha, ha]
      rcases ih hRest (q := { q with copies := q.copies + 1 })
        (Function.update t i ((t i).set index (element i))) with ⟨copies, hEq⟩ | hStops
      · refine .inl ⟨copies, hEq.trans ?_⟩
        simp only [Prod.mk.injEq, true_and, and_true]
        funext j
        rcases eq_or_ne j i with rfl | hj
        · simp [hNew]
        · simp [hj]
      · exact .inr hStops
    · refine .inr ⟨t, _, i, q.copies + 1, ?_, hFails⟩
      simp only [Attempt.setStatus, ha, ne_eq, hFails, not_false_eq_true, if_true]

variable [Inhabited β] {settings : Settings β} {held content : List (Tuple k (Cell β))}

/-- How the loop of a `DequeueMany` ends: with a batch that is full or that a failing copy ends, or
with an attempt that has all elements of its turns and wants more. -/
def Ends (env : Env k) (turns : Nat) (result : RunResult) (a : Attempt k (Cell β))
    (held taken : List (Tuple k (Cell β))) (r : Run k (Cell β)) : Prop :=
  (r.result = .complete ∧
    ((∀ n i, env.copyElement n i = .ok) →
      r.attempt.status = .ok ∧ (taken.length : Int) = a.elementsRequested) ∧
    (r.attempt.status = .ok → ∃ t, r.attempt.done = .batch t ∧ Stores t (held ++ taken))) ∨
  (taken.length = turns ∧ r.result = (if turns = 0 then result else .progress) ∧
    Fills r.attempt (held ++ taken) ∧ r.attempt.elementsRequested = a.elementsRequested - turns ∧
    r.attempt.operation = a.operation)

/-- The loop of a `DequeueMany` takes the elements with the least priorities first. -/
theorem dequeueLoop_takes (env : Env k) (turns : Nat) (result : RunResult) (hFills : Fills a held)
    (hHeaps : Heaps settings q.queues content) (hTurns : turns ≤ content.length) :
    ∃ r taken content', dequeueLoop (dequeueLocked settings) env turns result q a = .ok r ∧
      Moves q r.queue ∧ Heaps settings r.queue.queues content' ∧
      TakesLeast (priority settings) content taken content' ∧
        Ends env turns result a held taken r := by
  induction turns generalizing q a held content result with
  | zero =>
    refine ⟨_, [], content, rfl, ⟨q.copies, q.queues, rfl⟩, hHeaps, .stop _,
      .inr ⟨rfl, rfl, ?_, ?_, rfl⟩⟩
    · rw [append_nil]
      exact hFills
    · exact (Int.sub_zero _).symm
  | succ turns ih =>
    obtain ⟨x, rest, rfl⟩ := exists_cons_of_length_pos (l := content) (by omega)
    obtain ⟨queues, hTake, hHeaps'⟩ := hHeaps.dequeueLocked
    have hRemoved := settings.heap.popTop_perm (priority settings)
      (rfl : x :: rest = x :: rest)
    have hLeast : ∀ y ∈ x :: rest, priority settings x ≤ priority settings y :=
      fun y hy => top_le hHeaps.heap hy
    have hCount := hRemoved.length_eq
    rw [length_cons] at hCount
    have hSet := hFills.set x
    simp only [dequeueLoop, hTake, hFills.index]
    rcases copyComponents_cases env (q := { q with queues := queues }) hFills.status x
      held.length (List.finRange (k + 1)) (nodup_finRange _)
      (a.tuple.getD fun _ => List.replicate a.elementsRequested.toNat default) with
      ⟨copies, hCopy⟩ | ⟨t', n, i, copies, hCopy, hFails⟩
    · simp only [hCopy, mem_finRange]
      split
      · rename_i hLast
        refine ⟨_, [x], _, rfl, ⟨copies, queues, rfl⟩, hHeaps',
          .take hRemoved hLeast (.stop _),
            .inl ⟨rfl, fun _ => ⟨hFills.status, ?_⟩, fun _ => ⟨_, rfl, ?_⟩⟩⟩
        · simp only [length_singleton]
          omega
        · intro i
          obtain ⟨free, hFree, hLength⟩ := hSet i
          have hNil : free = [] := by
            apply eq_nil_of_length_eq_zero
            omega
          rw [hNil, append_nil] at hFree
          exact hFree
      · rename_i hMore
        have hWants := hFills.wants
        have hNext : Fills
            { a with
              tuple := some fun i =>
                (a.tuple.getD (fun _ => List.replicate a.elementsRequested.toNat default) i).set
                  held.length (x i)
              elementsRequested := a.elementsRequested - 1 } (held ++ [x]) := by
          refine ⟨hFills.status, ?_, hSet⟩
          simp only at hMore ⊢
          omega
        obtain ⟨r, taken, content', hLoop, ⟨copies', queues', hMoves⟩, hKept, hTakes, hEnds⟩ :=
          ih (q := { q with copies := copies, queues := queues }) .progress hNext hHeaps' (by omega)
        refine ⟨r, x :: taken, content', hLoop, ⟨copies', queues', hMoves⟩, hKept,
          .take hRemoved hLeast hTakes, ?_⟩
        rw [Ends, append_assoc] at hEnds
        rcases hEnds with ⟨hComplete, hCopies, hBatch⟩ | ⟨hLength, hResult, hHolds, hLeft, hSame⟩
        · refine .inl ⟨hComplete, fun hEnv => ⟨(hCopies hEnv).1, ?_⟩, hBatch⟩
          have hAll := (hCopies hEnv).2
          simp only [length_cons] at hAll ⊢
          omega
        · refine .inr ⟨congrArg Nat.succ hLength, ?_, hHolds, ?_, hSame⟩
          · rw [hResult, if_neg (Nat.succ_ne_zero turns), ite_self]
          · simp only at hLeft
            omega
    · simp only [hCopy]
      exact ⟨_, [x], _, rfl, ⟨copies, queues, rfl⟩, hHeaps', .take hRemoved hLeast (.stop _),
        .inl ⟨rfl, fun hEnv => absurd (hEnv n i) hFails, fun hOk => absurd hOk hFails⟩⟩

end Batches

section Runs

variable [Inhabited β] {settings : Settings β} {env : Env k} {q : QueueBase k (Cell β)}
  {a : Attempt k (Cell β)} {r : Run k (Cell β)} {held content : List (Tuple k (Cell β))}

/-- The copies out of a batch succeed where one is made; a `DequeueMany` is for a full batch. -/
def store (settings : Settings β) (env : Env k) : Store k (Cell β) where
  admits
    | .enqueue tuple => Whole tuple
    | .enqueueMany tuple =>
      (∀ n i, env.copySlice n i = .ok) ∧ ∀ i, ∀ cell ∈ tuple i, cell = .tensor cell.second
    | .dequeueMany allowSmallBatch => allowSmallBatch = false
    | _ => True
  keeps queues held content := held = [] ∧ Heaps settings queues content
  -- the elements of a batch that a failing copy ends
  loses lost := (∀ n i, env.copyElement n i = .ok) → lost = []
  delivers elements := elements.Pairwise fun x y => priority settings x ≤ priority settings y
  loses_nil _ := rfl
  loses_append _ _ h h' hEnv := by rw [h hEnv, h' hEnv, append_nil]
  delivers_nil := .nil

/-- A dequeue takes the elements with the least priorities; an answer with status `OK` has
them all. -/
def DrawsLeast (settings : Settings β) (q : QueueBase k (Cell β)) (a : Attempt k (Cell β))
    (r : Run k (Cell β)) : Prop :=
  a.operation.isDequeue →
    ∃ taken, TakesLeast (priority settings) (tensors q) taken (tensors r.queue) ∧
      (r.attempt.status = .ok → Run.delivers r = taken)

structure KeepsHeaps (settings : Settings β) (S : Store k (Cell β)) : Prop where
  keeps : ∀ queues held content, S.keeps queues held content ↔
    held = [] ∧ Heaps settings queues content
  delivers : ∀ elements, (elements.Pairwise fun x y => priority settings x ≤ priority settings y) →
    S.delivers elements

omit [Inhabited β] in
theorem keepsHeaps_store (settings : Settings β) (env : Env k) :
    KeepsHeaps settings (store settings env) :=
  ⟨fun _ _ _ => Iff.rfl, fun _ h => h⟩

def drains (q : QueueBase k (Cell β)) (a : Attempt k (Cell β)) : Bool :=
  match a.operation with
  | .dequeueMany true =>
    q.closed && decide (0 < q.size) && decide ((q.size : Int) < a.elementsRequested)
  | _ => false

variable {S : Store k (Cell β)}

theorem runDequeue_draws (hS : KeepsHeaps settings S) (hHeaps : Heaps settings q.queues content)
    (ha : Dequeues q.calls a held) (hOperation : a.operation = .dequeue)
    (hRun : runDequeue settings q a = .ok r) :
    Draws S q a held content r ∧ DrawsLeast settings q a r := by
  have hCase := ha.operation
  rw [hOperation] at hCase
  obtain ⟨rfl, hTuple, hCall⟩ := hCase
  have hSize : q.size = content.length := hHeaps.length 0
  have hNone : elementsOf a.done = [] := by rw [ha.done]; rfl
  rw [runDequeue] at hRun
  split at hRun
  · cases hRun
    have hError : (a.setStatus (insufficient q 1 q.size)).status ≠ .ok := by
      rw [Attempt.setStatus, if_pos ha.status]
      rintro ⟨⟩
    refine ⟨⟨⟨q.copies, q.queues, rfl⟩, fun _ => ?_, fun hNot => absurd rfl hNot⟩, fun _ => ?_⟩
    · refine ⟨content, [], (hS.keeps _ _ _).mpr ⟨rfl, hHeaps⟩, S.loses_nil, ?_, ?_⟩
      · rw [Run.delivers, if_neg hError]
        exact S.delivers_nil
      · rw [Run.delivers, if_neg hError, append_nil]
    · exact ⟨[], .stop _, fun hOk => absurd hOk hError⟩
  · split at hRun
    · rename_i hSome
      obtain ⟨x, rest, rfl⟩ := exists_cons_of_length_pos (l := content) (by omega)
      obtain ⟨queues, hTake, hHeaps'⟩ := hHeaps.dequeueLocked
      have hRemoved := settings.heap.popTop_perm (priority settings)
        (rfl : x :: rest = x :: rest)
      rw [hTake] at hRun
      cases hRun
      refine ⟨⟨⟨q.copies, queues, rfl⟩, fun _ => ?_, fun hNot => absurd rfl hNot⟩, fun _ => ?_⟩
      · refine ⟨_, [], (hS.keeps _ _ _).mpr ⟨rfl, hHeaps'⟩, S.loses_nil, ?_, ?_⟩
        · rw [Run.delivers, if_pos ha.status]
          exact hS.delivers _ (pairwise_singleton _ _)
        · rw [Run.delivers, if_pos ha.status, append_nil]
          exact hRemoved
      · rw [hHeaps.tensors, hHeaps'.tensors]
        refine ⟨[x], .take hRemoved (fun y hy => top_le hHeaps.heap hy) (.stop _), fun _ => ?_⟩
        rw [Run.delivers, if_pos ha.status]
        rfl
    · cases hRun
      refine ⟨⟨⟨q.copies, q.queues, rfl⟩, by simp, fun _ => ?_⟩,
        fun _ => ⟨[], .stop _, fun hOk => ?_⟩⟩
      · exact ⟨[], content, (hS.keeps _ _ _).mpr ⟨rfl, hHeaps⟩, .refl _, rfl, ha⟩
      · rw [Run.delivers, if_pos hOk, hNone]

theorem runDequeueMany_draws (hS : KeepsHeaps settings S)
    (hHeaps : Heaps settings q.queues content) (ha : Dequeues q.calls a []) {allowSmallBatch : Bool}
    (hOperation : a.operation = .dequeueMany allowSmallBatch) (hWhole : drains q a = false)
    (hLoses : ¬(∀ n i, env.copyElement n i = .ok) → ∀ lost, S.loses lost)
    (hRun : runDequeueMany settings env allowSmallBatch q a = .ok r) :
    Draws S q a [] content r ∧ DrawsLeast settings q a r := by
  have hCase := ha.operation
  rw [hOperation] at hCase
  obtain ⟨hFills, n, hCall, hCount⟩ := hCase
  have hSize : q.size = content.length := hHeaps.length 0
  have hNone : elementsOf a.done = [] := by rw [ha.done]; rfl
  rw [runDequeueMany] at hRun
  split at hRun
  · cases hRun
    have hError : (a.setStatus (insufficient q a.elementsRequested q.size)).status ≠ .ok := by
      rw [Attempt.setStatus, if_pos ha.status]
      rintro ⟨⟩
    refine ⟨⟨⟨q.copies, q.queues, rfl⟩, fun _ => ?_, fun hNot => absurd rfl hNot⟩, fun _ => ?_⟩
    · refine ⟨content, [], (hS.keeps _ _ _).mpr ⟨rfl, hHeaps⟩, S.loses_nil, ?_, ?_⟩
      · rw [Run.delivers, if_neg hError]
        exact S.delivers_nil
      · rw [Run.delivers, if_neg hError, append_nil]
    · exact ⟨[], .stop _, fun hOk => absurd hOk hError⟩
  · split at hRun
    · cases hRun
      refine ⟨⟨⟨q.copies, q.queues, rfl⟩, by simp, fun _ => ?_⟩,
        fun _ => ⟨[], .stop _, fun hOk => ?_⟩⟩
      · exact ⟨[], content, (hS.keeps _ _ _).mpr ⟨rfl, hHeaps⟩, .refl _, rfl, ha⟩
      · rw [Run.delivers, if_pos hOk, hNone]
    · rename_i hMore
      have hEnough : a.elementsRequested ≤ q.size := by
        by_contra hLess
        rw [not_le] at hLess
        simp only [decide_eq_true hLess, Bool.true_and, Bool.or_eq_true, decide_eq_true_eq,
          Bool.not_eq_true', Bool.and_eq_false_iff, not_or, Bool.not_eq_false] at hMore
        obtain ⟨hSome, hClosed, rfl⟩ := hMore
        simp only [drains, hOperation, hClosed, decide_eq_true hLess, Bool.true_and, Bool.and_true,
          decide_eq_false_iff_not] at hWhole
        omega
      obtain ⟨r', taken, content', hLoop, hMoves, hHeaps', hTakes, hEnds⟩ :=
        dequeueLoop_takes env q.size .noProgress hFills hHeaps hSize.le
      cases hLoop.symm.trans hRun
      obtain ⟨hComplete, hCopies, hBatch⟩ : r.result = .complete ∧
          ((∀ n i, env.copyElement n i = .ok) →
            r.attempt.status = .ok ∧ (taken.length : Int) = a.elementsRequested) ∧
          (r.attempt.status = .ok → ∃ t, r.attempt.done = .batch t ∧ Stores t ([] ++ taken)) := by
        refine hEnds.resolve_right ?_
        rintro ⟨_, _, hHolds, hLeft, _⟩
        have hMoreWanted := hHolds.wants
        omega
      have hDelivers : r.attempt.status = .ok → Run.delivers r = taken := by
        intro hOk
        obtain ⟨t, hDone, hStores⟩ := hBatch hOk
        rw [Run.delivers, if_pos hOk, hDone, elementsOf, hStores.slices, nil_append]
      refine ⟨⟨hMoves, fun _ => ?_, fun hNot => absurd hComplete hNot⟩, fun _ => ?_⟩
      · rcases eq_or_ne r.attempt.status .ok with hOk | hError
        · refine ⟨content', [], (hS.keeps _ _ _).mpr ⟨rfl, hHeaps'⟩, S.loses_nil, ?_, ?_⟩
          · rw [hDelivers hOk]
            exact hS.delivers _ hTakes.sorted
          · rw [hDelivers hOk, append_nil]
            exact hTakes.perm
        · refine ⟨content', taken, (hS.keeps _ _ _).mpr ⟨rfl, hHeaps'⟩,
            hLoses (fun hEnv => hError (hCopies hEnv).1) taken, ?_, ?_⟩
          · rw [Run.delivers, if_neg hError]
            exact S.delivers_nil
          · rw [Run.delivers, if_neg hError]
            exact perm_append_comm.trans hTakes.perm
      · rw [hHeaps.tensors, hHeaps'.tensors]
        exact ⟨taken, hTakes, hDelivers⟩

variable {es ds : List (Attempt k (Cell β))}

theorem runEnqueue_gives (hS : KeepsHeaps settings S) (h : Conserved S (a :: es) ds q)
    (hActive : a.isCancelled = false) (hOperation : a.operation = .enqueue x) (hWhole : Whole x) :
    ∃ elements, Gives S q a elements (runEnqueue settings x q a) := by
  have ha := h.enqueues a mem_cons_self
  have hCase := ha.operation
  rw [hOperation] at hCase
  rw [runEnqueue]
  split
  · exact ⟨[], h.givesNothing _ q.closed⟩
  · split
    · split
      · exact ⟨[], h.givesNothing _ q.closed⟩
      · refine ⟨[x], ?_, rfl, rfl, rfl, rfl, rfl, rfl, rfl, ?_, fun hNot => absurd rfl hNot⟩
        · intro held content hKeeps
          obtain ⟨rfl, hHeaps⟩ := (hS.keeps _ _ _).mp hKeeps
          exact ⟨_, (hS.keeps _ _ _).mpr ⟨rfl, hHeaps.emplace hWhole⟩, emplace_perm x⟩
        · rw [TakesPrefix, hCase.1]
          right
          exact (acceptedFrom_append q.accepted [x] a.id a.id).trans
            (by rw [hCase.2 hActive, if_pos rfl, nil_append])
    · refine ⟨[], ?_, by simp, rfl, rfl, rfl, rfl, rfl, rfl, h.takes a.id, fun _ => ha⟩
      exact fun held content hKeeps => ⟨content, hKeeps, by simp⟩

variable {t : Batch k (Cell β)}

theorem getElementComponentFromBatch_ok (hEnv : ∀ n i, env.copySlice n i = .ok)
    (ha : a.status = .ok) {index : Int} {i : Fin (k + 1)}
    {result : Option β × Attempt k (Cell β) × QueueBase k (Cell β)}
    (h : getElementComponentFromBatch env t index i q a = .ok result) :
    (0 ≤ index ∧ index < (t i).length) ∧
      result = (some (elementAt t index.toNat i).second, a, { q with copies := q.copies + 1 }) := by
  simp only [getElementComponentFromBatch, hEnv, setStatus_ok ha, ha, ne_eq, not_true_eq_false,
    if_false] at h
  split at h
  · cases h
  · rename_i value hSlice
    cases h
    have hIndex : 0 ≤ index ∧ (t i)[index.toNat]? = some value := by
      rw [slice?] at hSlice
      split at hSlice
      · cases hSlice
      · exact ⟨by omega, hSlice⟩
    obtain ⟨hLt, -⟩ := List.getElem?_eq_some_iff.mp hIndex.2
    refine ⟨⟨hIndex.1, by omega⟩, ?_⟩
    rw [elementAt, getD_eq_getElem?_getD, hIndex.2]
    rfl

theorem pushComponents_ok (hEnv : ∀ n i, env.copySlice n i = .ok) (ha : a.status = .ok)
    {index priority : Int} (components : List (Fin (k + 1))) (hNodup : components.Nodup)
    {result : Bool × Attempt k (Cell β) × QueueBase k (Cell β)}
    (h : pushComponents settings env t index priority components q a = .ok result) :
    (∀ i ∈ components, 0 ≤ index ∧ index < (t i).length) ∧
      ∃ copies, result = (true, a, { q with
        copies := copies
        queues := fun i =>
          if i ∈ components then
            emplace settings (q.queues i) priority (elementAt t index.toNat i).second
          else q.queues i }) := by
  induction components generalizing q with
  | nil =>
    cases h
    exact ⟨by simp, q.copies, by simp⟩
  | cons i rest ih =>
    obtain ⟨hNew, hRest⟩ := nodup_cons.mp hNodup
    rw [pushComponents] at h
    split at h
    · cases h
    · rename_i a' q' hGet
      obtain ⟨-, hSame⟩ := getElementComponentFromBatch_ok hEnv ha hGet
      cases hSame
    · rename_i element a' q' hGet
      obtain ⟨hIndex, hSame⟩ := getElementComponentFromBatch_ok hEnv ha hGet
      obtain ⟨rfl, rfl, rfl⟩ := hSame
      obtain ⟨hRange, copies, hEq⟩ := ih hRest h
      refine ⟨?_, copies, hEq.trans ?_⟩
      · intro j hj
        rcases mem_cons.mp hj with rfl | hj
        · exact hIndex
        · exact hRange j hj
      · simp only [Prod.mk.injEq, true_and]
        congr 1
        funext j
        rcases eq_or_ne j i with rfl | hj
        · simp [hNew]
        · simp [hj]

/-- What the loop of an `EnqueueMany` has put into the heaps. -/
structure Put (settings : Settings β) (q : QueueBase k (Cell β)) (a : Attempt k (Cell β))
    (t : Batch k (Cell β)) (elements : List (Tuple k (Cell β))) (r : Run k (Cell β)) : Prop where
  queue : ∃ copies queues, r.queue = { q with
    copies := copies
    queues := queues
    accepted := q.accepted ++ elements.map fun x => (a.id, x) }
  content : ∀ content, Heaps settings q.queues content →
    ∃ content', Heaps settings r.queue.queues content' ∧ content'.Perm (content ++ elements)
  attempt : ∃ status, r.attempt = { a with
    status := status, elementsRequested := a.elementsRequested - elements.length }
  stays : r.result ≠ .complete → r.attempt.status = .ok
  follows : (t 0).length < 2 ^ 31 → ∀ p : Nat, p ≤ (t 0).length →
    (p : Int) = (t 0).length - a.elementsRequested →
      p + elements.length ≤ (t 0).length ∧ slices t (p + elements.length) = slices t p ++ elements

theorem Put.nothing (copies : Nat) {result : RunResult} {status : Status}
    (h : result ≠ .complete → status = .ok) :
    Put settings q a t [] ⟨result, { a with status := status }, { q with copies := copies }⟩ where
  queue := ⟨copies, q.queues, by simp⟩
  content content hHeaps := ⟨content, hHeaps, by simp⟩
  attempt := ⟨status, by simp⟩
  stays := h
  follows _ p hp _ := ⟨by simpa using hp, by simp⟩

theorem Put.cons (copies : Nat) {elements : List (Tuple k (Cell β))} (hx : Whole x)
    (hNext : (t 0).length < 2 ^ 31 → ∀ p : Nat, p ≤ (t 0).length →
      (p : Int) = (t 0).length - a.elementsRequested → p < (t 0).length ∧ x = elementAt t p)
    (h : Put settings
      { q with
        copies := copies
        queues := fun i => emplace settings (q.queues i) (priority settings x) (x i).second
        accepted := q.accepted ++ [(a.id, x)] }
      { a with elementsRequested := a.elementsRequested - 1 } t elements r) :
    Put settings q a t (x :: elements) r where
  queue := by
    obtain ⟨copies', queues, hQueue⟩ := h.queue
    refine ⟨copies', queues, ?_⟩
    rw [hQueue]
    simp
  content content hHeaps := by
    obtain ⟨content', hHeaps', hPerm⟩ := h.content _ (hHeaps.emplace hx)
    refine ⟨content', hHeaps', hPerm.trans ?_⟩
    rw [append_cons content x elements]
    exact (emplace_perm x).append_right _
  attempt := by
    obtain ⟨status, hAttempt⟩ := h.attempt
    refine ⟨status, ?_⟩
    rw [hAttempt]
    simp only [length_cons, Attempt.mk.injEq, true_and, and_true]
    omega
  stays := h.stays
  follows hShort p hLe hp := by
    obtain ⟨hLt, rfl⟩ := hNext hShort p hLe hp
    obtain ⟨hBound, hSlices⟩ := h.follows hShort (p + 1) hLt (by simp only; omega)
    rw [slices_succ, append_assoc, add_assoc, add_comm 1] at hSlices
    rw [length_cons, hSlices]
    exact ⟨by omega, rfl⟩

theorem whole_elementAt (hCells : ∀ i, ∀ cell ∈ t i, cell = .tensor cell.second) (index : Nat) :
    Whole (elementAt t index) := by
  intro i
  rw [elementAt, getD_eq_getElem?_getD]
  cases hCell : (t i)[index]? with
  | none => rfl
  | some cell => exact hCells i cell (mem_of_getElem? hCell)

theorem enqueueManyLoop_ok (hEnv : ∀ n i, env.copySlice n i = .ok)
    (hCells : ∀ i, ∀ cell ∈ t i, cell = .tensor cell.second) (room : Nat) (result : RunResult)
    (ha : a.status = .ok) (h : enqueueManyLoop settings env t room result q a = .ok r) :
    ∃ elements, Put settings q a t elements r := by
  induction room generalizing q a result with
  | zero =>
    cases h
    exact ⟨[], Put.nothing q.copies fun _ => ha⟩
  | succ room ih =>
    simp only [enqueueManyLoop] at h
    split at h
    · cases h
    · rename_i a' q' hGet
      cases (getElementComponentFromBatch_ok hEnv ha hGet).2
    · rename_i priorityTensor a₁ q₁ hGet
      obtain ⟨hFirst, hSame⟩ := getElementComponentFromBatch_ok hEnv ha hGet
      obtain ⟨rfl, rfl, rfl⟩ := hSame
      split at h
      · cases h
        refine ⟨[], ?_⟩
        rw [Attempt.setStatus, if_pos ha]
        exact Put.nothing _ fun hNot => absurd rfl hNot
      · split at h
        · cases h
        · rename_i a' q' hPush
          obtain ⟨-, copies, hEq⟩ := pushComponents_ok hEnv ha _ (nodup_finRange _) hPush
          cases hEq
        · rename_i a' q' hPush
          obtain ⟨-, copies, hEq⟩ := pushComponents_ok hEnv ha _ (nodup_finRange _) hPush
          simp only [mem_finRange, Prod.mk.injEq, true_and] at hEq
          obtain ⟨rfl, rfl⟩ := hEq
          have hWhole := whole_elementAt hCells
            (bmod ((t 0).length - a'.elementsRequested) (2 ^ 32)).toNat
          have hNext : (t 0).length < 2 ^ 31 → ∀ p : Nat, p ≤ (t 0).length →
              (p : Int) = (t 0).length - a'.elementsRequested → p < (t 0).length ∧
                elementAt t (bmod ((t 0).length - a'.elementsRequested) (2 ^ 32)).toNat =
                  elementAt t p := by
            intro hShort p hLe hp
            have hSame : bmod ((t 0).length - a'.elementsRequested) (2 ^ 32) = p := by
              rw [← hp]
              exact bmod_eq_of_le (by omega) (by omega)
            rw [hSame] at hFirst ⊢
            exact ⟨by omega, rfl⟩
          split at h
          · cases h
            exact ⟨[_], Put.cons copies hWhole hNext (Put.nothing copies fun hNot =>
              absurd rfl hNot)⟩
          · obtain ⟨elements, hPut⟩ := ih .progress
              (a := { a' with elementsRequested := a'.elementsRequested - 1 }) ha h
            exact ⟨_, Put.cons copies hWhole hNext hPut⟩

theorem runEnqueueMany_gives (hS : KeepsHeaps settings S) (h : Conserved S (a :: es) ds q)
    (hActive : a.isCancelled = false) (hOperation : a.operation = .enqueueMany t)
    (hEnv : ∀ n i, env.copySlice n i = .ok) (hCells : ∀ i, ∀ cell ∈ t i, cell = .tensor cell.second)
    (hRun : runEnqueueMany settings env t q a = .ok r) : ∃ elements, Gives S q a elements r := by
  have ha := h.enqueues a mem_cons_self
  have hCase := ha.operation
  rw [hOperation] at hCase
  rw [runEnqueueMany] at hRun
  split at hRun
  · cases hRun
    exact ⟨[], h.givesNothing _ q.closed⟩
  · obtain ⟨elements, ⟨copies, queues, hQueue⟩, hContent, ⟨status, hAttempt⟩, hStays, hFollows⟩ :=
      enqueueManyLoop_ok hEnv hCells _ _ (ha.status hActive) hRun
    have hSame : r.attempt.id = a.id ∧ r.attempt.done = a.done ∧
        r.attempt.operation = a.operation ∧
        r.attempt.elementsRequested = a.elementsRequested - elements.length := by
      rw [hAttempt]
      exact ⟨rfl, rfl, rfl, rfl⟩
    obtain ⟨hId, hDone, hOp, hRequested⟩ := hSame
    have hTaken : (t 0).length < 2 ^ 31 → ∃ p : Nat, p ≤ (t 0).length ∧
        (p : Int) = (t 0).length - r.attempt.elementsRequested ∧
          acceptedFrom r.queue.accepted a.id = slices t p := by
      intro hShort
      obtain ⟨p, hLe, hp, hSlices⟩ := hCase.2 hActive hShort
      obtain ⟨hBound, hMore⟩ := hFollows hShort p hLe hp
      refine ⟨p + elements.length, hBound, by omega, ?_⟩
      rw [hQueue, hMore, acceptedFrom_append, if_pos rfl, hSlices]
    refine ⟨elements, ?_, ?_, ?_, ?_, ?_, hId, hDone, hOp, ?_, fun hNot => ?_⟩
    · intro held content hKeeps
      obtain ⟨rfl, hHeaps⟩ := (hS.keeps _ _ _).mp hKeeps
      obtain ⟨content', hHeaps', hPerm⟩ := hContent content hHeaps
      exact ⟨content', (hS.keeps _ _ _).mpr ⟨rfl, hHeaps'⟩, hPerm⟩
    · rw [hQueue]
    · rw [hQueue]
    · rw [hQueue]
    · rw [hQueue]
    · rw [TakesPrefix, hCase.1]
      intro hShort
      obtain ⟨p, hLe, -, hSlices⟩ := hTaken hShort
      exact ⟨p, hLe, hSlices⟩
    · refine ⟨hDone.trans ha.done, fun _ => hStays hNot, ?_⟩
      rw [hOp, hOperation, hId]
      exact ⟨hCase.1, fun _ => hTaken⟩

/-- A run moves elements whole, those with the least priorities first, as long as the store
admits whole elements only and no run drains a closed queue. -/
theorem movesElements_of (hS : KeepsHeaps settings S)
    {run : QueueBase k (Cell β) → Attempt k (Cell β) → Except Fault (Run k (Cell β))}
    (hRuns : ∀ q a r, run q a = .ok r → S.admits a.operation →
      runCallback settings env q a = .ok r ∧ drains q a = false)
    (hEnqueue : ∀ x, S.admits (.enqueue x) → Whole x)
    (hEnqueueMany : ∀ t : Batch k (Cell β), S.admits (.enqueueMany t) →
      (∀ n i, env.copySlice n i = .ok) ∧ ∀ i, ∀ cell ∈ t i, cell = .tensor cell.second)
    (hDequeueMany : ∀ allowSmallBatch, S.admits (.dequeueMany allowSmallBatch) →
      ¬(∀ n i, env.copyElement n i = .ok) → ∀ lost, S.loses lost) :
    MovesElements S run (DrawsLeast settings) where
  gives es ds q a r h hActive hRun := by
    have hCase := (h.enqueues a mem_cons_self).operation
    have hAdmits := h.admits a (mem_append_left _ mem_cons_self)
    obtain ⟨hRun, -⟩ := hRuns q a r hRun hAdmits
    rw [runCallback] at hRun
    split at hRun
    · rename_i hOperation
      cases hRun
      rw [hOperation] at hAdmits
      refine ⟨runEnqueue_gives hS h hActive hOperation (hEnqueue _ hAdmits), fun hKind => ?_⟩
      rw [hOperation] at hKind
      cases hKind
    · rename_i hOperation
      rw [hOperation] at hAdmits
      obtain ⟨hEnv, hCells⟩ := hEnqueueMany _ hAdmits
      refine ⟨runEnqueueMany_gives hS h hActive hOperation hEnv hCells hRun, fun hKind => ?_⟩
      rw [hOperation] at hKind
      cases hKind
    · rename_i hOperation
      cases hRun
      refine ⟨⟨[], h.runClose⟩, fun hKind => ?_⟩
      rw [hOperation] at hKind
      cases hKind
    · rename_i hOperation
      rw [hOperation] at hCase
      exact hCase.elim
    · rename_i hOperation
      rw [hOperation] at hCase
      exact hCase.elim
  draws q a r held content hAdmits hKeeps ha hRun := by
    obtain ⟨rfl, hHeaps⟩ := (hS.keeps _ _ _).mp hKeeps
    obtain ⟨hRun, hWhole⟩ := hRuns q a r hRun hAdmits
    have hCase := ha.operation
    rw [runCallback] at hRun
    split at hRun
    · rename_i hOperation
      rw [hOperation] at hCase
      exact hCase.elim
    · rename_i hOperation
      rw [hOperation] at hCase
      exact hCase.elim
    · rename_i hOperation
      rw [hOperation] at hCase
      exact hCase.elim
    · rename_i hOperation
      exact runDequeue_draws hS hHeaps ha hOperation hRun
    · rename_i allowSmallBatch hOperation
      rw [hOperation] at hAdmits
      exact runDequeueMany_draws hS hHeaps ha hOperation hWhole (hDequeueMany _ hAdmits) hRun

theorem movesElements (settings : Settings β) (env : Env k) :
    MovesElements (store settings env) (runCallback settings env) (DrawsLeast settings) := by
  refine movesElements_of (keepsHeaps_store settings env) (fun q a r hRun hAdmits => ⟨hRun, ?_⟩)
    (fun _ h => h) (fun _ h => h) fun _ _ hFails _ hEnv => absurd hEnv hFails
  rw [drains]
  split
  · next hOperation =>
    rw [hOperation] at hAdmits
    exact absurd hAdmits.symm Bool.false_ne_true
  · rfl

end Runs

open Transition

def cellAction : Action k β → Action k (Cell β)
  | .call call => .call (cells call)
  | .flush => .flush

variable [Inhabited β]

def step (settings : Settings β) (env : Env k) (q : QueueBase k (Cell β)) (action : Action k β) :
    Outcome (QueueBase k (Cell β)) Failure :=
  stepWith (runCallback settings env) unspecifiedShapes q (cellAction action)

structure Prioritizes (settings : Settings β) (env : Env k) (q : QueueBase k (Cell β)) :
    Prop where
  integrity : (delivered q ++ tensors q).Subperm (q.accepted.map Prod.snd)
  fromAttempts : ∀ id, TakesPrefix q.calls q.accepted id
  leastFirst : ∀ turns, FlushVisits (runCallback settings env) (DrawsLeast settings) turns q
  sorted : ∀ c ∈ q.completed,
    (deliveredBy c).Pairwise fun x y => priority settings x ≤ priority settings y

def FullBatch : Call k β → Prop
  | .tryDequeueMany _ allowSmallBatch => allowSmallBatch = false
  | _ => True

instance : (call : Call k β) → Decidable (FullBatch call)
  | .tryDequeueMany _ allowSmallBatch => inferInstanceAs (Decidable (allowSmallBatch = false))
  | .tryEnqueue _ | .tryEnqueueMany _ | .tryDequeue | .close _ => .isTrue trivial

def FullBatches (_ : QueueBase k (Cell β)) : Action k β → Prop
  | .call call => FullBatch call
  | .flush => True

def Pushable (componentDtypes : Fin (k + 1) → DataType) (_ : QueueBase k (Cell β)) :
    Action k β → Prop
  | .call call => FullBatch call ∧ match call with
    | .tryEnqueueMany t => (∀ i, handled (componentDtypes i)) ∨ (t 0).length = 0
    | _ => True
  | .flush => True

variable {settings : Settings β} {componentDtypes : Fin (k + 1) → DataType} {capacity : Nat}
  {name : String} {specifiedShapes : Bool} {q : QueueBase k (Cell β)}

omit [Inhabited β] in
theorem permits (settings : Settings β) (call : Call k β)
    (h : Pushable componentDtypes q (.call call)) :
    (store settings (ofTypes componentDtypes)).Permits (cells call) := by
  obtain ⟨hFull, hCase⟩ := h
  cases call with
  | tryEnqueue x => exact fun i => rfl
  | tryEnqueueMany t =>
    intro hSome
    rw [length_map] at hSome
    refine ⟨fun n i => ?_, ?_⟩
    · exact ((succeeds_ofTypes (hCase.resolve_right hSome)) n i).1
    · intro i cell hCell
      obtain ⟨value, -, rfl⟩ := mem_map.mp hCell
      rfl
  | tryDequeue => trivial
  | tryDequeueMany n small => exact fun _ => hFull
  | close cancelPendingEnqueues => trivial

/-- Delivered elements are accepted ones, and come in the order of their priorities. -/
theorem history_prioritizes (hReach : Reach (step settings (ofTypes componentDtypes))
    (Pushable componentDtypes) (init capacity name specifiedShapes) q) :
    Prioritizes settings (ofTypes componentDtypes) q := by
  have hRuns := movesElements settings (ofTypes componentDtypes)
  have hReach' : Reach (stepWith (runCallback settings (ofTypes componentDtypes)) unspecifiedShapes)
      (fun _ action => ∀ call, action = .call call →
        (store settings (ofTypes componentDtypes)).Permits call)
      (init capacity name specifiedShapes) q := by
    refine hReach.relabel cellAction (fun _ _ => rfl) ?_
    rintro q (call | _) hAllowed c hCall
    · cases hCall
      exact permits settings call hAllowed
    · cases hCall
  have hConserved := Conserved.reach hRuns (nofun : unspecifiedShapes ≠ .ok)
    (fun _ call h => h call rfl) ⟨rfl, heaps_nil⟩ hReach'
  refine ⟨?_, hConserved.takes, fun turns => (hConserved.flush hRuns turns).1, hConserved.delivers⟩
  obtain ⟨held, content, lost, ⟨rfl, hHeaps⟩, -, hPerm, -⟩ := hConserved.elements
  rw [hHeaps.tensors]
  rw [append_nil] at hPerm
  exact (sublist_append_left _ lost).subperm.trans hPerm.subperm

def fullBatches (_ : QueueBase k (Cell β)) : Action k β → Bool
  | .call call => decide (FullBatch call)
  | .flush => true

def integers : Settings Int where
  heap := sortedOrder Int
  isScalar _ := true
  shapeString _ := "[]"
  scalar value := value

def values (x : Tuple 1 (Cell Int)) : Int × Int := ((x 0).second, (x 1).second)

/-- Two of the three elements have the same priority. -/
theorem equal_priorities_delivered :
    ∃ q, Reach (step integers (ofTypes fun _ : Fin 2 => .int64)) (Pushable fun _ => .int64)
        (init 3 "q" true) q ∧
      (delivered q).map values = [(1, 11), (2, 10), (2, 12)] ∧
      Prioritizes integers (ofTypes fun _ => .int64) q := by
  have hPushable : ∀ (q : QueueBase 1 (Cell Int)) (action : Action 1 Int),
      fullBatches q action → Pushable (fun _ => .int64) q action := by
    rintro q (call | _) hTest
    · refine ⟨of_decide_eq_true hTest, ?_⟩
      cases call with
      | tryEnqueueMany t => exact .inl fun _ => rfl
      | _ => trivial
    · trivial
  obtain ⟨q, hReach, hTest⟩ :=
    exists_reach_of_exec (step integers (ofTypes fun _ : Fin 2 => .int64))
    (init 3 "q" true) fullBatches hPushable
    [.call (.tryEnqueueMany ![[2, 1, 2], [10, 11, 12]]), .flush, .call .tryDequeue, .flush,
      .call (.tryDequeueMany 2 false), .flush]
    (fun q => (delivered q).map values = [(1, 11), (2, 10), (2, 12)]) (by decide +kernel)
  exact ⟨q, hReach, of_decide_eq_true hTest, history_prioritizes hReach⟩

def brings : Call k (Cell β) → List (Tuple k (Cell β))
  | .tryEnqueue x => [x]
  | .tryEnqueueMany t => slices t (t 0).length
  | _ => []

/-- A batch fails at its second component after the first one was pushed: the next element
that is delivered has components of two elements. -/
theorem uint16_batch_mixes :
    ¬∀ (k : Nat) (settings : Settings Int) (componentDtypes : Fin (k + 1) → DataType)
      (capacity : Nat) (name : String) (specifiedShapes : Bool) (q : QueueBase k (Cell Int)),
      componentDtypes 0 = .int64 →
      Reach (step settings (ofTypes componentDtypes)) FullBatches
        (init capacity name specifiedShapes) q →
      ∀ x ∈ delivered q, ∃ call ∈ q.calls, x ∈ brings call := by
  intro hWhole
  have hFull : ∀ (q : QueueBase 1 (Cell Int)) (action : Action 1 Int),
      fullBatches q action → FullBatches q action := by
    rintro q (call | _) hTest
    · exact of_decide_eq_true (p := FullBatch call) hTest
    · trivial
  obtain ⟨q, hReach, hTest⟩ := exists_reach_of_exec
    (step integers (ofTypes ![.int64, .uint16])) (init 4 "q" false) fullBatches hFull
    [.call (.tryEnqueue ![5, 10]), .flush, .call (.tryEnqueueMany ![[3], [11]]), .flush,
      .call .tryDequeue, .flush]
    (fun q => ∃ x ∈ delivered q, ∀ call ∈ q.calls, values x ∉ (brings call).map values)
    (by decide +kernel)
  obtain ⟨x, hx, hNone⟩ := of_decide_eq_true hTest
  obtain ⟨call, hCall, hBrings⟩ := hWhole 1 integers _ 4 "q" false q rfl hReach x hx
  exact hNone call hCall (mem_map_of_mem hBrings)

end TensorFlowOnSpark.Kernels.PriorityQueue
