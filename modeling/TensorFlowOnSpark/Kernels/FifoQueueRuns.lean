import TensorFlowOnSpark.Kernels.FifoQueue

/-!
# What the run callbacks of a FIFO queue do to its elements

The copies are assumed to succeed.
-/

namespace TensorFlowOnSpark.Kernels.FifoQueue

open Framework QueueBase List

universe u

variable {k : Nat} {α : Type u} {env : Env k} {q : QueueBase k α} {a : Attempt k α}

def Succeeds (env : Env k) : Prop := ∀ n i, env.copySlice n i = .ok ∧ env.copyElement n i = .ok

def Stores (t : Batch k α) (elements : List (Tuple k α)) : Prop := ∀ i, t i = elements.map (· i)

def Moves (q q' : QueueBase k α) : Prop := ∃ copies queues, q' = { q with copies, queues }

/-- The copies of the components succeed, from the `n`-th copy of the queue's life on. -/
def copiesOk (status : Nat → Fin (k + 1) → Status) : Nat → List (Fin (k + 1)) → Bool
  | _, [] => true
  | n, i :: rest => decide (status n i = .ok) && copiesOk status (n + 1) rest

def turnsOk (status : Nat → Fin (k + 1) → Status) : Nat → Nat → Bool
  | 0, _ => true
  | turns + 1, n =>
    copiesOk status n (finRange (k + 1)) && turnsOk status turns (n + (k + 1))

variable {status : Nat → Fin (k + 1) → Status}

theorem copiesOk_cons {n : Nat} {i : Fin (k + 1)} {rest : List (Fin (k + 1))} :
    copiesOk status n (i :: rest) ↔ status n i = .ok ∧ copiesOk status (n + 1) rest := by
  rw [copiesOk, Bool.and_eq_true, decide_eq_true_eq]

theorem copiesOk_of_ok (h : ∀ n i, status n i = .ok)
    (n : Nat) (components : List (Fin (k + 1))) : copiesOk status n components := by
  induction components generalizing n with
  | nil => rfl
  | cons i rest ih => exact copiesOk_cons.mpr ⟨h n i, ih (n + 1)⟩

theorem turnsOk_of_ok (h : ∀ n i, status n i = .ok)
    (turns n : Nat) : turnsOk status turns n := by
  induction turns generalizing n with
  | zero => rfl
  | succ turns ih => rw [turnsOk, copiesOk_of_ok h, ih, Bool.and_self]

theorem setStatus_ok (ha : a.status = .ok) : a.setStatus .ok = a := by
  rw [Attempt.setStatus, if_pos ha, ← ha]

variable {elements : List (Tuple k α)} {t : Batch k α}

theorem Stores.length (h : Stores t elements) (i : Fin (k + 1))
    : (t i).length = elements.length := by
  rw [h i, length_map]

section Elements

variable [Inhabited α]

def slices (t : Batch k α) (count : Nat) : List (Tuple k α) := (range count).map (elementAt t)

theorem slices_succ (t : Batch k α) (count : Nat) :
    slices t (count + 1) = slices t count ++ [elementAt t count] := by
  rw [slices, range_succ, map_append]
  rfl

theorem Stores.slices (h : Stores t elements) :
    slices t (t 0).length = elements := by
  rw [h.length]
  apply ext_getElem
  · simp [FifoQueue.slices]
  · intro p _ hp
    simp only [FifoQueue.slices]
    funext i
    simp [elementAt, h i, hp]

variable {r : Bool × Attempt k α × QueueBase k α} {components : List (Fin (k + 1))}

theorem pushComponents_copied (hOk : copiesOk env.copySlice q.copies components)
    (ha : a.status = .ok) (t : Batch k α) (index : Int) (hNodup : components.Nodup)
    (h : pushComponents env t index components q a = .ok r) :
    (∀ i ∈ components, 0 ≤ index ∧ index < (t i).length) ∧
      r = (true, a, { q with
        copies := q.copies + components.length
        queues := fun i =>
          if i ∈ components then q.queues i ++ [elementAt t index.toNat i] else q.queues i }) := by
  induction components generalizing q with
  | nil =>
    cases h
    exact ⟨by simp, by simp⟩
  | cons i rest ih =>
    obtain ⟨hNew, hRest⟩ := nodup_cons.mp hNodup
    obtain ⟨hFirst, hOthers⟩ := copiesOk_cons.mp hOk
    simp only [pushComponents, hFirst, setStatus_ok ha, ha, ne_eq, not_true_eq_false, if_false] at h
    split at h
    · cases h
    · rename_i value hSlice
      have hIndex : 0 ≤ index ∧ (t i)[index.toNat]? = some value := by
        rw [slice?] at hSlice
        split at hSlice
        · cases hSlice
        · exact ⟨by omega, hSlice⟩
      obtain ⟨hLt, hValue⟩ := List.getElem?_eq_some_iff.mp hIndex.2
      obtain ⟨hRange, hEq⟩ := ih hOthers hRest h
      refine ⟨?_, ?_⟩
      · intro j hj
        rcases mem_cons.mp hj with rfl | hj
        · exact ⟨hIndex.1, by omega⟩
        · exact hRange j hj
      · rw [hEq]
        simp only [Prod.mk.injEq, true_and]
        congr 1
        · funext j
          by_cases hj : j = i
          · subst hj
            simp [hNew, elementAt, hIndex.2]
          · simp [hj]
        · rw [length_cons]
          omega

theorem pushComponents_ok (hEnv : Succeeds env) (ha : a.status = .ok) (t : Batch k α) (index : Int)
    (components : List (Fin (k + 1))) (hNodup : components.Nodup)
    (h : pushComponents env t index components q a = .ok r) :
    (∀ i ∈ components, 0 ≤ index ∧ index < (t i).length) ∧
      ∃ copies, r = (true, a, { q with
        copies := copies
        queues := fun i =>
          if i ∈ components then q.queues i ++ [elementAt t index.toNat i] else q.queues i }) := by
  obtain ⟨hRange, hEq⟩ := pushComponents_copied
    (copiesOk_of_ok (fun n i => (hEnv n i).1) q.copies components) ha t index hNodup h
  exact ⟨hRange, q.copies + components.length, hEq⟩

theorem restoreComponents_copied (hOk : copiesOk env.copySlice q.copies components) (t : Batch k α)
    (index : Nat) (hNodup : components.Nodup) :
    restoreComponents env t index components q a = (a, { q with
      copies := q.copies + components.length
      queues := fun i =>
        if i ∈ components then elementAt t index i :: q.queues i else q.queues i }) := by
  induction components generalizing q with
  | nil => simp [restoreComponents]
  | cons i rest ih =>
    obtain ⟨hNew, hRest⟩ := nodup_cons.mp hNodup
    obtain ⟨hFirst, hOthers⟩ := copiesOk_cons.mp hOk
    simp only [restoreComponents, hFirst]
    refine (ih hOthers hRest).trans ?_
    simp only [Prod.mk.injEq, true_and]
    congr 1
    · funext j
      by_cases hj : j = i
      · subst hj
        simp [hNew, elementAt]
      · simp [hj]
    · rw [length_cons]
      omega

theorem restore_copied (t : Batch k α) {count : Nat}
    (hOk : turnsOk env.copySlice count q.copies) :
    ∃ copies, restore env t count q a = (a, { q with
      copies := copies
      queues := fun i => (slices t count).map (· i) ++ q.queues i }) := by
  induction count generalizing q with
  | zero => exact ⟨q.copies, rfl⟩
  | succ count ih =>
    rw [turnsOk, Bool.and_eq_true] at hOk
    have hComponents := restoreComponents_copied (a := a) hOk.1 t count (nodup_finRange _)
    simp only [restore, hComponents, mem_finRange]
    rw [length_finRange]
    obtain ⟨copies, hEq⟩ := ih (q := { q with
      copies := q.copies + (k + 1), queues := fun i => elementAt t count i :: q.queues i }) hOk.2
    refine ⟨copies, hEq.trans ?_⟩
    simp [slices_succ]

omit [Inhabited α] in
theorem copyComponents_cases (env : Env k) (ha : a.status = .ok) (element : Tuple k α)
    (index : Nat) (components : List (Fin (k + 1))) (hNodup : components.Nodup) (t : Batch k α) :
    (∃ copies, copyComponents env element index components t q a = (true,
        fun i => if i ∈ components then (t i).set index (element i) else t i, a,
        { q with copies := copies })) ∨
      ¬Succeeds env ∧ ∃ t' a' copies, copyComponents env element index components t q a =
        (false, t', a', { q with copies := copies }) := by
  induction components generalizing q t with
  | nil => exact .inl ⟨q.copies, by simp [copyComponents]⟩
  | cons i rest ih =>
    obtain ⟨hNew, hRest⟩ := nodup_cons.mp hNodup
    rw [copyComponents]
    by_cases hCopy : env.copyElement q.copies i = .ok
    · simp only [hCopy, setStatus_ok ha, ha, ne_eq, not_true_eq_false, if_false]
      rcases ih hRest (q := { q with copies := q.copies + 1 })
        (Function.update t i ((t i).set index (element i))) with ⟨copies, hEq⟩ | hFails
      · refine .inl ⟨copies, hEq.trans ?_⟩
        simp only [Prod.mk.injEq, true_and, and_true]
        funext j
        by_cases hj : j = i
        · subst hj
          simp [hNew]
        · simp [hj]
      · exact .inr hFails
    · have hStatus : (a.setStatus (env.copyElement q.copies i)).status ≠ .ok := by
        rw [Attempt.setStatus, if_pos ha]
        exact hCopy
      simp only [if_pos hStatus]
      exact .inr ⟨fun hEnv => hCopy (hEnv _ _).2, _, _, _, rfl⟩

theorem dequeueLocked_ok {x : Tuple k α} {rest : List (Tuple k α)}
    (h : Stores q.queues (x :: rest)) :
    dequeueLocked q = .ok (x, { q with queues := fun i => rest.map (· i) }) := by
  have hNonempty : ∀ i, q.queues i ≠ [] := by
    intro i
    rw [h i]
    exact cons_ne_nil _ _
  rw [dequeueLocked, if_pos hNonempty]
  congr 2
  · funext i
    simp [elementAt, h i]
  · congr 1
    funext i
    rw [h i]
    rfl

/-- A `DequeueMany` that has taken the elements `held` and still wants some. -/
structure Fills (a : Attempt k α) (held : List (Tuple k α)) : Prop where
  status : a.status = .ok
  wants : 0 < a.elementsRequested
  tuple : match a.tuple with
    | none => held = []
    | some t => ∀ i, ∃ free, t i = held.map (· i) ++ free ∧
      (free.length : Int) = a.elementsRequested

variable {held content : List (Tuple k α)}

theorem Fills.batch (h : Fills a held) :
    ∀ i, ∃ free,
      a.tuple.getD (fun _ => replicate a.elementsRequested.toNat default) i =
        held.map (· i) ++ free ∧ (free.length : Int) = a.elementsRequested := by
  have hTuple := h.tuple
  have hWants := h.wants
  cases hEq : a.tuple with
  | none =>
    intro i
    simp only [hEq] at hTuple
    refine ⟨replicate a.elementsRequested.toNat default, ?_, ?_⟩
    · rw [hTuple]
      rfl
    · rw [length_replicate]
      omega
  | some t =>
    simp only [hEq] at hTuple
    exact hTuple

/-- What is left of a `DequeueMany` after its loop has taken elements from the front. -/
inductive Filled (a : Attempt k α) (held content : List (Tuple k α)) (turns : Nat)
    (result : RunResult) (r : Run k α) : Prop where
  | complete (enough : a.elementsRequested ≤ turns) (t : Batch k α)
      (attempt : r.attempt.id = a.id ∧ r.attempt.status = .ok ∧ r.attempt.done = .batch t)
      (completes : r.result = .complete)
      (batch : Stores t (held ++ content.take a.elementsRequested.toNat))
      (rest : Stores r.queue.queues (content.drop a.elementsRequested.toNat))
  | waits (short : (turns : Int) < a.elementsRequested)
      (attempt : r.attempt = { a with
        tuple := r.attempt.tuple, elementsRequested := a.elementsRequested - turns })
      (continues : r.result = if turns = 0 then result else .progress)
      (fills : Fills r.attempt (held ++ content.take turns))
      (rest : Stores r.queue.queues (content.drop turns))

theorem Fills.index (h : Fills a held) :
    ((a.tuple.getD (fun _ => replicate a.elementsRequested.toNat default) 0).length -
      a.elementsRequested).toNat = held.length := by
  obtain ⟨free, hFree, hLength⟩ := h.batch 0
  rw [hFree, length_append, length_map]
  omega

theorem Fills.set (h : Fills a held) (x : Tuple k α) :
    ∀ i, ∃ free,
      (a.tuple.getD (fun _ => replicate a.elementsRequested.toNat default) i).set held.length
        (x i) = (held ++ [x]).map (· i) ++ free ∧ (free.length : Int) =
          a.elementsRequested - 1 := by
  intro i
  have hWants := h.wants
  obtain ⟨free, hFree, hLength⟩ := h.batch i
  cases free with
  | nil =>
    simp only [length_nil] at hLength
    omega
  | cons y free =>
    refine ⟨free, ?_, ?_⟩
    · simp [hFree]
    · simp only [length_cons] at hLength
      omega

theorem Fills.copy_cases (env : Env k) (hFills : Fills a held) (x : Tuple k α) (t : Batch k α)
    (ht : t = a.tuple.getD fun _ => replicate a.elementsRequested.toNat default) :
    (∃ copies t', copyComponents env x ((t 0).length - a.elementsRequested).toNat
        (finRange (k + 1)) t q a = (true, t', a, { q with copies := copies }) ∧
      ∀ i, ∃ free, t' i = (held ++ [x]).map (· i) ++ free ∧
        (free.length : Int) = a.elementsRequested - 1) ∨
      ¬Succeeds env ∧ ∃ t' a' copies,
        copyComponents env x ((t 0).length - a.elementsRequested).toNat (finRange (k + 1)) t q a =
          (false, t', a', { q with copies := copies }) := by
  have hIndex : ((t 0).length - a.elementsRequested).toNat = held.length := by
    rw [ht]
    exact hFills.index
  rw [hIndex]
  rcases copyComponents_cases (q := q) env hFills.status x held.length (finRange (k + 1))
    (nodup_finRange _) t with ⟨copies, hCopy⟩ | hFails
  · refine .inl ⟨copies, fun i => (t i).set held.length (x i), ?_, ?_⟩
    · rw [hCopy]
      simp
    · rw [ht]
      exact hFills.set x
  · exact .inr hFails

theorem Fills.copy (hEnv : Succeeds env) (hFills : Fills a held) (x : Tuple k α) (t : Batch k α)
    (ht : t = a.tuple.getD fun _ => replicate a.elementsRequested.toNat default) :
    ∃ copies t', copyComponents env x ((t 0).length - a.elementsRequested).toNat
        (finRange (k + 1)) t q a = (true, t', a, { q with copies := copies }) ∧
      ∀ i, ∃ free, t' i = (held ++ [x]).map (· i) ++ free ∧
        (free.length : Int) = a.elementsRequested - 1 :=
  (hFills.copy_cases env x t ht).resolve_right fun hFails => hFails.1 hEnv

theorem dequeueManyLoop_ok (hEnv : Succeeds env) (turns : Nat) (result : RunResult)
    (hFills : Fills a held) (hStores : Stores q.queues content) (hTurns : turns ≤ content.length) :
    ∃ r, dequeueManyLoop env turns result q a = .ok r ∧ Moves q r.queue ∧
      Filled a held content turns result r := by
  induction turns generalizing q a held content result with
  | zero =>
    refine ⟨⟨result, a, q⟩, rfl, ⟨q.copies, q.queues, rfl⟩, ?_⟩
    refine .waits hFills.wants ?_ rfl ?_ hStores
    · simp
    · simpa using hFills
  | succ turns ih =>
    obtain ⟨x, rest, rfl⟩ : ∃ x rest, content = x :: rest :=
      exists_cons_of_length_pos (by omega)
    have hWants := hFills.wants
    obtain ⟨copies, t, hCopy, hBatch⟩ := hFills.copy
      (q := { q with queues := fun i => rest.map (· i) }) hEnv x _ rfl
    simp only [dequeueManyLoop, dequeueLocked_ok hStores, hCopy]
    split
    · rename_i hLast
      refine ⟨_, rfl, ⟨copies, fun i => rest.map (· i), rfl⟩, ?_⟩
      have hOne : a.elementsRequested = 1 := by omega
      refine .complete (by omega) t ⟨rfl, hFills.status, rfl⟩ rfl ?_ ?_
      · intro i
        obtain ⟨free, hFree, hLength⟩ := hBatch i
        have hNil : free = [] := by
          apply eq_nil_of_length_eq_zero
          omega
        rw [hFree, hNil, append_nil, hOne]
        rfl
      · rw [hOne]
        exact fun i => rfl
    · rename_i hMore
      have hNext : Fills { a with tuple := some t, elementsRequested := a.elementsRequested - 1 }
          (held ++ [x]) := by
        refine ⟨hFills.status, ?_, hBatch⟩
        change 0 < a.elementsRequested - 1
        omega
      obtain ⟨r, hLoop, ⟨copies', queues', hMoves⟩, hFilled⟩ := ih
        (q := { q with copies := copies, queues := fun i => rest.map fun x => x i }) .progress
        hNext (show Stores _ rest from fun i => rfl) (by simpa using hTurns)
      refine ⟨r, hLoop, ⟨copies', queues', hMoves⟩, ?_⟩
      cases hFilled with
      | complete enough t attempt completes batch rest' =>
        simp only at enough batch rest'
        have hTake : a.elementsRequested.toNat = (a.elementsRequested - 1).toNat + 1 := by omega
        refine .complete (by omega) t attempt completes ?_ ?_
        · rw [hTake]
          simpa using batch
        · rw [hTake]
          exact rest'
      | waits short attempt continues fills rest' =>
        simp only at short attempt
        refine .waits (by omega) ?_ ?_ ?_ rest'
        · rw [attempt]
          simp only [Attempt.mk.injEq, true_and, and_true]
          omega
        · rw [continues]
          simp
        · simpa using fills

/-- How a `DequeueMany` runs on a queue that stores `content`. -/
inductive Taken (q : QueueBase k α) (a : Attempt k α) (held content : List (Tuple k α))
    (allowSmallBatch : Bool) (r : Run k α) : Prop where
  | full (enough : a.elementsRequested ≤ content.length) (t : Batch k α)
      (attempt : r.attempt.id = a.id ∧ r.attempt.status = .ok ∧ r.attempt.done = .batch t)
      (completes : r.result = .complete)
      (batch : Stores t (held ++ content.take a.elementsRequested.toNat))
      (rest : Stores r.queue.queues (content.drop a.elementsRequested.toNat))
  | small (closed : q.closed) (allowed : allowSmallBatch)
      (short : (content.length : Int) < a.elementsRequested) (some : held ++ content ≠ [])
      (t : Batch k α)
      (attempt : r.attempt.id = a.id ∧ r.attempt.status = .ok ∧ r.attempt.done = .batch t)
      (completes : r.result = .complete) (batch : Stores t (held ++ content))
      (rest : Stores r.queue.queues [])
  | fails (closed : q.closed)
      (attempt : r.attempt = { a with
        status := insufficient q a.elementsRequested content.length })
      (completes : r.result = .complete) (rest : Stores r.queue.queues (held ++ content))
  | yields (closed : q.closed) (pending : q.enqueueAttempts ≠ [])
      (attempt : r.attempt = a) (continues : r.result = .progress)
      (rest : held = [] ∧ content = [] ∧ Stores r.queue.queues [])
  | waits (opened : q.closed = false) (short : (content.length : Int) < a.elementsRequested)
      (attempt : r.attempt = { a with
        tuple := r.attempt.tuple, elementsRequested := a.elementsRequested - content.length })
      (continues : r.result = if content = [] then .noProgress else .progress)
      (fills : Fills r.attempt (held ++ content)) (rest : Stores r.queue.queues [])

theorem slices_held {requested : Int}
    (h : ∀ i, ∃ free, t i = held.map (· i) ++ free ∧ (free.length : Int) = requested) :
    slices t ((t 0).length - requested).toNat = held := by
  have hCount : ((t 0).length - requested).toNat = held.length := by
    obtain ⟨free, hFree, hLength⟩ := h 0
    rw [hFree, length_append, length_map]
    omega
  rw [hCount]
  apply ext_getElem
  · simp [slices]
  · intro p _ hp
    simp only [slices]
    funext i
    obtain ⟨free, hFree, _⟩ := h i
    simp [elementAt, hFree, hp, getElem?_append]

theorem restoreBatch_copied (hFills : Fills a held) (hStores : Stores q.queues content)
    (hOk : turnsOk env.copySlice held.length q.copies) :
    ∃ q', restoreBatch env q a = (a, q') ∧ Moves q q' ∧ Stores q'.queues (held ++ content) := by
  have hTuple := hFills.tuple
  cases hEq : a.tuple with
  | none =>
    simp only [hEq] at hTuple
    rw [hTuple]
    exact ⟨q, by simp only [restoreBatch, hEq], ⟨q.copies, q.queues, rfl⟩, hStores⟩
  | some t =>
    simp only [hEq] at hTuple
    have hCount : ((t 0).length - a.elementsRequested).toNat = held.length := by
      obtain ⟨free, hFree, hLength⟩ := hTuple 0
      rw [hFree, length_append, length_map]
      omega
    obtain ⟨copies, hRestore⟩ := restore_copied (q := q) (a := a) t (hCount.symm ▸ hOk)
    rw [slices_held hTuple] at hRestore
    refine ⟨_, (by simp only [restoreBatch, hEq]; exact hRestore), ⟨copies, _, rfl⟩, ?_⟩
    intro i
    simp only [hStores i, map_append]

theorem restoreBatch_ok (hEnv : Succeeds env) (hFills : Fills a held)
    (hStores : Stores q.queues content) :
    ∃ q', restoreBatch env q a = (a, q') ∧ Moves q q' ∧ Stores q'.queues (held ++ content) :=
  restoreBatch_copied hFills hStores (turnsOk_of_ok (fun n i => (hEnv n i).1) _ _)

theorem runDequeueMany_ok (hEnv : Succeeds env) (allowSmallBatch : Bool)
    (hFills : Fills a held) (hStores : Stores q.queues content) :
    ∃ r, runDequeueMany env allowSmallBatch q a = .ok r ∧ Moves q r.queue ∧
      Taken q a held content allowSmallBatch r := by
  have hSize : q.size = content.length := hStores.length 0
  rw [runDequeueMany]
  split
  · rename_i hShort
    rw [Bool.and_eq_true, decide_eq_true_eq, hSize] at hShort
    obtain ⟨q', hRestored, ⟨copies, queues, hMoves⟩, hStores'⟩ :=
      restoreBatch_ok hEnv hFills hStores
    have hSize' : q'.size = (held ++ content).length := hStores'.length 0
    rcases hRun : runShort env allowSmallBatch q a with r | ⟨a', q''⟩
    · simp only [runShort, hRestored] at hRun
      split at hRun
      · cases hRun
      · rename_i hFew
        split at hRun
        · rename_i hYield
          cases hRun
          rw [Bool.and_eq_true, Bool.not_eq_true', isEmpty_eq_false_iff] at hYield
          rw [hYield.1, Bool.true_and, decide_eq_true_eq] at hFew
          have hNone : held ++ content = [] := by
            apply eq_nil_of_length_eq_zero
            omega
          obtain ⟨hHeld, hContent⟩ := append_eq_nil_iff.mp hNone
          rw [hNone] at hStores'
          refine ⟨_, rfl, ⟨copies, queues, hMoves⟩, ?_⟩
          refine .yields hShort.1 ?_ rfl rfl ⟨hHeld, hContent, hStores'⟩
          rw [hMoves] at hYield
          exact hYield.2
        · cases hRun
          refine ⟨_, rfl, ⟨copies, queues, hMoves⟩, ?_⟩
          refine .fails hShort.1 ?_ rfl hStores'
          rw [Attempt.setStatus, if_pos hFills.status, hMoves, hSize]
          rfl
    · simp only [runShort, hRestored] at hRun
      split at hRun
      · rename_i hAllow
        cases hRun
        rw [Bool.and_eq_true, decide_eq_true_eq] at hAllow
        have hFills' : Fills { a with tuple := none, elementsRequested := q'.size } [] := by
          refine ⟨hFills.status, ?_, rfl⟩
          change (0 : Int) < q'.size
          omega
        obtain ⟨r, hLoop, ⟨copies', queues', hMoves'⟩, hFilled⟩ :=
          dequeueManyLoop_ok hEnv q'.size .noProgress hFills' hStores' hSize'.le
        refine ⟨r, hLoop, ⟨copies', queues', by rw [hMoves', hMoves]⟩, ?_⟩
        cases hFilled with
        | complete enough t attempt completes batch rest =>
          simp only [Int.toNat_natCast, hSize', take_length, drop_length] at batch rest
          refine .small hShort.1 hAllow.1 hShort.2 ?_ t attempt completes batch rest
          apply ne_nil_of_length_pos
          omega
        | waits short attempt continues fills rest => exact absurd short (by simp)
      · split at hRun
        · cases hRun
        · cases hRun
  · rename_i hLong
    obtain ⟨r, hLoop, hMoves, hFilled⟩ :=
      dequeueManyLoop_ok hEnv q.size .noProgress hFills hStores hSize.le
    refine ⟨r, hLoop, hMoves, ?_⟩
    rw [hSize] at hFilled
    cases hFilled with
    | complete enough t attempt completes batch rest =>
      exact .full enough t attempt completes batch rest
    | waits short attempt continues fills rest =>
      refine .waits ?_ short attempt ?_ ?_ ?_
      · rw [Bool.and_eq_true, decide_eq_true_eq, not_and, hSize] at hLong
        rw [← Bool.not_eq_true]
        exact fun hClosed => hLong hClosed short
      · rw [continues]
        simp only [length_eq_zero_iff]
      · rw [take_length] at fills
        exact fills
      · rw [drop_length] at rest
        exact rest

/-- What the loop of an `EnqueueMany` has put into the queue. -/
structure Put (q : QueueBase k α) (a : Attempt k α) (t : Batch k α)
    (elements : List (Tuple k α)) (r : Run k α) : Prop where
  queue : ∃ copies, r.queue = { q with
    copies := copies
    queues := fun i => q.queues i ++ elements.map (· i)
    accepted := q.accepted ++ elements.map fun element => (a.id, element) }
  attempt : r.attempt = { a with elementsRequested := a.elementsRequested - elements.length }
  follows : ∀ p : Nat, (p : Int) = (t 0).length - a.elementsRequested →
    slices t (p + elements.length) = slices t p ++ elements
  wanted : elements ≠ [] → 0 < a.elementsRequested ∧ a.elementsRequested ≤ (t 0).length ∧
    elements.length ≤ a.elementsRequested

theorem enqueueManyLoop_ok (hEnv : Succeeds env) (t : Batch k α) (room : Nat) (result : RunResult)
    (ha : a.status = .ok) {r : Run k α} (h : enqueueManyLoop env t room result q a = .ok r) :
    ∃ elements, Put q a t elements r ∧
      (r.result = .complete ∧ elements ≠ [] ∧ a.elementsRequested = elements.length ∨
        r.result = (if room = 0 then result else .progress) ∧ elements.length = room) := by
  induction room generalizing q a result with
  | zero =>
    cases h
    refine ⟨[], ⟨⟨q.copies, by simp⟩, by simp, by simp, by simp⟩, .inr ⟨rfl, rfl⟩⟩
  | succ room ih =>
    simp only [enqueueManyLoop] at h
    split at h
    · cases h
    · rename_i hPush
      obtain ⟨_, copies, hEq⟩ := pushComponents_ok hEnv ha t _ _ (nodup_finRange _) hPush
      cases hEq
    · rename_i a' q' hPush
      obtain ⟨hRange, copies, hEq⟩ := pushComponents_ok hEnv ha t _ _ (nodup_finRange _) hPush
      obtain ⟨hLow, hHigh⟩ := hRange 0 (mem_finRange _)
      simp only [mem_finRange, Prod.mk.injEq, true_and] at hEq
      obtain ⟨rfl, rfl⟩ := hEq
      split at h
      · rename_i hLast
        cases h
        refine ⟨[elementAt t ((t 0).length - a'.elementsRequested).toNat], ⟨⟨copies, rfl⟩, rfl, ?_,
          ?_⟩, .inl ⟨rfl, by simp, ?_⟩⟩
        · intro p hp
          rw [← hp]
          exact slices_succ t p
        · intro _
          simp only [length_singleton]
          omega
        · simp only [length_singleton]
          omega
      · rename_i hMore
        obtain ⟨elements, hPut, hResult⟩ := ih .progress
          (a := { a' with elementsRequested := a'.elementsRequested - 1 }) ha h
        obtain ⟨⟨copies', hQueue⟩, hAttempt, hElements, hWanted⟩ := hPut
        simp only at hWanted hElements
        refine ⟨elementAt t ((t 0).length - a'.elementsRequested).toNat :: elements,
          ⟨⟨copies', ?_⟩, ?_, ?_, ?_⟩, ?_⟩
        · rw [hQueue]
          simp
        · rw [hAttempt]
          simp only [length_cons, Attempt.mk.injEq, true_and, and_true]
          omega
        · intro p hp
          have hNext := hElements (p + 1) (by omega)
          rw [slices_succ, append_assoc, Nat.add_assoc, Nat.add_comm 1] at hNext
          rw [← hp, length_cons, hNext]
          rfl
        · intro _
          by_cases hNone : elements = []
          · simp only [hNone, length_cons, length_nil]
            omega
          · have hBound := hWanted hNone
            simp only [length_cons]
            omega
        · rcases hResult with ⟨hComplete, _, hCount⟩ | ⟨hProgress, hCount⟩
          · refine .inl ⟨hComplete, cons_ne_nil _ _, ?_⟩
            simp only at hCount
            simp only [length_cons]
            omega
          · refine .inr ⟨?_, by rw [length_cons, hCount]⟩
            rw [hProgress]
            simp

theorem runDequeue_ok (ha : a.status = .ok) (hStores : Stores q.queues content) :
    ∃ r, runDequeue q a = .ok r ∧ Moves q r.queue ∧
      (r.result = .complete ∧ (∃ x rest, content = x :: rest ∧ Stores r.queue.queues rest ∧
          r.attempt = { a with done := .element x }) ∨
        r.result = .complete ∧ content = [] ∧ q.closed ∧ r.queue = q ∧
          r.attempt = { a with status := insufficient q 1 0 } ∨
        r.result = .noProgress ∧ content = [] ∧ q.closed = false ∧ r.queue = q ∧
          r.attempt = a) := by
  have hSize : q.size = content.length := hStores.length 0
  rw [runDequeue]
  cases content with
  | nil =>
    have hZero : q.size = 0 := hSize
    rw [hZero, decide_eq_true rfl, Bool.and_true]
    split
    · rename_i hClosed
      refine ⟨_, rfl, ⟨q.copies, q.queues, rfl⟩, .inr (.inl ⟨rfl, rfl, hClosed, rfl, ?_⟩)⟩
      rw [Attempt.setStatus, if_pos ha]
    · rename_i hOpen
      rw [Bool.not_eq_true] at hOpen
      exact ⟨_, rfl, ⟨q.copies, q.queues, rfl⟩, .inr (.inr ⟨rfl, rfl, hOpen, rfl, rfl⟩)⟩
  | cons x rest =>
    have hPos : 0 < q.size := by
      rw [hSize]
      exact Nat.succ_pos _
    rw [if_neg (by simp only [Bool.and_eq_true, decide_eq_true_eq]; omega), if_pos hPos,
      dequeueLocked_ok hStores]
    exact ⟨_, rfl, ⟨q.copies, _, rfl⟩, .inl ⟨rfl, x, rest, rfl, fun i => rfl, rfl⟩⟩

end Elements

end TensorFlowOnSpark.Kernels.FifoQueue
