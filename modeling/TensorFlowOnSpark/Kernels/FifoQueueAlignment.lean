import Mathlib.Data.Fin.VecNotation
import TensorFlowOnSpark.Kernels.QueueBaseVisits
import TensorFlowOnSpark.Kernels.QueueCancellation

/-!
# Components that stay together when copies fail

An element is pushed, restored and taken component by component, and each copy can fail.
-/

namespace TensorFlowOnSpark.Kernels.FifoQueue

open Framework Transition QueueBase List

universe u

variable {k : Nat} {α : Type u} [Inhabited α]

def enqueued : Call k α → List (Tuple k α)
  | .tryEnqueue x => [x]
  | .tryEnqueueMany t => slices t (t 0).length
  | _ => []

def Enqueued (calls : List (Call k α)) (x : Tuple k α) : Prop := ∃ call ∈ calls, x ∈ enqueued call

def Aligned (q : QueueBase k α) : Prop :=
  ∃ content, Stores q.queues content ∧ ∀ x ∈ content, Enqueued q.calls x

/-- The copies of an `EnqueueMany` from the `n`-th on: one that fails is of a first component. -/
def pushesWhole (env : Env k) : Nat → Int → Nat → Bool
  | 0, _, _ => true
  | room + 1, elementsRequested, n =>
    decide (env.copySlice n 0 ≠ .ok) ||
      copiesOk env.copySlice n (finRange (k + 1)) &&
        (decide (elementsRequested - 1 = 0) ||
          pushesWhole env room (elementsRequested - 1) (n + (k + 1)))

/-- The copies of the elements that a `DequeueMany` puts back succeed. With a small batch the
first element can fail, which is taken out again. -/
def restoresWhole (env : Env k) (q : QueueBase k α) (a : Attempt k α) (allowSmallBatch : Bool) :
    Bool :=
  match a.tuple with
  | none => true
  | some t =>
    let count := ((t 0).length - a.elementsRequested).toNat
    turnsOk env.copySlice (if allowSmallBatch then count - 1 else count) q.copies

def whole (env : Env k) (q : QueueBase k α) (a : Attempt k α) : Bool :=
  match a.operation with
  | .enqueueMany _ => q.closed || pushesWhole env (q.capacity - q.size) a.elementsRequested q.copies
  | .dequeueMany allowSmallBatch =>
    !(q.closed && (q.size : Int) < a.elementsRequested) || restoresWhole env q a allowSmallBatch
  | _ => true

variable {env : Env k} {q q' : QueueBase k α} {a : Attempt k α} {r : Run k α}
  {held content : List (Tuple k α)}

section Copies

omit [Inhabited α] in
theorem setStatus_status_ok {status : Status} (h : (a.setStatus status).status = .ok) :
    a.status = .ok ∧ status = .ok := by
  rw [Attempt.setStatus] at h
  split at h
  · next ha => exact ⟨ha, h⟩
  · next ha => exact absurd h ha

omit [Inhabited α] in
theorem pushComponents_refused (t : Batch k α) (index : Int)
    (hNot : (a.setStatus (env.copySlice q.copies 0)).status ≠ .ok) :
    pushComponents env t index (List.finRange (k + 1)) q a =
      .ok (false, a.setStatus (env.copySlice q.copies 0), { q with copies := q.copies + 1 }) := by
  rw [finRange_succ, pushComponents, if_pos hNot]

omit [Inhabited α] in
theorem copyComponents_refused (env : Env k) (element : Tuple k α) (index : Nat) (t : Batch k α)
    (hNot : a.status ≠ .ok) :
    ∃ a', copyComponents env element index (List.finRange (k + 1)) t q a =
      (false, t, a', { q with copies := q.copies + 1 }) := by
  have hFails : (a.setStatus (env.copyElement q.copies 0)).status ≠ .ok :=
    fun h => hNot (setStatus_status_ok h).1
  rw [finRange_succ, copyComponents]
  simp only [if_pos hFails]
  exact ⟨_, rfl⟩

theorem restoreComponents_cases (env : Env k) (t : Batch k α) (index : Nat)
    {components : List (Fin (k + 1))} (hNodup : components.Nodup) :
    ∃ (values : Tuple k α) (a' : Attempt k α) (copies : Nat),
      restoreComponents env t index components q a = (a', { q with
        copies := copies
        queues := fun i => if i ∈ components then values i :: q.queues i else q.queues i }) ∧
      (a'.status = .ok → a' = a ∧ copiesOk env.copySlice q.copies components) := by
  induction components generalizing q a with
  | nil => exact ⟨fun _ => default, a, q.copies, by simp [restoreComponents], fun _ => ⟨rfl, rfl⟩⟩
  | cons i rest ih =>
    obtain ⟨hNew, hRest⟩ := nodup_cons.mp hNodup
    obtain ⟨values, a', copies, hEq, hStatus⟩ := ih hRest
      (q := { q with
        copies := q.copies + 1
        queues := Function.update q.queues i
          ((if env.copySlice q.copies i = .ok then (t i).getD index default else default) ::
            q.queues i) })
      (a := if env.copySlice q.copies i = .ok then a
        else a.setStatus (.error .dataLoss ("Failed to restore element from partially-dequeued " ++
          "batch to FIFOQueue: " ++ (env.copySlice q.copies i).errorMessage)))
    refine ⟨Function.update values i
      (if env.copySlice q.copies i = .ok then (t i).getD index default else default), a', copies,
      hEq.trans ?_, fun hOk => ?_⟩
    · simp only [Prod.mk.injEq, true_and]
      congr 1
      funext j
      by_cases hj : j = i
      · subst hj
        simp [hNew]
      · simp [hj]
    · obtain ⟨hSame, hOthers⟩ := hStatus hOk
      split at hSame
      · next hFirst => exact ⟨hSame, copiesOk_cons.mpr ⟨hFirst, hOthers⟩⟩
      · rw [hSame] at hOk
        cases (setStatus_status_ok hOk).2

theorem restore_succ_copied (t : Batch k α) {count : Nat}
    (hOk : turnsOk env.copySlice count q.copies) :
    ∃ copies, restore env t (count + 1) q a =
      restoreComponents env t 0 (finRange (k + 1)) { q with
        copies := copies
        queues := fun i => (slices t (count + 1)).tail.map (· i) ++ q.queues i } a := by
  induction count generalizing q with
  | zero =>
    refine ⟨q.copies, ?_⟩
    rfl
  | succ count ih =>
    rw [turnsOk, Bool.and_eq_true] at hOk
    have hComponents := restoreComponents_copied (a := a) hOk.1 t (count + 1) (nodup_finRange _)
    rw [restore]
    simp only [hComponents, mem_finRange]
    rw [length_finRange]
    obtain ⟨copies, hEq⟩ := ih (q := { q with
      copies := q.copies + (k + 1), queues := fun i => elementAt t (count + 1) i :: q.queues i })
        hOk.2
    refine ⟨copies, hEq.trans ?_⟩
    have hTail : (slices t (count + 1 + 1)).tail =
        (slices t (count + 1)).tail ++ [elementAt t (count + 1)] := by
      rw [slices_succ t (count + 1), tail_append_of_ne_nil]
      rw [slices_succ]
      exact append_ne_nil_of_right_ne_nil _ (cons_ne_nil _ _)
    rw [hTail]
    simp

end Copies

variable {x : Tuple k α}

section Runs

theorem Aligned.push (h : Aligned q) (hx : Enqueued q.calls x) (hCalls : q'.calls = q.calls)
    (hQueues : ∀ i, q'.queues i = q.queues i ++ [x i]) :
    Aligned q' := by
  obtain ⟨content, hStores, hContent⟩ := h
  refine ⟨content ++ [x], ?_, ?_⟩
  · intro i
    rw [hQueues, hStores i, map_append]
    rfl
  · rw [hCalls]
    simp only [forall_mem_append, forall_mem_singleton]
    exact ⟨hContent, hx⟩

theorem Aligned.congr (h : Aligned q) (hCalls : q'.calls = q.calls)
    (hQueues : q'.queues = q.queues) :
    Aligned q' := by
  rw [Aligned, hCalls, hQueues]
  exact h

variable {t : Batch k α}

theorem mem_slices {index count : Nat} (h : index < count) :
    elementAt t index ∈ slices t count :=
  mem_map_of_mem (mem_range.mpr h)

theorem runEnqueue_aligned (h : Aligned q) {tuple : Tuple k α}
    (hCall : .tryEnqueue tuple ∈ q.calls) :
    Aligned (runEnqueue tuple q a).queue := by
  rw [runEnqueue]
  split
  · exact h
  · split
    · exact h.push ⟨_, hCall, mem_singleton_self tuple⟩ rfl fun _ => rfl
    · exact h

theorem enqueueManyLoop_aligned {room : Nat} {result : RunResult} (h : Aligned q)
    (hCall : .tryEnqueueMany t ∈ q.calls)
    (hWhole : pushesWhole env room a.elementsRequested q.copies)
    (hRun : enqueueManyLoop env t room result q a = .ok r) : Aligned r.queue := by
  induction room generalizing q a result with
  | zero =>
    cases hRun
    exact h
  | succ room ih =>
    rw [enqueueManyLoop] at hRun
    by_cases hStatus : (a.setStatus (env.copySlice q.copies 0)).status = .ok
    · obtain ⟨ha, hFirst⟩ := setStatus_status_ok hStatus
      rw [pushesWhole, hFirst] at hWhole
      simp only [ne_eq, not_true_eq_false, decide_false, Bool.false_or, Bool.and_eq_true,
        Bool.or_eq_true, decide_eq_true_eq] at hWhole
      obtain ⟨hCopies, hRest⟩ := hWhole
      rcases hPush : pushComponents env t ((t 0).length - a.elementsRequested)
          (finRange (k + 1)) q a with fault | pushed
      · rw [hPush] at hRun
        exact (by cases hRun)
      · obtain ⟨hRange, rfl⟩ := pushComponents_copied hCopies ha t _ (nodup_finRange _) hPush
        obtain ⟨hLow, hHigh⟩ := hRange 0 (mem_finRange _)
        simp only [hPush, mem_finRange, length_finRange] at hRun
        have hElement : Enqueued q.calls
            (elementAt t ((t 0).length - a.elementsRequested).toNat) :=
          ⟨_, hCall, mem_slices (by omega)⟩
        split at hRun
        · cases hRun
          exact h.push hElement rfl fun _ => rfl
        · next hMore =>
          refine ih ?_ ?_ (hRest.resolve_left hMore) hRun
          · exact h.push hElement rfl fun _ => rfl
          · exact hCall
    · rw [pushComponents_refused t _ hStatus] at hRun
      cases hRun
      exact h.congr rfl rfl

theorem runEnqueueMany_aligned (h : Aligned q) (hCall : .tryEnqueueMany t ∈ q.calls)
    (hOperation : a.operation = .enqueueMany t) (hWhole : whole env q a)
    (hRun : runEnqueueMany env t q a = .ok r) : Aligned r.queue := by
  rw [whole, hOperation] at hWhole
  rw [runEnqueueMany] at hRun
  split at hRun
  · cases hRun
    exact h
  · next hOpen =>
    simp only [hOpen] at hWhole
    exact enqueueManyLoop_aligned h hCall hWhole hRun

/-- A `DequeueMany` that stays holds elements of the given list. -/
structure Holds (elements : List (Tuple k α)) (a b : Attempt k α) : Prop where
  fills : ∃ held, Fills b held ∧ held ⊆ elements
  operation : b.operation = a.operation
  isCancelled : b.isCancelled = a.isCancelled

theorem dequeueManyLoop_cases (env : Env k) (turns : Nat) (result : RunResult)
    (hFills : Fills a held) (hStores : Stores q.queues content) (hTurns : turns ≤ content.length) :
    ∃ r, dequeueManyLoop env turns result q a = .ok r ∧ Moves q r.queue ∧
      (∃ n, Stores r.queue.queues (content.drop n)) ∧
      (r.result ≠ .complete → Holds (held ++ content) a r.attempt) := by
  induction turns generalizing q a held content result with
  | zero =>
    refine ⟨⟨result, a, q⟩, rfl, ⟨q.copies, q.queues, rfl⟩, ⟨0, hStores⟩, fun _ => ?_⟩
    exact ⟨⟨held, hFills, subset_append_left _ _⟩, rfl, rfl⟩
  | succ turns ih =>
    obtain ⟨x, rest, rfl⟩ : ∃ x rest, content = x :: rest :=
      exists_cons_of_length_pos (by omega)
    rw [dequeueManyLoop]
    simp only [dequeueLocked_ok hStores]
    rcases hFills.copy_cases (q := { q with queues := fun i => rest.map (· i) }) env x _ rfl with
      ⟨copies, t, hCopy, hBatch⟩ | ⟨-, t, a', copies, hCopy⟩
    · simp only [hCopy]
      split
      · exact ⟨_, rfl, ⟨copies, _, rfl⟩, ⟨1, fun i => rfl⟩, fun h => absurd rfl h⟩
      · next hMore =>
        have hWants := hFills.wants
        have hNext : Fills { a with tuple := some t, elementsRequested := a.elementsRequested - 1 }
            (held ++ [x]) := by
          refine ⟨hFills.status, ?_, hBatch⟩
          change 0 < a.elementsRequested - 1
          omega
        obtain ⟨r, hLoop, ⟨copies', queues', hMoves⟩, ⟨n, hRest⟩, hStays⟩ := ih
          (q := { q with copies := copies, queues := fun i => rest.map fun x => x i }) .progress
          hNext (show Stores _ rest from fun i => rfl) (by simpa using hTurns)
        refine ⟨r, hLoop, ⟨copies', queues', hMoves⟩, ⟨n + 1, hRest⟩, fun hNot => ?_⟩
        obtain ⟨⟨held', hFills', hSub⟩, hOperation, hCancelled⟩ := hStays hNot
        refine ⟨⟨held', hFills', fun y hy => ?_⟩, hOperation, hCancelled⟩
        simpa only [append_assoc, singleton_append] using hSub hy
    · simp only [hCopy]
      exact ⟨_, rfl, ⟨copies, _, rfl⟩, ⟨1, fun i => rfl⟩, fun h => absurd rfl h⟩

omit [Inhabited α] in
theorem Fills.count (h : Fills a held) {t : Batch k α} (ht : a.tuple = some t) :
    ((t 0).length - a.elementsRequested).toNat = held.length := by
  have hTuple := h.tuple
  rw [ht] at hTuple
  obtain ⟨free, hFree, hLength⟩ := hTuple 0
  rw [hFree, length_append, length_map]
  omega

/-- The first element is put back with all its components, or the attempt fails. -/
theorem restoreBatch_first (hFills : Fills a (x :: held)) (hStores : Stores q.queues content)
    (hOk : turnsOk env.copySlice held.length q.copies) :
    ∃ a' q', restoreBatch env q a = (a', q') ∧ Moves q q' ∧
      (a' = a ∧ Stores q'.queues (x :: held ++ content) ∨
        a'.status ≠ .ok ∧ ∃ y, Stores q'.queues (y :: held ++ content)) := by
  have hTuple := hFills.tuple
  cases ht : a.tuple with
  | none =>
    rw [ht] at hTuple
    exact nomatch hTuple
  | some t =>
    have hCount := hFills.count ht
    rw [ht] at hTuple
    have hHeld : slices t (held.length + 1) = x :: held := by
      rw [← length_cons (a := x), ← hCount]
      exact slices_held hTuple
    obtain ⟨copies, hRestore⟩ := restore_succ_copied (q := q) (a := a) t hOk
    rw [hHeld] at hRestore
    obtain ⟨values, a', copies', hLast, hStatus⟩ := restoreComponents_cases (a := a) (q := { q with
      copies := copies, queues := fun i => held.map (fun x => x i) ++ q.queues i }) env t 0
      (nodup_finRange (k + 1))
    simp only [mem_finRange, if_true] at hLast
    refine ⟨a', { q with
      copies := copies', queues := fun i => values i :: (held.map (fun x => x i) ++ q.queues i) },
      ?_, ⟨copies', _, rfl⟩, ?_⟩
    · simp only [restoreBatch, ht, hCount]
      exact hRestore.trans hLast
    · by_cases hOk' : a'.status = .ok
      · obtain ⟨rfl, hCopies⟩ := hStatus hOk'
        refine .inl ⟨rfl, ?_⟩
        have hWhole := restoreComponents_copied (a := a') (q := { q with
          copies := copies, queues := fun i => held.map (fun x => x i) ++ q.queues i }) hCopies t 0
          (nodup_finRange (k + 1))
        have hQueues := congrArg (fun p => p.2.queues) (hLast.symm.trans hWhole)
        have hFirst : elementAt t 0 = x := by
          have hHead := congrArg (fun l => l[0]?) hHeld
          simpa [slices] using hHead
        intro i
        have hQueue := congrFun hQueues i
        simp only [hFirst] at hQueue ⊢
        rw [hQueue, hStores i]
        simp
      · refine .inr ⟨hOk', values, fun i => ?_⟩
        simp only
        rw [hStores i]
        simp

variable {allowSmallBatch : Bool}

theorem restoreBatch_cases (hFills : Fills a held) (hStores : Stores q.queues content)
    (hWhole : restoresWhole env q a allowSmallBatch) :
    ∃ a' q', restoreBatch env q a = (a', q') ∧ Moves q q' ∧
      (a' = a ∧ Stores q'.queues (held ++ content) ∨
        allowSmallBatch ∧ a'.status ≠ .ok ∧
          ∃ y rest, Stores q'.queues (y :: rest) ∧ rest ⊆ held ++ content) := by
  have hTuple := hFills.tuple
  have hOk : turnsOk env.copySlice (if allowSmallBatch then held.length - 1 else held.length)
      q.copies := by
    cases ht : a.tuple with
    | none =>
      rw [ht] at hTuple
      rw [show held = [] from hTuple, length_nil, ite_self]
      rfl
    | some t =>
      rw [restoresWhole, ht] at hWhole
      simpa only [hFills.count ht] using hWhole
  cases allowSmallBatch with
  | false =>
    obtain ⟨q', hRestore, hMoves, hStores'⟩ := restoreBatch_copied hFills hStores hOk
    exact ⟨a, q', hRestore, hMoves, .inl ⟨rfl, hStores'⟩⟩
  | true =>
    cases held with
    | nil =>
      obtain ⟨q', hRestore, hMoves, hStores'⟩ := restoreBatch_copied hFills hStores hOk
      exact ⟨a, q', hRestore, hMoves, .inl ⟨rfl, hStores'⟩⟩
    | cons x held =>
      obtain ⟨a', q', hRestore, hMoves, hSame | ⟨hStatus, y, hStores'⟩⟩ :=
        restoreBatch_first hFills hStores hOk
      · exact ⟨a', q', hRestore, hMoves, .inl hSame⟩
      · refine ⟨a', q', hRestore, hMoves, .inr ⟨rfl, hStatus, y, held ++ content, hStores', ?_⟩⟩
        exact subset_cons_self x (held ++ content)

/-- A `DequeueMany` leaves whole elements in the queue, and holds whole elements if it stays. -/
theorem runDequeueMany_cases (hFills : Fills a held) (hStores : Stores q.queues content)
    (hOperation : a.operation = .dequeueMany allowSmallBatch) (hWhole : whole env q a) :
    ∃ r, runDequeueMany env allowSmallBatch q a = .ok r ∧ Moves q r.queue ∧
      (∃ content', Stores r.queue.queues content' ∧ content' ⊆ held ++ content) ∧
      (r.result ≠ .complete → Holds (held ++ content) a r.attempt) := by
  have hSize : q.size = content.length := hStores.length 0
  rw [whole, hOperation] at hWhole
  rw [runDequeueMany]
  split
  · next hShort =>
    rw [hShort] at hWhole
    obtain ⟨a', q', hRestore, ⟨copies, queues, hMoves⟩, hCases⟩ :=
      restoreBatch_cases hFills hStores (by simpa using hWhole)
    rw [runShort, hRestore]
    rcases hCases with ⟨rfl, hStores'⟩ | ⟨rfl, hStatus, y, rest, hStores', hSub⟩
    · have hSize' : q'.size = (held ++ content).length := hStores'.length 0
      by_cases hAllow : (allowSmallBatch && decide (0 < q'.size))
      · simp only [if_pos hAllow]
        rw [Bool.and_eq_true, decide_eq_true_eq] at hAllow
        have hFills' : Fills { a' with tuple := none, elementsRequested := q'.size } [] := by
          refine ⟨hFills.status, ?_, rfl⟩
          change (0 : Int) < q'.size
          omega
        obtain ⟨r, hLoop, ⟨copies', queues', hMoves'⟩, ⟨n, hRest⟩, hStays⟩ :=
          dequeueManyLoop_cases env q'.size .noProgress hFills' hStores' hSize'.le
        refine ⟨r, hLoop, ⟨copies', queues', by rw [hMoves', hMoves]⟩,
          ⟨_, hRest, drop_subset _ _⟩, fun hNot => ?_⟩
        obtain ⟨⟨held', hHeld, hSub⟩, hSame, hCancelled⟩ := hStays hNot
        exact ⟨⟨held', hHeld, hSub⟩, hSame, hCancelled⟩
      · simp only [if_neg hAllow]
        by_cases hYield : (allowSmallBatch && !q'.enqueueAttempts.isEmpty)
        · simp only [if_pos hYield]
          exact ⟨_, rfl, ⟨copies, queues, hMoves⟩, ⟨_, hStores', Subset.refl _⟩,
            fun _ => ⟨⟨held, hFills, subset_append_left _ _⟩, rfl, rfl⟩⟩
        · simp only [if_neg hYield]
          exact ⟨_, rfl, ⟨copies, queues, hMoves⟩, ⟨_, hStores', Subset.refl _⟩,
            fun hNot => absurd rfl hNot⟩
    -- the element at the front, which is not whole, is taken out, and the attempt has failed
    · have hSize' : q'.size = rest.length + 1 := hStores'.length 0
      have hPos : (true && decide (0 < q'.size)) := by
        rw [hSize']
        simp
      simp only [if_pos hPos]
      rw [hSize', dequeueManyLoop]
      simp only [dequeueLocked_ok hStores']
      obtain ⟨a'', hCopy⟩ := copyComponents_refused env
        (a := { a' with tuple := none, elementsRequested := ((rest.length + 1 : Nat) : Int) })
        (q := { q' with queues := fun i => rest.map fun x => x i }) y _
        (Option.getD none fun _ => replicate ((rest.length + 1 : Nat) : Int).toNat default) hStatus
      rw [hCopy]
      refine ⟨_, rfl, ⟨q'.copies + 1, fun i => rest.map fun x => x i, ?_⟩,
        ⟨rest, fun i => rfl, hSub⟩,
        fun hNot => absurd rfl hNot⟩
      rw [hMoves]
  · obtain ⟨r, hLoop, hMoves, ⟨n, hRest⟩, hStays⟩ :=
      dequeueManyLoop_cases env q.size .noProgress hFills hStores hSize.le
    refine ⟨r, hLoop, hMoves, ⟨_, hRest, ?_⟩, hStays⟩
    exact fun x hx => mem_append_right _ (drop_subset _ _ hx)

end Runs

def Brings (calls : List (Call k α)) : Operation k α → Prop
  | .enqueue x => .tryEnqueue x ∈ calls
  | .enqueueMany t => .tryEnqueueMany t ∈ calls
  | .close => True
  | _ => False

structure Takes (calls : List (Call k α)) (a : Attempt k α) : Prop where
  isDequeue : a.operation.isDequeue
  held : ∃ held, Fills a held ∧ ∀ x ∈ held, Enqueued calls x

structure InStep (es ds : List (Attempt k α)) (q : QueueBase k α) : Prop where
  aligned : Aligned q
  enqueues : ∀ a ∈ es, Brings q.calls a.operation
  dequeues : ∀ a ∈ ds, a.isCancelled = false → Takes q.calls a

variable {es ds : List (Attempt k α)}

theorem InStep.enqueue (h : InStep (a :: es) ds q) (hRun : runCallback env q a = .ok r)
    (hWhole : whole env q a) : Leaves (InStep · ds ·) es r ∧
      r.queue.dequeueAttempts = q.dequeueAttempts ∧ Aligned r.queue := by
  have hBrings := h.enqueues a mem_cons_self
  have hEnqueues : a.operation.isDequeue = false := by
    cases hOperation : a.operation with
    | enqueue tuple => rfl
    | enqueueMany tuple => rfl
    | close => rfl
    | dequeue =>
      rw [hOperation] at hBrings
      exact hBrings.elim
    | dequeueMany allowSmallBatch =>
      rw [hOperation] at hBrings
      exact hBrings.elim
  have hFrame := ((QueueCancellation.behavesWell .fifo env).enqueue q a r hEnqueues hRun).frame
  have hAligned : Aligned r.queue := by
    rw [runCallback] at hRun
    split at hRun
    · next tuple hOperation =>
      rw [hOperation] at hBrings
      cases hRun
      exact runEnqueue_aligned h.aligned hBrings
    · next t hOperation =>
      rw [hOperation] at hBrings
      exact runEnqueueMany_aligned h.aligned hBrings hOperation hWhole hRun
    · cases hRun
      rw [runClose]
      split
      · exact h.aligned
      · exact h.aligned.congr rfl rfl
    · next hOperation =>
      rw [hOperation] at hEnqueues
      exact (by cases hEnqueues)
    · next hOperation =>
      rw [hOperation] at hEnqueues
      exact (by cases hEnqueues)
  refine ⟨⟨fun _ => ⟨hAligned.congr rfl rfl, ?_, ?_⟩, fun _ => ⟨hAligned, ?_, ?_⟩⟩,
    hFrame.dequeueAttempts, hAligned⟩
  · rw [finish, hFrame.calls]
    exact fun b hb => h.enqueues b (mem_cons_of_mem _ hb)
  · rw [finish, hFrame.calls]
    exact h.dequeues
  · rw [hFrame.calls]
    simp only [forall_mem_cons, hFrame.operation]
    exact ⟨hBrings, fun b hb => h.enqueues b (mem_cons_of_mem _ hb)⟩
  · rw [hFrame.calls]
    exact h.dequeues

theorem runDequeue_cases (hFills : Fills a held) (hStores : Stores q.queues content) :
    ∃ r, runDequeue q a = .ok r ∧ Moves q r.queue ∧
      (∃ content', Stores r.queue.queues content' ∧ content' ⊆ held ++ content) ∧
      (r.result ≠ .complete → Holds (held ++ content) a r.attempt) := by
  obtain ⟨r, hRun, hMoves, hCases⟩ := runDequeue_ok hFills.status hStores
  refine ⟨r, hRun, hMoves, ?_⟩
  rcases hCases with ⟨hComplete, x, rest, rfl, hRest, -⟩ | ⟨hComplete, -, -, hQueue, -⟩ |
    ⟨-, -, -, hQueue, hAttempt⟩
  · refine ⟨⟨rest, hRest, fun y hy => ?_⟩, fun hNot => absurd hComplete hNot⟩
    exact mem_append_right _ (mem_cons_of_mem _ hy)
  · refine ⟨⟨content, ?_, subset_append_right _ _⟩, fun hNot => absurd hComplete hNot⟩
    rw [hQueue]
    exact hStores
  · refine ⟨⟨content, ?_, subset_append_right _ _⟩, fun _ => ?_⟩
    · rw [hQueue]
      exact hStores
    · rw [hAttempt]
      exact ⟨⟨held, hFills, subset_append_left _ _⟩, rfl, rfl⟩

theorem InStep.dequeue (h : InStep es (a :: ds) q) (hActive : a.isCancelled = false)
    (hRun : runCallback env q a = .ok r) (hWhole : whole env q a) :
    Leaves (InStep es · ·) ds r ∧ r.queue.enqueueAttempts = q.enqueueAttempts ∧
      Aligned r.queue := by
  obtain ⟨hDequeue, held, hFills, hHeld⟩ := h.dequeues a mem_cons_self hActive
  obtain ⟨content, hStores, hContent⟩ := h.aligned
  have hAll : ∀ x ∈ held ++ content, Enqueued q.calls x := by
    simp only [forall_mem_append]
    exact ⟨hHeld, hContent⟩
  have hCases : Moves q r.queue ∧
      (∃ content', Stores r.queue.queues content' ∧ content' ⊆ held ++ content) ∧
      (r.result ≠ .complete → Holds (held ++ content) a r.attempt) := by
    rw [runCallback] at hRun
    split at hRun
    · next hOperation =>
      rw [hOperation] at hDequeue
      exact (by cases hDequeue)
    · next hOperation =>
      rw [hOperation] at hDequeue
      exact (by cases hDequeue)
    · next hOperation =>
      rw [hOperation] at hDequeue
      exact (by cases hDequeue)
    · obtain ⟨r', hRun', hCases⟩ := runDequeue_cases hFills hStores
      cases hRun.symm.trans hRun'
      exact hCases
    · next allowSmallBatch hOperation =>
      obtain ⟨r', hRun', hCases⟩ := runDequeueMany_cases hFills hStores hOperation hWhole
      cases hRun.symm.trans hRun'
      exact hCases
  obtain ⟨⟨copies, queues, hQueue⟩, ⟨content', hStores', hSub⟩, hStays⟩ := hCases
  have hCalls : r.queue.calls = q.calls := by rw [hQueue]
  have hAligned : Aligned r.queue := by
    refine ⟨content', hStores', fun x hx => ?_⟩
    rw [hCalls]
    exact hAll x (hSub hx)
  refine ⟨⟨fun _ => ⟨hAligned.congr rfl rfl, ?_, ?_⟩, fun hNot => ⟨hAligned, ?_, ?_⟩⟩, ?_, hAligned⟩
  · rw [finish, hCalls]
    exact h.enqueues
  · rw [finish, hCalls]
    exact fun b hb => h.dequeues b (mem_cons_of_mem _ hb)
  · rw [hCalls]
    exact h.enqueues
  · rw [hCalls]
    obtain ⟨⟨held', hFills', hSub'⟩, hOperation, -⟩ := hStays hNot
    simp only [forall_mem_cons]
    refine ⟨fun _ => ⟨?_, held', hFills', fun x hx => hAll x (hSub' hx)⟩, fun b hb =>
      h.dequeues b (mem_cons_of_mem _ hb)⟩
    rw [hOperation]
    exact hDequeue
  · rw [hQueue]

theorem inStep_follows (env : Env k) :
    Follows (guarded (runCallback (α := α) env) (whole env))
      (fun _ _ r => Aligned r.queue) InStep where
  deques _ _ _ _ _ h := ⟨h.aligned.congr rfl rfl, h.enqueues, h.dequeues⟩
  skipEnqueue _ _ _ _ _ h :=
    ⟨h.aligned, fun b hb => h.enqueues b (mem_cons_of_mem _ hb), h.dequeues⟩
  skipDequeue _ _ _ _ _ h :=
    ⟨h.aligned, h.enqueues, fun b hb => h.dequeues b (mem_cons_of_mem _ hb)⟩
  enqueue _ _ _ _ _ h _ hRun := by
    obtain ⟨hRun', hWhole⟩ := guarded_ok hRun
    exact h.enqueue hRun' hWhole
  dequeue _ _ _ _ _ h hActive hRun := by
    obtain ⟨hRun', hWhole⟩ := guarded_ok hRun
    exact h.dequeue hActive hRun' hWhole

theorem Enqueued.append {calls : List (Call k α)} (h : Enqueued calls x) (call : Call k α)
    : Enqueued (calls ++ [call]) x := by
  obtain ⟨c, hc, hx⟩ := h
  exact ⟨c, mem_append_left _ hc, hx⟩

omit [Inhabited α] in
theorem Brings.append {calls : List (Call k α)} {operation : Operation k α}
    (h : Brings calls operation) (call : Call k α) : Brings (calls ++ [call]) operation := by
  cases operation with
  | enqueue tuple => exact mem_append_left _ h
  | enqueueMany tuple => exact mem_append_left _ h
  | close => trivial
  | dequeue => exact h
  | dequeueMany allowSmallBatch => exact h

theorem Takes.append {calls : List (Call k α)} (h : Takes calls a) (call : Call k α) :
    Takes (calls ++ [call]) a := by
  obtain ⟨hDequeue, held, hFills, hHeld⟩ := h
  exact ⟨hDequeue, held, hFills, fun x hx => (hHeld x hx).append call⟩

namespace InStep

section

variable (h : InStep es ds q)

include h

theorem calls (call : Call k α) :
    InStep es ds { q with calls := q.calls ++ [call] } where
  aligned := by
    obtain ⟨content, hStores, hContent⟩ := h.aligned
    exact ⟨content, hStores, fun x hx => (hContent x hx).append call⟩
  enqueues b hb := (h.enqueues b hb).append call
  dequeues b hb hActive := (h.dequeues b hb hActive).append call

theorem complete (completed : List (Completed k α)) :
    InStep es ds { q with completed := completed } :=
  ⟨h.aligned.congr rfl rfl, h.enqueues, h.dequeues⟩

theorem pushEnqueue (hBrings : Brings q.calls a.operation) :
    InStep (es ++ [a]) ds q := by
  refine ⟨h.aligned, ?_, h.dequeues⟩
  simp only [forall_mem_append, forall_mem_singleton]
  exact ⟨h.enqueues, hBrings⟩

theorem pushDequeue (hTakes : Takes q.calls a) : InStep es (ds ++ [a]) q := by
  refine ⟨h.aligned, h.enqueues, ?_⟩
  simp only [forall_mem_append, forall_mem_singleton]
  exact ⟨h.dequeues, fun _ => hTakes⟩

theorem setAttempts (es' ds' : List (Attempt k α)) :
    InStep es ds { q with enqueueAttempts := es', dequeueAttempts := ds' } :=
  ⟨h.aligned.congr rfl rfl, h.enqueues, h.dequeues⟩

end

theorem closeAndCancel (h : InStep q.enqueueAttempts q.dequeueAttempts q) :
    InStep q.closeAndCancel.enqueueAttempts q.closeAndCancel.dequeueAttempts q.closeAndCancel := by
  refine ⟨h.aligned.congr rfl rfl, fun b hb => ?_, h.dequeues⟩
  obtain ⟨a, ha, rfl⟩ := mem_map.mp hb
  have hBrings := h.enqueues a ha
  split
  · exact hBrings
  · rw [Attempt.cancelEnqueue, setStatus_operation]
    exact hBrings

theorem enter (h : InStep q.enqueueAttempts q.dequeueAttempts q) (call : Call k α) :
    InStep (enter q call).enqueueAttempts (enter q call).dequeueAttempts
      { enter q call with calls := q.calls ++ [call] } := by
  have hCalls := h.calls call
  have hLast : call ∈ q.calls ++ [call] := mem_append_right _ (mem_singleton_self call)
  cases call with
  | tryEnqueue tuple =>
    exact (hCalls.pushEnqueue (a := newAttempt q (.enqueue tuple) 1) hLast).setAttempts _ _
  | tryEnqueueMany t =>
    rw [FifoQueue.enter]
    split
    · exact hCalls.complete _
    · exact (hCalls.pushEnqueue
        (a := newAttempt q (.enqueueMany t) (toInt32 (t 0).length)) hLast).setAttempts _ _
  | tryDequeue =>
    exact (hCalls.pushDequeue (a := newAttempt q .dequeue 1)
      ⟨rfl, [], ⟨rfl, Int.one_pos, rfl⟩, by simp⟩).setAttempts _ _
  | tryDequeueMany numElements allowSmallBatch =>
    rw [FifoQueue.enter]
    split
    · exact hCalls.complete _
    · split
      · exact hCalls.complete _
      · next hSome =>
        have hWants : (0 : Int) < numElements := by omega
        exact (hCalls.pushDequeue (a := newAttempt q (.dequeueMany allowSmallBatch) numElements)
          ⟨rfl, [], ⟨rfl, hWants, rfl⟩, by simp⟩).setAttempts _ _
  | close cancelPendingEnqueues =>
    cases cancelPendingEnqueues with
    | true =>
      exact (closeAndCancel
        (q := { q with calls := q.calls ++ [Call.close true] }) hCalls).complete _
    | false => exact (hCalls.pushEnqueue (a := newAttempt q .close 0) trivial).setAttempts _ _

end InStep

omit [Inhabited α] in
theorem mem_cancelFirst {matching : Nat → Bool} {status : Status} {attempts : List (Attempt k α)}
    {b : Attempt k α} (hb : b ∈ (cancelFirst matching status attempts).1) :
    b ∈ attempts ∨ b.isCancelled = true := by
  induction attempts with
  | nil => exact absurd hb not_mem_nil
  | cons a rest ih =>
    rw [cancelFirst] at hb
    split at hb
    · split at hb
      · exact .inl hb
      · rcases mem_cons.mp hb with rfl | hRest
        · exact .inr (setStatus_isCancelled _ _)
        · exact .inl (mem_cons_of_mem _ hRest)
    · rcases mem_cons.mp hb with rfl | hRest
      · exact .inl mem_cons_self
      · exact (ih hRest).imp_left (mem_cons_of_mem _)

theorem InStep.cancel (h : InStep q.enqueueAttempts q.dequeueAttempts q) (matching : Nat → Bool)
    (side : Side) : InStep (q.cancel matching side).enqueueAttempts
      (q.cancel matching side).dequeueAttempts (q.cancel matching side) := by
  cases side with
  | enqueue =>
    obtain ⟨hSame, -⟩ := cancelFirst_spec matching Side.enqueue.cancelled q.enqueueAttempts
    rw [QueueBase.cancel]
    obtain ⟨completed, hEq, -⟩ := called_eq
      { q with enqueueAttempts :=
        (cancelFirst matching Side.enqueue.cancelled q.enqueueAttempts).1 }
      (cancelFirst matching Side.enqueue.cancelled q.enqueueAttempts).2
    simp only [hEq]
    refine ⟨h.aligned.congr rfl rfl, fun b hb => ?_, h.dequeues⟩
    obtain ⟨a, ha, hOperation, -⟩ := hSame b hb
    rw [hOperation]
    exact h.enqueues a ha
  | dequeue =>
    rw [QueueBase.cancel]
    obtain ⟨completed, hEq, -⟩ := called_eq
      { q with dequeueAttempts :=
        (cancelFirst matching Side.dequeue.cancelled q.dequeueAttempts).1 }
      (cancelFirst matching Side.dequeue.cancelled q.dequeueAttempts).2
    simp only [hEq]
    refine ⟨h.aligned.congr rfl rfl, h.enqueues, fun b hb hActive => ?_⟩
    rcases mem_cancelFirst hb with hOld | hCancelled
    · exact h.dequeues b hOld hActive
    · exact absurd (hActive.symm.trans hCancelled) Bool.false_ne_true

def CopiesWhole (env : Env k) (s : QueueCancellation.State k α) :
    QueueCancellation.Action k α → Prop
  | .flush => FlushVisits (runCallback env) (fun q a _ => whole env q a)
      (s.queue.effort + 1) s.queue
  | _ => True

theorem inStep_step {s s' : QueueCancellation.State k α} {action : QueueCancellation.Action k α}
    (h : InStep s.queue.enqueueAttempts s.queue.dequeueAttempts s.queue)
    (hAllowed : CopiesWhole env s action)
    (hStep : QueueCancellation.step .fifo env s action = .next s') :
    InStep s'.queue.enqueueAttempts s'.queue.dequeueAttempts s'.queue := by
  cases action with
  | call manager call =>
    cases hStep
    rw [QueueCancellation.enter]
    split
    · exact h.enter call
    · simp only
      split
      · exact h.enter call
      · exact (h.calls call).complete _
  | flush =>
    rw [QueueCancellation.step] at hStep
    split at hStep
    · cases hStep
    · cases hStep
    · next q hFlush =>
      cases hStep
      refine ((inStep_follows env).flush (s.queue.effort + 1) h).2 q ?_
      rw [flushLoop_guarded hAllowed]
      exact hFlush
  | startCancel manager =>
    cases hStep
    exact h
  | runCancel manager token =>
    rw [QueueCancellation.step] at hStep
    split at hStep
    · cases hStep
    · next token' side _ =>
      cases hStep
      exact h.cancel _ side
  | endCancel manager =>
    rw [QueueCancellation.step] at hStep
    split at hStep
    · cases hStep
      exact h
    · cases hStep
  | cleanUp id =>
    rw [QueueCancellation.step] at hStep
    split at hStep
    · cases hStep
      exact h
    · simp only at hStep
      split at hStep
      · cases hStep
      · cases hStep
        exact h

/-- The deques are aligned in every state, and after each run of the next flush up to the first
whose copies tear an element. -/
theorem history_aligned (env : Env k) (capacity : Nat) (name : String) (specifiedShapes : Bool)
    (s : QueueCancellation.State k α)
    (hReach : Reach (QueueCancellation.step .fifo env) (CopiesWhole env)
      (QueueCancellation.init capacity name specifiedShapes) s) :
    Aligned s.queue ∧ ∀ turns, FlushVisits (guarded (runCallback env) (whole env))
      (fun _ _ r => Aligned r.queue) turns s.queue := by
  have hInStep : InStep s.queue.enqueueAttempts s.queue.dequeueAttempts s.queue := by
    refine hReach.invariant
      (fun s => InStep s.queue.enqueueAttempts s.queue.dequeueAttempts s.queue) ?_
      fun _ _ _ h hAllowed hStep => inStep_step h hAllowed hStep
    exact ⟨⟨[], fun _ => rfl, fun _ hx => absurd hx not_mem_nil⟩,
      fun _ hb => absurd hb not_mem_nil, fun _ hb => absurd hb not_mem_nil⟩
  exact ⟨hInStep.aligned, fun turns => ((inStep_follows env).flush turns hInStep).1⟩

def copiesWhole (env : Env 1) (s : QueueCancellation.State 1 Nat) :
    QueueCancellation.Action 1 Nat → Bool
  | .flush =>
    (flushLoop (guarded (runCallback env) (whole env)) (s.queue.effort + 1) s.queue).isOk
  | _ => true

theorem copiesWhole_of_test (env : Env 1) (s : QueueCancellation.State 1 Nat)
    (action : QueueCancellation.Action 1 Nat) (hTest : copiesWhole env s action) :
    CopiesWhole env s action := by
  cases action with
  | flush =>
    rw [copiesWhole] at hTest
    cases hLoop : flushLoop (guarded (runCallback env) (whole env))
      (s.queue.effort + 1) s.queue with
    | error fault =>
      rw [hLoop] at hTest
      exact nomatch hTest
    | ok result => exact flushVisits_of_guarded hLoop
  | _ => trivial

def scarce : Env 1 where
  copySlice n _ := if n = 4 then .error .resourceExhausted "OOM" else .ok
  copyElement n _ := if n = 6 then .error .resourceExhausted "OOM" else .ok

/-- The third element of a batch is not pushed, and the first one is lost when it is taken. -/
theorem scarce_aligned :
    ∃ s, Reach (QueueCancellation.step .fifo scarce) (CopiesWhole scarce)
        (QueueCancellation.init 4 "q" true) s ∧
      (s.queue.queues 0, s.queue.queues 1) = ([2], [20]) ∧ Aligned s.queue ∧
      ∀ turns, FlushVisits (guarded (runCallback scarce) (whole scarce))
        (fun _ _ r => Aligned r.queue) turns s.queue := by
  obtain ⟨s, hReach, hTest⟩ := exists_reach_of_exec
    (QueueCancellation.step .fifo scarce) (QueueCancellation.init 4 "q" true) (copiesWhole scarce)
    (copiesWhole_of_test scarce)
    [.call 0 (.tryEnqueueMany ![[1, 2, 3], [10, 20, 30]]), .flush,
      .call 1 (.tryDequeueMany 2 true), .flush]
    (fun s => (s.queue.queues 0, s.queue.queues 1) = ([2], [20])) (by decide +kernel)
  exact ⟨s, hReach, of_decide_eq_true hTest, history_aligned scarce 4 "q" true s hReach⟩

/-- The copy of the second component fails after the first one was pushed. -/
theorem uint16_component_missing :
    ¬∀ (k : Nat) (env : Env k) (capacity : Nat) (name : String) (specifiedShapes : Bool)
      (s : QueueCancellation.State k Nat),
      Reach (QueueCancellation.step .fifo env) anyStep
        (QueueCancellation.init capacity name specifiedShapes) s → Aligned s.queue := by
  intro hAligned
  obtain ⟨s, hReach, hTest⟩ := exists_reach_of_exec
    (QueueCancellation.step .fifo (ofTypes ![.int64, .uint16]))
    (QueueCancellation.init 4 "q" true) always anyStep_of_always
    [.call 0 (.tryEnqueueMany ![[1], [10]]), .flush]
    (fun s => (s.queue.queues 0).length ≠ (s.queue.queues 1).length) (by decide +kernel)
  obtain ⟨content, hStores, -⟩ := hAligned 1 _ 4 "q" true s hReach
  refine of_decide_eq_true hTest ?_
  rw [hStores.length 0, hStores.length 1]

end TensorFlowOnSpark.Kernels.FifoQueue
