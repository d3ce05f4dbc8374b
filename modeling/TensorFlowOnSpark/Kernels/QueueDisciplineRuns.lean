import TensorFlowOnSpark.Kernels.FifoQueueRuns
import TensorFlowOnSpark.Kernels.QueueBaseSettled
import TensorFlowOnSpark.Kernels.QueueDiscipline

/-!
# The run callbacks behave well

Whatever the copies of elements do: an attempt that does not complete has moved all the elements
that there was room for, or that were there.
-/

namespace TensorFlowOnSpark.Kernels

open Framework QueueBase FifoQueue List

universe u

variable {k : Nat} {α : Type u}

def AtMost (minAfterDequeue size : Nat) (_ : Attempt k α) : Prop := size ≤ minAfterDequeue

/-- `DequeueLocked` removes one element, with all its components. -/
structure Removes (dequeueLocked : QueueBase k α → Except Fault (Tuple k α × QueueBase k α)) :
    Prop where
  removes : ∀ q x q', dequeueLocked q = .ok (x, q') →
    ∃ queues, q' = { q with queues := queues } ∧ q'.size + 1 = q.size
  level : ∀ q, Level q → 0 < q.size → ∃ x q', dequeueLocked q = .ok (x, q') ∧ Level q'

structure Discipline.Lawful (D : Discipline k α) (minAfterDequeue : Nat) : Prop extends
    Removes D.dequeueLocked where
  putBack : ∀ elements value, (D.putBack elements value).length = elements.length + 1
  batchIndex : ∀ index : Int, 0 ≤ index → index < 2 ^ 31 → D.batchIndex index = index
  available : ∀ q, D.available q =
    if q.closed then q.size else q.size - minAfterDequeue

section Copies

variable {env : Env k} {q q' : QueueBase k α} {a a' : Attempt k α}

def Rewrites (q q' : QueueBase k α) : Prop :=
  ∃ copies queues accepted, q' = { q with copies, queues, accepted }

def Advanced (a a' : Attempt k α) : Prop :=
  ∃ elementsRequested status tuple done, a' = { a with elementsRequested, status, tuple, done }

theorem Rewrites.refl (q : QueueBase k α) : Rewrites q q := ⟨q.copies, q.queues, q.accepted, rfl⟩

theorem Rewrites.trans {q₁ q₂ q₃ : QueueBase k α} (h : Rewrites q₁ q₂) (h' : Rewrites q₂ q₃) :
    Rewrites q₁ q₃ := by
  obtain ⟨copies, queues, accepted, rfl⟩ := h
  obtain ⟨copies', queues', accepted', rfl⟩ := h'
  exact ⟨copies', queues', accepted', rfl⟩

theorem Advanced.refl (a : Attempt k α) : Advanced a a :=
  ⟨a.elementsRequested, a.status, a.tuple, a.done, rfl⟩

theorem Advanced.trans {a₁ a₂ a₃ : Attempt k α} (h : Advanced a₁ a₂) (h' : Advanced a₂ a₃) :
    Advanced a₁ a₃ := by
  obtain ⟨requested, status, tuple, done, rfl⟩ := h
  obtain ⟨requested', status', tuple', done', rfl⟩ := h'
  exact ⟨requested', status', tuple', done', rfl⟩

theorem Advanced.setStatus (a : Attempt k α) (status : Status) :
    Advanced a (a.setStatus status) := by
  obtain ⟨status', hEq⟩ := setStatus_eq a status
  exact ⟨a.elementsRequested, status', a.tuple, a.done, hEq⟩

theorem frame_of (hQueue : Rewrites q q') (hAttempt : Advanced a a') (result : RunResult) :
    Frame q a ⟨result, a', q'⟩ := by
  obtain ⟨copies, queues, accepted, rfl⟩ := hQueue
  obtain ⟨requested, status, tuple, done, rfl⟩ := hAttempt
  exact ⟨rfl, rfl, rfl, rfl, rfl, rfl, rfl, rfl⟩

theorem Rewrites.room (h : Rewrites q q') : q'.room = q.capacity - q'.size := by
  obtain ⟨copies, queues, accepted, rfl⟩ := h
  rfl

theorem Rewrites.closed (h : Rewrites q q') : q'.closed = q.closed := by
  obtain ⟨copies, queues, accepted, rfl⟩ := h
  rfl

/-- What the loop of an `EnqueueMany` does to the size. -/
def LoopRun (q : QueueBase k α) (a : Attempt k α) (result : RunResult) (room : Nat)
    (r : Run k α) : Prop :=
  Rewrites q r.queue ∧ Advanced a r.attempt ∧ q.size ≤ r.queue.size ∧
    (r.result ≠ .complete → r.queue.size = q.size + room ∧
      if room = 0 then r = ⟨result, a, q⟩ else r.result = .progress)

theorem LoopRun.turn {room : Nat} {result : RunResult} {r : Run k α} (hQueue : Rewrites q q')
    (hAttempt : Advanced a a') (hMore : q'.size = q.size + 1)
    (h : LoopRun q' a' .progress room r) : LoopRun q a result (room + 1) r := by
  obtain ⟨hQueue', hAttempt', hSize, hRest⟩ := h
  refine ⟨.trans hQueue hQueue', .trans hAttempt hAttempt', by omega, fun hStays => ?_⟩
  obtain ⟨hCount, hResult⟩ := hRest hStays
  refine ⟨by omega, ?_⟩
  rw [if_neg (Nat.succ_ne_zero room)]
  split at hResult
  · rw [hResult]
  · exact hResult

theorem enqueueRun_of_loop {r : Run k α} (hOpen : q.closed = false)
    (h : LoopRun q a .noProgress (q.capacity - q.size) r) : EnqueueRun q a r := by
  obtain ⟨hQueue, hAttempt, hSize, hStays⟩ := h
  have hRoom := hQueue.room
  refine ⟨frame_of hQueue hAttempt _, hQueue.closed.trans, .inl ∘ hQueue.closed.symm.trans,
    fun _ => hQueue.closed.trans hOpen,
    ?_, ?_, ?_⟩
  · intro hIdle
    obtain ⟨-, hResult⟩ := hStays (by simp [hIdle])
    split at hResult
    · rw [hResult]
      exact ⟨rfl, rfl, by omega⟩
    · rw [hResult] at hIdle
      cases hIdle
  · rw [hRoom, QueueBase.room]
    omega
  · intro hProgress
    obtain ⟨hCount, hResult⟩ := hStays (by simp [hProgress])
    split at hResult
    · rw [hResult] at hProgress
      cases hProgress
    · rw [hRoom, QueueBase.room]
      omega

/-- `q'` has the components of one more element, all of them when `whole` is true. -/
def Pushes (components : List (Fin (k + 1))) (whole : Bool) (q q' : QueueBase k α)
    (a a' : Attempt k α) : Prop :=
  (∃ status, a' = { a with status := status }) ∧
    ∃ copies queues, q' = { q with copies := copies, queues := queues } ∧
      (∀ i, (q.queues i).length ≤ (queues i).length) ∧
      (whole = true → ∀ i, (queues i).length = (q.queues i).length + components.count i)

theorem Pushes.cons {i : Fin (k + 1)} {rest : List (Fin (k + 1))} {whole : Bool} {value : List α}
    {status : Status} {copies : Nat} (hValue : value.length = (q.queues i).length + 1)
    (h : Pushes rest whole
      { q with copies := copies, queues := Function.update q.queues i value } q'
      { a with status := status } a') :
    Pushes (i :: rest) whole q q' a a' := by
  obtain ⟨⟨status', hAttempt⟩, copies, queues, hQueue, hLe, hWhole⟩ := h
  refine ⟨⟨status', hAttempt⟩, copies, queues, hQueue, fun j => Nat.le_trans ?_ (hLe j),
    fun hTrue j => ?_⟩
  · rcases eq_or_ne j i with rfl | hj
    · simp [hValue]
    · simp [hj]
  · rw [hWhole hTrue j, count_cons]
    rcases eq_or_ne j i with rfl | hj
    · simp only [Function.update_self, hValue, beq_self_eq_true, if_true]
      omega
    · simp [hj, hj.symm]

theorem pushComponents_lengths (t : Batch k α) (index : Int) (components : List (Fin (k + 1)))
    {whole : Bool} (h : pushComponents env t index components q a = .ok (whole, a', q')) :
    Pushes components whole q q' a a' := by
  induction components generalizing q a with
  | nil =>
    cases h
    exact ⟨⟨_, rfl⟩, _, _, rfl, fun i => Nat.le_refl _, by simp⟩
  | cons i rest ih =>
    rw [pushComponents] at h
    obtain ⟨status, hStatus⟩ := setStatus_eq a (env.copySlice q.copies i)
    simp only [hStatus] at h
    split at h
    · cases h
      exact ⟨⟨status, rfl⟩, q.copies + 1, q.queues, rfl, fun i => Nat.le_refl _, by simp⟩
    · split at h
      · cases h
      · exact (ih h).cons (by rw [length_append, length_singleton])

theorem pushComponents_defined (env : Env k) (t : Batch k α) (index : Int)
    (components : List (Fin (k + 1)))
    (hIndex : ∀ i, 0 ≤ index ∧ index < (t i).length) (q : QueueBase k α) (a : Attempt k α) :
    ∃ whole a' q', pushComponents env t index components q a = .ok (whole, a', q') := by
  induction components generalizing q a with
  | nil => exact ⟨true, a, q, rfl⟩
  | cons i rest ih =>
    rw [pushComponents]
    split
    · exact ⟨_, _, _, rfl⟩
    · obtain ⟨hLow, hHigh⟩ := hIndex i
      have hSlice : slice? (t i) index = some (t i)[index.toNat] := by
        rw [slice?, if_neg (by omega)]
        exact getElem?_eq_getElem _
      rw [hSlice]
      exact ih _ _

/-- The slices of an element are all copied, or the copy of the first one fails. -/
def PushesWhole (env : Env k) : Prop :=
  (∀ n i, env.copySlice n i = .ok) ∨ ∀ n, env.copySlice n 0 ≠ .ok

theorem pushComponents_ne_false (hEnv : ∀ n i, env.copySlice n i = .ok) (ha : a.status = .ok)
    (t : Batch k α) (index : Int) (components : List (Fin (k + 1))) :
    pushComponents env t index components q a ≠ .ok (false, a', q') := by
  induction components generalizing q a with
  | nil => simp [pushComponents]
  | cons i rest ih =>
    simp only [pushComponents, hEnv, Attempt.setStatus, ha, if_true, ne_eq, not_true_eq_false,
      if_false]
    split
    · simp
    · exact ih rfl

theorem pushComponents_stops (hEnv : PushesWhole env) (t : Batch k α) (index : Int)
    (h : pushComponents env t index (finRange (k + 1)) q a = .ok (false, a', q')) :
    q'.queues = q.queues := by
  by_cases hStatus : a.status = .ok ∧ ∀ n i, env.copySlice n i = .ok
  · exact absurd h (pushComponents_ne_false hStatus.2 hStatus.1 t index _)
  · have hFirst : (a.setStatus (env.copySlice q.copies 0)).status ≠ .ok := by
      rw [Attempt.setStatus]
      split
      · rename_i ha
        exact hEnv.resolve_left (fun hAll => hStatus ⟨ha, hAll⟩) q.copies
      · assumption
    rw [finRange_succ, pushComponents, if_pos hFirst] at h
    cases h
    rfl

theorem count_finRange (i : Fin (k + 1)) : (List.finRange (k + 1)).count i = 1 :=
  count_eq_one_of_mem (nodup_finRange _) (mem_finRange i)

theorem copyComponents_frame {element : Tuple k α} {index : Nat} {components : List (Fin (k + 1))}
    {t t' : Batch k α} {whole : Bool} {a' : Attempt k α} {q' : QueueBase k α}
    (h : copyComponents env element index components t q a = (whole, t', a', q')) :
    (∃ status, a' = { a with status := status }) ∧ ∃ copies, q' = { q with copies := copies } := by
  induction components generalizing t q a with
  | nil =>
    cases h
    exact ⟨⟨_, rfl⟩, _, rfl⟩
  | cons i rest ih =>
    obtain ⟨status, hStatus⟩ := setStatus_eq a (env.copyElement q.copies i)
    simp only [copyComponents, hStatus] at h
    split at h
    · cases h
      exact ⟨⟨status, rfl⟩, q.copies + 1, rfl⟩
    · obtain ⟨⟨status', hAttempt⟩, copies, hQueue⟩ := ih h
      exact ⟨⟨status', hAttempt⟩, copies, hQueue⟩

end Copies

section Loops

variable [Inhabited α] {dequeueLocked : QueueBase k α → Except Fault (Tuple k α × QueueBase k α)}
  {env : Env k} {q : QueueBase k α} {a : Attempt k α} {r : Run k α}

/-- What the loop of a `DequeueMany` does to the size and to the request. -/
theorem dequeueLoop_run (hRemoves : Removes dequeueLocked) (turns : Nat) (result : RunResult)
    (hWants : 0 < a.elementsRequested)
    (h : dequeueLoop dequeueLocked env turns result q a = .ok r) :
    Rewrites q r.queue ∧ Advanced a r.attempt ∧
      q.size ≤ r.queue.size + a.elementsRequested.toNat ∧
      (r.result ≠ .complete → r.queue.size + turns = q.size ∧ 0 < r.attempt.elementsRequested ∧
        r.attempt.elementsRequested = a.elementsRequested - turns ∧
        if turns = 0 then r = ⟨result, a, q⟩ else r.result = .progress) := by
  induction turns generalizing q a result with
  | zero =>
    cases h
    exact ⟨.refl _, .refl _, Nat.le_add_right _ _, fun _ => ⟨rfl, hWants, by simp, rfl⟩⟩
  | succ turns ih =>
    simp only [dequeueLoop] at h
    split at h
    · cases h
    · rename_i element q' hTake
      obtain ⟨queues, rfl, hSize⟩ := hRemoves.removes q _ _ hTake
      split at h
      · rename_i t' a' q'' hCopy
        obtain ⟨⟨status, hAttempt⟩, copies, hQueue⟩ := copyComponents_frame hCopy
        cases h
        rw [hAttempt, hQueue]
        refine ⟨⟨copies, queues, q.accepted, rfl⟩, ⟨_, status, _, _, rfl⟩, ?_, by simp⟩
        simp only [size] at hSize ⊢
        omega
      · rename_i t' a' q'' hCopy
        obtain ⟨⟨status, hAttempt⟩, copies, hQueue⟩ := copyComponents_frame hCopy
        subst hAttempt hQueue
        split at h
        · cases h
          refine ⟨⟨copies, queues, q.accepted, rfl⟩, ⟨_, status, _, _, rfl⟩, ?_, by simp⟩
          simp only [size] at hSize ⊢
          omega
        · rename_i hMore
          simp only at hMore
          obtain ⟨hQueue, hAttempt, hLe, hRest⟩ := ih .progress (by simp only; omega) h
          simp only [size] at hSize hLe hRest ⊢
          refine ⟨.trans ⟨copies, queues, _, rfl⟩ hQueue, .trans ⟨_, status, _, _, rfl⟩ hAttempt,
            by omega, fun hStays => ?_⟩
          obtain ⟨hCount, hWants', hRequested, hResult⟩ := hRest hStays
          refine ⟨by omega, hWants', by omega, ?_⟩
          rw [if_neg (Nat.succ_ne_zero turns)]
          split at hResult
          · rw [hResult]
          · exact hResult

theorem dequeueLoop_defined (env : Env k) (hRemoves : Removes dequeueLocked) (turns : Nat)
    (result : RunResult) (hLevel : Level q) (hTurns : turns ≤ q.size) :
    ∃ r, dequeueLoop dequeueLocked env turns result q a = .ok r ∧ Level r.queue ∧
      r.attempt.operation = a.operation := by
  induction turns generalizing q a result with
  | zero => exact ⟨_, rfl, hLevel, rfl⟩
  | succ turns ih =>
    obtain ⟨element, q', hTake, hLevel'⟩ := hRemoves.level q hLevel (by omega)
    obtain ⟨queues, rfl, hSize⟩ := hRemoves.removes q _ _ hTake
    simp only [dequeueLoop, hTake]
    split
    · rename_i t' a' q'' hCopy
      obtain ⟨⟨status, hAttempt⟩, copies, hQueue⟩ := copyComponents_frame hCopy
      rw [hAttempt, hQueue]
      exact ⟨_, rfl, hLevel', rfl⟩
    · rename_i t' a' q'' hCopy
      obtain ⟨⟨status, hAttempt⟩, copies, hQueue⟩ := copyComponents_frame hCopy
      rw [hAttempt, hQueue]
      split
      · exact ⟨_, rfl, hLevel', rfl⟩
      · obtain ⟨r, hRun, hLevel'', hOperation⟩ := ih
          (q := { q with queues := queues, copies := copies })
          (a := { a with
            status := status, tuple := some t', elementsRequested := a.elementsRequested - 1 })
          .progress hLevel' (by simp only [size] at hSize hTurns ⊢; omega)
        exact ⟨r, hRun, hLevel'', hOperation⟩

end Loops

namespace Discipline

variable {D : Discipline k α} {minAfterDequeue : Nat} {env : Env k} {q : QueueBase k α}
  {a : Attempt k α} {r : Run k α}

theorem runEnqueue_run (tuple : Tuple k α) : EnqueueRun q a (D.runEnqueue tuple q a) := by
  rw [runEnqueue]
  split
  · exact ⟨frame_of (.refl q) (.setStatus a _) _, id, .inl, by simp, by simp,
      Nat.le_refl _, by simp⟩
  · rename_i hOpen
    rw [Bool.not_eq_true] at hOpen
    split
    · refine ⟨frame_of ⟨q.copies, _, _, rfl⟩ (.refl a) _, id, .inl, by simp, by simp, ?_, by simp⟩
      simp only [room, size, length_append]
      omega
    · rename_i hFull
      refine ⟨frame_of (.refl q) (.refl a) _, id, .inl, fun _ => hOpen, fun _ => ⟨rfl, rfl, ?_⟩,
        Nat.le_refl _, by simp⟩
      omega

theorem runClose_run (hOperation : a.operation = .close) : EnqueueRun q a (runClose q a) := by
  rw [runClose]
  split
  · exact ⟨frame_of (.refl q) (.setStatus a _) _, id, .inl, nofun, nofun, Nat.le_refl _, nofun⟩
  · exact ⟨⟨rfl, rfl, rfl, rfl, rfl, rfl, rfl, rfl⟩, fun _ => rfl, fun _ => .inr hOperation, nofun,
      nofun, Nat.le_refl _, nofun⟩

theorem runClose_closes : (runClose q a).result = .complete ∧
    (runClose q a).queue.closed = true := by
  rw [runClose]
  split
  · rename_i hClosed
    exact ⟨rfl, hClosed⟩
  · exact ⟨rfl, rfl⟩

theorem runDequeue_run (hLawful : D.Lawful minAfterDequeue) (hWants : 0 < a.elementsRequested)
    (hRun : D.runDequeue q a = .ok r) : DequeueRun (AtMost minAfterDequeue) q a r := by
  rw [runDequeue] at hRun
  split at hRun
  · cases hRun
    exact ⟨frame_of (.refl q) (.setStatus a _) _, rfl, by simp, by simp,
      Nat.le_add_right _ _, by simp⟩
  · rename_i hSome
    simp only [Bool.and_eq_true, decide_eq_true_eq, not_and] at hSome
    split at hRun
    · split at hRun
      · cases hRun
      · rename_i tuple q' hTake
        cases hRun
        obtain ⟨queues, rfl, hSize⟩ := hLawful.removes q _ _ hTake
        refine ⟨frame_of ⟨q.copies, queues, q.accepted, rfl⟩
          ⟨a.elementsRequested, a.status, a.tuple, _, rfl⟩ _, rfl, by simp, by simp, ?_, by simp⟩
        simp only [room]
        omega
    · rename_i hNone
      cases hRun
      rw [hLawful.available] at hNone
      refine ⟨frame_of (.refl q) (.refl a) _, rfl, fun _ => hWants, fun _ => ⟨rfl, rfl, ?_⟩,
        Nat.le_add_right _ _, by simp⟩
      split at hNone
      · rename_i hClosed
        exact absurd (hSome hClosed) (by omega)
      · rename_i hOpen
        rw [Bool.not_eq_true] at hOpen
        exact ⟨hOpen, Nat.le_of_sub_eq_zero (Nat.eq_zero_of_not_pos hNone)⟩

variable [Inhabited α]

theorem enqueueManyLoop_run (t : Batch k α) (room : Nat) (result : RunResult)
    (h : D.enqueueManyLoop env t room result q a = .ok r) :
    LoopRun q a result room r := by
  induction room generalizing q a result with
  | zero =>
    cases h
    exact ⟨.refl _, .refl _, Nat.le_refl _, fun _ => ⟨rfl, rfl⟩⟩
  | succ room ih =>
    simp only [enqueueManyLoop] at h
    split at h
    · cases h
    · rename_i a' q' hPush
      obtain ⟨⟨status, rfl⟩, copies, queues, rfl, hLe, -⟩ := pushComponents_lengths t _ _ hPush
      cases h
      exact ⟨⟨copies, queues, q.accepted, rfl⟩, ⟨_, status, _, _, rfl⟩, hLe 0, by simp⟩
    · rename_i a' q' hPush
      obtain ⟨⟨status, rfl⟩, copies, queues, rfl, hLe, hWhole⟩ := pushComponents_lengths t _ _ hPush
      have hMore : (queues 0).length = q.size + 1 := by
        rw [hWhole rfl 0, count_finRange]
        rfl
      split at h
      · cases h
        exact ⟨⟨copies, queues, _, rfl⟩, ⟨_, status, _, _, rfl⟩, hLe 0, by simp⟩
      · exact (ih .progress h).turn ⟨copies, queues, _, rfl⟩ ⟨_, status, _, _, rfl⟩ hMore

theorem runEnqueueMany_run (t : Batch k α) (hRun : D.runEnqueueMany env t q a = .ok r) :
    EnqueueRun q a r := by
  rw [runEnqueueMany] at hRun
  split at hRun
  · cases hRun
    exact ⟨frame_of (.refl q) (.setStatus a _) _, id, .inl, by simp, by simp,
      Nat.le_refl _, by simp⟩
  · rename_i hOpen
    rw [Bool.not_eq_true] at hOpen
    exact enqueueRun_of_loop hOpen (enqueueManyLoop_run t _ _ hRun)

theorem restoreComponents_run (env : Env k) (hLawful : D.Lawful minAfterDequeue)
    (t : Batch k α) (index : Nat)
    (components : List (Fin (k + 1))) (q : QueueBase k α) (a : Attempt k α) :
    ∃ status copies queues, D.restoreComponents env t index components q a =
        ({ a with status := status }, { q with copies := copies, queues := queues }) ∧
      ∀ i, (queues i).length = (q.queues i).length + components.count i := by
  induction components generalizing q a with
  | nil => exact ⟨a.status, q.copies, q.queues, rfl, by simp⟩
  | cons i rest ih =>
    simp only [restoreComponents]
    split
    · obtain ⟨status, copies, queues, hEq, hLengths⟩ := ih _ a
      refine ⟨status, copies, queues, hEq, fun j => ?_⟩
      rw [hLengths]
      by_cases hj : j = i
      · subst hj
        simp [hLawful.putBack]
        omega
      · simp [hj, Ne.symm hj]
    · obtain ⟨status', hStatus⟩ :=
        setStatus_eq a (D.restoreFailed (env.copySlice q.copies i).errorMessage)
      rw [hStatus]
      obtain ⟨status, copies, queues, hEq, hLengths⟩ := ih _ { a with status := status' }
      refine ⟨status, copies, queues, hEq, fun j => ?_⟩
      rw [hLengths, count_cons]
      by_cases hj : j = i
      · subst hj
        simp [hLawful.putBack]
        omega
      · simp [hj, Ne.symm hj]

theorem restore_run (env : Env k) (hLawful : D.Lawful minAfterDequeue) (t : Batch k α) (index : Nat)
    (q : QueueBase k α) (a : Attempt k α) :
    ∃ status copies queues, D.restore env t index q a =
        ({ a with status := status }, { q with copies := copies, queues := queues }) ∧
      ∀ i, (queues i).length = (q.queues i).length + index := by
  induction index generalizing q a with
  | zero => exact ⟨a.status, q.copies, q.queues, rfl, fun i => rfl⟩
  | succ index ih =>
    obtain ⟨status, copies, queues, hEq, hLengths⟩ :=
      restoreComponents_run env hLawful t index (List.finRange (k + 1)) q a
    simp only [restore, hEq]
    obtain ⟨status', copies', queues', hEq', hLengths'⟩ := ih
      { q with copies := copies, queues := queues } { a with status := status }
    refine ⟨status', copies', queues', hEq', fun i => ?_⟩
    rw [hLengths']
    simp only [hLengths, count_finRange]
    omega

theorem restoreBatch_run (env : Env k) (hLawful : D.Lawful minAfterDequeue) (q : QueueBase k α)
    (a : Attempt k α) :
    ∃ status copies queues added, D.restoreBatch env q a =
        ({ a with status := status }, { q with copies := copies, queues := queues }) ∧
      ∀ i, (queues i).length = (q.queues i).length + added := by
  rw [restoreBatch]
  split
  · exact ⟨a.status, q.copies, q.queues, 0, rfl, fun i => rfl⟩
  · rename_i t _
    obtain ⟨status, copies, queues, hEq, hLengths⟩ := restore_run env hLawful t
      ((t 0).length - a.elementsRequested).toNat q a
    exact ⟨status, copies, queues, _, hEq, hLengths⟩

section

variable (hLawful : D.Lawful minAfterDequeue)

include hLawful

theorem runDequeueMany_run (allowSmallBatch : Bool)
    (hWants : 0 < a.elementsRequested) (hOpened : Open q)
    (hRun : D.runDequeueMany env allowSmallBatch q a = .ok r) :
    DequeueRun (AtMost minAfterDequeue) q a r := by
  rw [runDequeueMany] at hRun
  split at hRun
  · rename_i hShort
    rw [Bool.and_eq_true, decide_eq_true_eq] at hShort
    obtain ⟨status, copies, queues, added, hRestored, hLengths⟩ :=
      restoreBatch_run env hLawful q a
    have hSize := hLengths 0
    simp only [runShort, hRestored] at hRun
    split at hRun
    · rename_i r' hEq
      cases hRun
      split at hEq
      · cases hEq
      · split at hEq
        · rename_i hYield
          rw [Bool.and_eq_true, Bool.not_eq_true', isEmpty_eq_false_iff] at hYield
          exact absurd (hOpened hShort.1) hYield.2
        · cases hEq
          refine ⟨frame_of ⟨copies, queues, q.accepted, rfl⟩
            (.trans ⟨_, status, _, _, rfl⟩ (.setStatus _ _)) _, rfl, by simp, by simp, ?_, by simp⟩
          simp only [room] at hSize ⊢
          omega
    · rename_i a' q' hEq
      split at hEq
      · rename_i hSome
        cases hEq
        rw [Bool.and_eq_true, decide_eq_true_eq] at hSome
        obtain ⟨hQueue, hAttempt, -, hStays⟩ := dequeueLoop_run hLawful.toRemoves _ _
          (by simp only; omega) hRun
        have hComplete : r.result = .complete := by
          by_contra hNot
          obtain ⟨-, hLeft, hRequested, -⟩ := hStays hNot
          simp only at hRequested
          omega
        have hQueue' : Rewrites q r.queue := .trans ⟨copies, queues, q.accepted, rfl⟩ hQueue
        refine ⟨frame_of hQueue' (.trans ⟨_, status, _, _, rfl⟩ hAttempt) _,
          hQueue'.closed, fun hNot => absurd hComplete hNot, ?_, ?_, ?_⟩
        · rw [hComplete]
          simp
        · rw [hQueue'.room, room]
          omega
        · rw [hComplete]
          simp
      · split at hEq
        · cases hEq
        · cases hEq
  · rename_i hLong
    rw [Bool.and_eq_true, decide_eq_true_eq, not_and] at hLong
    obtain ⟨hQueue, hAttempt, hLe, hStays⟩ := dequeueLoop_run hLawful.toRemoves _ _ hWants hRun
    refine ⟨frame_of hQueue hAttempt _, hQueue.closed, fun hNot => (hStays hNot).2.1, ?_, ?_, ?_⟩
    · intro hIdle
      obtain ⟨-, -, -, hResult⟩ := hStays (by simp [hIdle])
      split at hResult
      · rename_i hNone
        rw [hResult]
        rw [hLawful.available] at hNone
        split at hNone
        · rename_i hClosed
          exact absurd (hLong hClosed) (by omega)
        · rename_i hOpen
          rw [Bool.not_eq_true] at hOpen
          exact ⟨rfl, rfl, hOpen, Nat.le_of_sub_eq_zero hNone⟩
      · rw [hResult] at hIdle
        cases hIdle
    · rw [hQueue.room, room]
      omega
    · intro hProgress
      obtain ⟨hCount, hLeft, hRequested, hResult⟩ := hStays (by simp [hProgress])
      split at hResult
      · rw [hResult] at hProgress
        cases hProgress
      · rw [hQueue.room, room]
        omega

theorem behavesWell :
    BehavesWell (AtMost minAfterDequeue) (D.runCallback env) where
  enqueue q a r hKind hRun := by
    rw [runCallback] at hRun
    split at hRun
    · cases hRun
      exact runEnqueue_run _
    · exact runEnqueueMany_run _ hRun
    · rename_i hOperation
      cases hRun
      exact runClose_run hOperation
    · rename_i hOperation
      rw [hOperation] at hKind
      cases hKind
    · rename_i hOperation
      rw [hOperation] at hKind
      cases hKind
  dequeue q a r hKind hWants hOpened hRun := by
    rw [runCallback] at hRun
    split at hRun
    · rename_i hOperation
      rw [hOperation] at hKind
      cases hKind
    · rename_i hOperation
      rw [hOperation] at hKind
      cases hKind
    · rename_i hOperation
      rw [hOperation] at hKind
      cases hKind
    · exact runDequeue_run hLawful hWants hRun
    · exact runDequeueMany_run hLawful _ hWants hOpened hRun
  close q a r hOperation hRun := by
    simp only [runCallback, hOperation] at hRun
    cases hRun
    exact runClose_closes

theorem enqueueManyLoop_defined (hEnv : PushesWhole env)
    (t : Batch k α) (hBatch : ∀ i, (t i).length = (t 0).length) (hSmall : (t 0).length < 2 ^ 31)
    (room : Nat) (result : RunResult) (hLevel : Level q) (hWants : 0 < a.elementsRequested)
    (hRest : a.elementsRequested ≤ (t 0).length) :
    ∃ r, D.enqueueManyLoop env t room result q a = .ok r ∧ Level r.queue ∧
      (r.result ≠ .complete → r.attempt.operation = a.operation ∧
        0 < r.attempt.elementsRequested ∧ r.attempt.elementsRequested ≤ (t 0).length) := by
  induction room generalizing q a result with
  | zero => exact ⟨_, rfl, hLevel, fun _ => ⟨rfl, hWants, hRest⟩⟩
  | succ room ih =>
    have hIndex : D.batchIndex ((t 0).length - a.elementsRequested) =
        (t 0).length - a.elementsRequested := hLawful.batchIndex _ (by omega) (by omega)
    obtain ⟨whole, a', q', hPush⟩ := pushComponents_defined env t
      ((t 0).length - a.elementsRequested) (List.finRange (k + 1))
      (fun i => by rw [hBatch i]; omega) q a
    have hLengths := pushComponents_lengths t _ _ hPush
    simp only [enqueueManyLoop, hIndex, hPush]
    cases whole with
    | false =>
      have hSame := pushComponents_stops hEnv t _ hPush
      refine ⟨_, rfl, ?_, by simp⟩
      intro i
      simp only [size, hSame]
      exact hLevel i
    | true =>
      obtain ⟨⟨status, rfl⟩, copies, queues, rfl, -, hWhole⟩ := hLengths
      have hLevel' : Level { q with copies := copies, queues := queues } := by
        intro i
        simp only [size]
        rw [hWhole rfl, hWhole rfl, count_finRange, count_finRange, hLevel i]
        rfl
      simp only
      split
      · exact ⟨_, rfl, hLevel', by simp⟩
      · obtain ⟨r, hRun, hLevel'', hStays⟩ := ih
          (q := { q with
            copies := copies
            queues := queues
            accepted := q.accepted ++
              [(a.id, elementAt t ((t 0).length - a.elementsRequested : Int).toNat)] })
          (a := { a with status := status, elementsRequested := a.elementsRequested - 1 })
          .progress hLevel' (by simp only; omega) (by simp only; omega)
        exact ⟨r, hRun, hLevel'', hStays⟩

end

theorem runDequeueMany_defined (env : Env k) (hLawful : D.Lawful minAfterDequeue)
    (allowSmallBatch : Bool)
    (hLevel : Level q) :
    ∃ r, D.runDequeueMany env allowSmallBatch q a = .ok r ∧ Level r.queue ∧
      r.attempt.operation = a.operation := by
  rw [runDequeueMany]
  split
  · obtain ⟨status, copies, queues, added, hRestored, hLengths⟩ :=
      restoreBatch_run env hLawful q a
    have hLevel' : Level { q with copies := copies, queues := queues } := by
      intro i
      simp only [size, hLengths, hLevel i]
    simp only [runShort, hRestored]
    split
    · rename_i r' hEq
      split at hEq
      · cases hEq
      · split at hEq
        · cases hEq
          exact ⟨_, rfl, hLevel', rfl⟩
        · cases hEq
          obtain ⟨status', hStatus⟩ := setStatus_eq ({ a with status := status } : Attempt k α)
            (D.insufficient { q with copies := copies, queues := queues }
              a.elementsRequested q.size)
          exact ⟨_, rfl, hLevel', by rw [hStatus]⟩
    · rename_i a' q' hEq
      split at hEq
      · cases hEq
        obtain ⟨r, hRun, hLevel'', hOperation⟩ := dequeueLoop_defined env hLawful.toRemoves _
          .noProgress hLevel' (Nat.le_refl _)
        exact ⟨r, hRun, hLevel'', hOperation⟩
      · split at hEq
        · cases hEq
        · cases hEq
  · apply dequeueLoop_defined env hLawful.toRemoves _ _ hLevel
    rw [hLawful.available]
    split
    · exact Nat.le_refl _
    · exact Nat.sub_le _ _

/-- An attempt whose runs read no slice that is not there and keep the components in step. -/
def Safe (env : Env k) (operation : Operation k α) (elementsRequested : Int) : Prop :=
  Ready operation elementsRequested ∧ ∀ t, operation = .enqueueMany t → PushesWhole env

theorem staysDefined (hLawful : D.Lawful minAfterDequeue) :
    StaysDefined (Safe env) (D.runCallback env) := by
  rintro q a hLevel ⟨hReady, hEnv⟩
  rw [runCallback]
  cases hOperation : a.operation with
  | enqueue tuple =>
    simp only [runEnqueue]
    split
    · exact ⟨_, rfl, hLevel, by simp⟩
    · split
      · refine ⟨_, rfl, ?_, by simp⟩
        intro i
        simp only [size, length_append, length_singleton, hLevel i]
      · exact ⟨_, rfl, hLevel, fun _ => ⟨trivial, by simp⟩⟩
  | enqueueMany t =>
    simp only [hOperation] at hReady
    obtain ⟨hBatch, hSmall, hWants, hRest⟩ := hReady
    simp only [runEnqueueMany]
    split
    · exact ⟨_, rfl, hLevel, by simp⟩
    · obtain ⟨r, hRun, hLevel', hStays⟩ :=
        enqueueManyLoop_defined hLawful (hEnv t hOperation) t hBatch
        hSmall (q.capacity - q.size) .noProgress hLevel hWants hRest
      refine ⟨r, hRun, hLevel', fun hNot => ?_⟩
      obtain ⟨-, hWants', hRest'⟩ := hStays hNot
      exact ⟨⟨hBatch, hSmall, hWants', hRest'⟩, fun t' _ => hEnv t hOperation⟩
  | close =>
    simp only [runClose]
    split
    · exact ⟨_, rfl, hLevel, by simp⟩
    · exact ⟨_, rfl, hLevel, by simp⟩
  | dequeue =>
    simp only [runDequeue]
    split
    · exact ⟨_, rfl, hLevel, by simp⟩
    · split
      · rename_i hSome
        have hPos : 0 < q.size := by
          rw [hLawful.available] at hSome
          split at hSome
          · exact hSome
          · omega
        obtain ⟨element, q', hTake, hLevel'⟩ := hLawful.level q hLevel hPos
        rw [hTake]
        exact ⟨_, rfl, hLevel', by simp⟩
      · exact ⟨_, rfl, hLevel, fun _ => ⟨trivial, by simp⟩⟩
  | dequeueMany allowSmallBatch =>
    obtain ⟨r, hRun, hLevel', -⟩ :=
      runDequeueMany_defined env (a := a) hLawful allowSmallBatch hLevel
    exact ⟨r, hRun, hLevel', fun _ => ⟨trivial, by simp⟩⟩

end Discipline

theorem FifoQueue.lawful [Inhabited α] : (FifoQueue.discipline (k := k) (α := α)).Lawful 0 where
  removes q x q' hTake := by
    change FifoQueue.dequeueLocked q = _ at hTake
    rw [FifoQueue.dequeueLocked] at hTake
    split at hTake
    · rename_i hSome
      cases hTake
      refine ⟨_, rfl, ?_⟩
      have hPos := length_pos_of_ne_nil (hSome 0)
      simp only [size, length_tail]
      omega
    · cases hTake
  level q hLevel hPos := by
    refine ⟨elementAt q.queues 0, { q with queues := fun i => (q.queues i).tail }, ?_, ?_⟩
    · change FifoQueue.dequeueLocked q = _
      rw [FifoQueue.dequeueLocked, if_pos]
      intro i
      apply ne_nil_of_length_pos
      rw [hLevel i]
      exact hPos
    · intro i
      simp only [size, length_tail, hLevel i]
  putBack elements value := rfl
  batchIndex index _ _ := rfl
  available q := by
    split
    · rfl
    · rfl

namespace RandomShuffleQueue

theorem length_removeAt (elements : List α) (index : Nat) :
    (removeAt elements index).length = elements.length - 1 := by
  rw [removeAt]
  split
  · rename_i hNone
    rw [getLast?_eq_none_iff.mp hNone]
    rfl
  · rw [length_dropLast, length_set]

theorem lawful [Inhabited α] (settings : Settings) :
    (discipline settings (k := k) (α := α)).Lawful settings.minAfterDequeue where
  removes q x q' hTake := by
    change dequeueLocked settings q = _ at hTake
    rw [dequeueLocked] at hTake
    split at hTake
    · rename_i hSome
      cases hTake
      refine ⟨_, rfl, ?_⟩
      have hPos := hSome 0
      simp only [size, length_removeAt] at hPos ⊢
      omega
    · cases hTake
  level q hLevel hPos := by
    have hIndex : ∀ i, settings.draw q.copies q.completed.length % q.size <
      (q.queues i).length := by
      intro i
      rw [hLevel i]
      exact Nat.mod_lt _ hPos
    have hTake : (discipline settings).dequeueLocked q = _ := if_pos hIndex
    refine ⟨_, _, hTake, ?_⟩
    intro i
    simp only [size, length_removeAt, hLevel i]
  putBack elements value := length_append
  batchIndex index hLow hHigh := by
    change Int.bmod index (2 ^ 32) = index
    rw [Int.bmod_eq_of_le]
    · omega
    · omega
  available q := rfl

end RandomShuffleQueue

end TensorFlowOnSpark.Kernels
