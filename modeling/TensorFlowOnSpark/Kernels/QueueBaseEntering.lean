import TensorFlowOnSpark.Kernels.FifoQueueHistory
import TensorFlowOnSpark.Kernels.QueueBaseSettled
import TensorFlowOnSpark.Kernels.QueueDiscipline

/-!
# A call is answered or waits

What a call does before its flush: it is answered at once, or it has an attempt that waits in
one of the deques.
-/

namespace TensorFlowOnSpark.Kernels

open Framework QueueBase FifoQueue List

universe u

variable {k : Nat} {α : Type u} {Regular Regular' : Prop} {Fit : Operation k α → Int → Prop}
  {es ds : List (Attempt k α)} {q : QueueBase k α}

namespace QueueBase

theorem Kept.mono (h : Kept Regular Fit es ds q) (hSub : Regular' → Regular) :
    Kept Regular' Fit es ds q :=
  ⟨h.enqueues, h.dequeues, h.answers, fun hRegular => h.level (hSub hRegular),
    fun hRegular => h.ready (hSub hRegular)⟩

theorem Kept.answer (h : Kept Regular Fit es ds q) (status : Status) (done : Done k α)
    (call : Call k α) :
    Kept Regular Fit es ds { FifoQueue.answer q status done with calls := q.calls ++ [call] } where
  enqueues := h.enqueues
  dequeues := h.dequeues
  answers := by
    simp only [FifoQueue.answer, map_append, append_assoc, length_append, length_singleton,
      range_succ]
    have hLast : ([q.calls.length] ++ (waiting es ++ waiting ds)).Perm
        (waiting es ++ waiting ds ++ [q.calls.length]) := perm_append_comm
    refine (Perm.append_left _ hLast).trans ?_
    rw [← append_assoc]
    exact h.answers.append_right _
  level := h.level
  ready := h.ready

theorem waiting_append (es es' : List (Attempt k α)) :
    waiting (es ++ es') = waiting es ++ waiting es' := by
  simp only [waiting, filter_append, map_append]

theorem Kept.pushEnqueue (h : Kept Regular Fit es ds q) (operation : Operation k α)
    (elementsRequested : Int) (hKind : operation.isDequeue = false) (call : Call k α)
    (hReady : Regular → Fit operation elementsRequested) :
    Kept Regular Fit (es ++ [newAttempt q operation elementsRequested]) ds
      { q with calls := q.calls ++ [call] } where
  enqueues a ha := by
    rcases mem_append.mp ha with ha | ha
    · exact h.enqueues a ha
    · rw [mem_singleton.mp ha]
      exact hKind
  dequeues := h.dequeues
  answers := by
    rw [waiting_append, length_append, length_singleton, range_succ]
    have hNew : waiting [newAttempt q operation elementsRequested] = [q.calls.length] := rfl
    rw [append_assoc, ← append_assoc]
    refine (Perm.append_left _ perm_append_comm).trans ?_
    rw [append_assoc, ← append_assoc (waiting es), ← append_assoc]
    exact h.answers.append_right _
  level := h.level
  ready hRegular a ha := by
    simp only [mem_append, mem_singleton] at ha
    rcases ha with (ha | rfl) | ha
    · exact h.ready hRegular a (mem_append_left _ ha)
    · exact hReady hRegular
    · exact h.ready hRegular a (mem_append_right _ ha)

theorem Kept.pushDequeue (h : Kept Regular Fit es ds q) (operation : Operation k α)
    (elementsRequested : Int) (hKind : operation.isDequeue) (hWants : 0 < elementsRequested)
    (call : Call k α) (hReady : Regular → Fit operation elementsRequested) :
    Kept Regular Fit es (ds ++ [newAttempt q operation elementsRequested])
      { q with calls := q.calls ++ [call] } where
  enqueues := h.enqueues
  dequeues a ha := by
    rcases mem_append.mp ha with ha | ha
    · exact h.dequeues a ha
    · rw [mem_singleton.mp ha]
      exact ⟨hKind, hWants⟩
  answers := by
    rw [waiting_append, length_append, length_singleton, range_succ]
    have hNew : waiting [newAttempt q operation elementsRequested] = [q.calls.length] := rfl
    rw [← append_assoc (waiting es), ← append_assoc]
    exact h.answers.append_right _
  level := h.level
  ready hRegular a ha := by
    simp only [mem_append, mem_singleton] at ha
    rcases ha with ha | ha | rfl
    · exact h.ready hRegular a (mem_append_left _ ha)
    · exact h.ready hRegular a (mem_append_right _ ha)
    · exact hReady hRegular

theorem setStatus_operation (a : Attempt k α) (status : Status) :
    (a.setStatus status).operation = a.operation := by
  obtain ⟨status', hEq⟩ := setStatus_eq a status
  rw [hEq]

theorem setStatus_isCancelled (a : Attempt k α) (status : Status) :
    (a.setStatus status).isCancelled = a.isCancelled := by
  obtain ⟨status', hEq⟩ := setStatus_eq a status
  rw [hEq]

theorem setStatus_elementsRequested (a : Attempt k α) (status : Status) :
    (a.setStatus status).elementsRequested = a.elementsRequested := by
  obtain ⟨status', hEq⟩ := setStatus_eq a status
  rw [hEq]

/-- What `Cancel` leaves of an attempt. -/
structure SameBut (a b : Attempt k α) : Prop where
  operation : b.operation = a.operation
  elementsRequested : b.elementsRequested = a.elementsRequested

theorem waiting_closeAndCancel (q : QueueBase k α) :
    waiting q.closeAndCancel.enqueueAttempts = [] := by
  simp only [waiting, closeAndCancel, map_eq_nil_iff, filter_eq_nil_iff, mem_map]
  rintro _ ⟨a, -, rfl⟩
  split
  · rename_i hCancelled
    simp [hCancelled]
  · rw [Attempt.cancelEnqueue, setStatus_isCancelled]
    simp

theorem Kept.closeAndCancel (h : Kept Regular Fit q.enqueueAttempts q.dequeueAttempts q) :
    Kept Regular Fit q.closeAndCancel.enqueueAttempts q.closeAndCancel.dequeueAttempts
      q.closeAndCancel := by
  have hSame : ∀ b ∈ q.closeAndCancel.enqueueAttempts, ∃ a ∈ q.enqueueAttempts, SameBut a b := by
    intro b hb
    obtain ⟨a, ha, rfl⟩ := mem_map.mp hb
    refine ⟨a, ha, ?_⟩
    split
    · exact ⟨rfl, rfl⟩
    · exact ⟨setStatus_operation _ _, setStatus_elementsRequested _ _⟩
  have hPending : (((q.enqueueAttempts.filter fun a => !a.isCancelled).map
      Attempt.cancelEnqueue).map fun a => a.id) = waiting q.enqueueAttempts := by
    rw [map_map]
    apply map_congr_left
    intro a _
    exact setStatus_id _
  constructor
  · intro b hb
    obtain ⟨a, ha, hSame'⟩ := hSame b hb
    rw [hSame'.operation]
    exact h.enqueues a ha
  · exact h.dequeues
  · rw [waiting_closeAndCancel]
    simp only [QueueBase.closeAndCancel, map_append, map_map]
    rw [append_assoc]
    rw [map_map] at hPending
    have hIds := h.answers
    rw [← hPending] at hIds
    exact hIds
  · exact h.level
  · intro hRegular b hb
    rcases mem_append.mp hb with hb | hb
    · obtain ⟨a, ha, hSame'⟩ := hSame b hb
      rw [hSame'.operation, hSame'.elementsRequested]
      exact h.ready hRegular a (mem_append_left _ ha)
    · exact h.ready hRegular b (mem_append_right _ hb)

section Enter

variable {call : Call k α}

def FitCall (Fit : Operation k α → Int → Prop) : Call k α → Prop
  | .tryEnqueue x => Fit (.enqueue x) 1
  | .tryEnqueueMany t => (t 0).length ≠ 0 → Fit (.enqueueMany t) (toInt32 (t 0).length)
  | .tryDequeue => Fit .dequeue 1
  | .tryDequeueMany n allowSmallBatch => Fit (.dequeueMany allowSmallBatch) n
  | .close _ => Fit .close 0

theorem Kept.enterWith (h : Kept Regular Fit q.enqueueAttempts q.dequeueAttempts q)
    (unspecifiedShapes : Status) (hSub : Regular' → Regular ∧ FitCall Fit call) :
    Kept Regular' Fit (q.enterWith unspecifiedShapes call).enqueueAttempts
      (q.enterWith unspecifiedShapes call).dequeueAttempts
      { q.enterWith unspecifiedShapes call with calls := q.calls ++ [call] } := by
  have h' := h.mono fun hRegular => (hSub hRegular).1
  cases call with
  | tryEnqueue tuple =>
    exact (h'.pushEnqueue (.enqueue tuple) 1 rfl _ fun hRegular => (hSub hRegular).2).setAttempts _
      _
  | tryEnqueueMany t =>
    rw [enterWith]
    split
    · exact h'.answer _ _ _
    · rename_i hSome
      exact (h'.pushEnqueue (.enqueueMany t) (toInt32 (t 0).length) rfl _ fun hRegular =>
        (hSub hRegular).2 hSome).setAttempts _ _
  | tryDequeue =>
    exact (h'.pushDequeue .dequeue 1 rfl (by omega) _ fun hRegular =>
      (hSub hRegular).2).setAttempts _ _
  | tryDequeueMany numElements allowSmallBatch =>
    rw [enterWith]
    split
    · exact h'.answer _ _ _
    · split
      · exact h'.answer _ _ _
      · rename_i hSome
        exact (h'.pushDequeue (.dequeueMany allowSmallBatch) numElements rfl (by omega) _
          fun hRegular => (hSub hRegular).2).setAttempts _ _
  | close cancelPendingEnqueues =>
    cases cancelPendingEnqueues with
    | true => exact h'.closeAndCancel.answer _ _ _
    | false =>
      exact (h'.pushEnqueue .close 0 rfl _ fun hRegular => (hSub hRegular).2).setAttempts _ _

theorem enterWith_capacity (unspecifiedShapes : Status) (q : QueueBase k α) (call : Call k α) :
    (q.enterWith unspecifiedShapes call).capacity = q.capacity := by
  cases call with
  | tryEnqueue tuple => rfl
  | tryEnqueueMany t =>
    rw [enterWith]
    split
    · rfl
    · rfl
  | tryDequeue => rfl
  | tryDequeueMany numElements allowSmallBatch =>
    rw [enterWith]
    split
    · rfl
    · split
      · rfl
      · rfl
  | close cancelPendingEnqueues =>
    cases cancelPendingEnqueues with
    | true => rfl
    | false => rfl

theorem enterWith_completed (unspecifiedShapes : Status) (q : QueueBase k α) (call : Call k α) :
    q.completed <+: (q.enterWith unspecifiedShapes call).completed := by
  cases call with
  | tryEnqueue tuple => exact prefix_refl _
  | tryEnqueueMany t =>
    rw [enterWith]
    split
    · exact prefix_append _ _
    · exact prefix_refl _
  | tryDequeue => exact prefix_refl _
  | tryDequeueMany numElements allowSmallBatch =>
    rw [enterWith]
    split
    · exact prefix_append _ _
    · split
      · exact prefix_append _ _
      · exact prefix_refl _
  | close cancelPendingEnqueues =>
    cases cancelPendingEnqueues with
    | true => exact (prefix_append _ _).trans (prefix_append _ _)
    | false => exact prefix_refl _

end Enter

end QueueBase

end TensorFlowOnSpark.Kernels
