import TensorFlowOnSpark.Kernels.QueueBaseWakeup

/-!
# A flush leaves no attempt that could go on

The two passes of a flush, for a queue whose runs behave well. Each turn of the flush that is
followed by another one lowers `effort`.
-/

namespace TensorFlowOnSpark.Kernels.QueueBase

universe u

open List

variable {k : Nat} {α : Type u} {Regular : Prop} {Fit : Operation k α → Int → Prop}
  {Waits : Nat → Attempt k α → Prop} {a : Attempt k α}
  {es ds : List (Attempt k α)} {q₀ q q' : QueueBase k α} {r : Run k α}
  {run : QueueBase k α → Attempt k α → Except Fault (Run k α)}

structure Enqueuing (Regular : Prop) (Fit : Operation k α → Int → Prop) (q₀ : QueueBase k α)
    (ds es : List (Attempt k α)) (q : QueueBase k α) : Prop where
  kept : Kept Regular Fit es ds q
  calls : q.calls = q₀.calls
  capacity : q.capacity = q₀.capacity
  dequeueAttempts : q.dequeueAttempts = ds
  closing : Closing q₀.enqueueAttempts q₀ ↔ Closing es q
  completed : q₀.completed <+: q.completed

structure Dequeuing (Regular : Prop) (Fit : Operation k α → Int → Prop) (q₀ : QueueBase k α)
    (es ds : List (Attempt k α)) (q : QueueBase k α) : Prop where
  kept : Kept Regular Fit es ds q
  calls : q.calls = q₀.calls
  capacity : q.capacity = q₀.capacity
  enqueueAttempts : q.enqueueAttempts = es
  opened : Open q
  closing : Closing q₀.enqueueAttempts q₀ ↔ Closing es q
  completed : q₀.completed <+: q.completed

def enqueueCost (ds es : List (Attempt k α)) (q : QueueBase k α) : Nat :=
  es.length + 2 * workOf ds + q.room

def dequeueCost (es ds : List (Attempt k α)) (q : QueueBase k α) : Nat :=
  es.length + 2 * workOf ds + q.room

def Full (q : QueueBase k α) (a : Attempt k α) : Prop := q.capacity ≤ q.size ∧ a.operation ≠ .close

def Few (Waits : Nat → Attempt k α → Prop) (q : QueueBase k α) (a : Attempt k α) : Prop :=
  q.closed = false ∧ Waits q.size a

theorem closing_skip (hCancelled : a.isCancelled) : Closing (a :: es) q ↔ Closing es q := by
  refine or_congr_right ?_
  rw [exists_mem_cons_iff]
  refine or_iff_right ?_
  rintro ⟨-, hActive⟩
  rw [hCancelled] at hActive
  cases hActive

theorem EnqueueRun.closing_completes (hRun : EnqueueRun q a r) (hActive : a.isCancelled = false)
    (hClose : a.operation = .close → r.queue.closed) :
    Closing (a :: es) q ↔ Closing es (r.queue.finish r.attempt) := by
  rw [Closing, exists_mem_cons_iff, ← or_assoc]
  refine or_congr_left ⟨?_, fun hClosed => ?_⟩
  · rintro (hClosed | ⟨hOperation, -⟩)
    · exact hRun.closed hClosed
    · exact hClose hOperation
  · exact (hRun.closes hClosed).imp_right fun hOperation => ⟨hOperation, hActive⟩

theorem EnqueueRun.closing_stays (hRun : EnqueueRun q a r) (hActive : a.isCancelled = false) :
    Closing (a :: es) q ↔ Closing (r.attempt :: es) r.queue := by
  rw [Closing, exists_mem_cons_iff, Closing, exists_mem_cons_iff, ← or_assoc, ← or_assoc,
    hRun.frame.operation, hRun.frame.isCancelled]
  refine or_congr_left ⟨?_, ?_⟩
  · exact Or.imp_left hRun.closed
  · rintro (hClosed | hOperation)
    · exact (hRun.closes hClosed).imp_right fun hOperation => ⟨hOperation, hActive⟩
    · exact .inr hOperation

theorem closing_congr (hClosed : q'.closed = q.closed) : Closing es q ↔ Closing es q' := by
  rw [Closing, Closing, hClosed]

theorem Frame.finished (hFrame : Frame q a r) (h : q₀.completed <+: q.completed) :
    q₀.completed <+: (r.queue.finish r.attempt).completed := by
  rw [finish, hFrame.completed]
  exact h.trans (prefix_append _ _)

theorem enqueuing_skip (a : Attempt k α) (rest : List (Attempt k α)) (q : QueueBase k α)
    (hCancelled : a.isCancelled) (h : Enqueuing Regular Fit q₀ ds (a :: rest) q) :
    Enqueuing Regular Fit q₀ ds rest q ∧ enqueueCost ds rest q ≤ enqueueCost ds (a :: rest) q := by
  refine ⟨{ h with
    kept := h.kept.skipEnqueue hCancelled
    closing := h.closing.trans (closing_skip hCancelled) }, ?_⟩
  simp only [enqueueCost, length_cons]
  omega

theorem dequeuing_skip (a : Attempt k α) (rest : List (Attempt k α)) (q : QueueBase k α)
    (hCancelled : a.isCancelled) (h : Dequeuing Regular Fit q₀ es (a :: rest) q) :
    Dequeuing Regular Fit q₀ es rest q ∧ dequeueCost es rest q ≤ dequeueCost es (a :: rest) q := by
  refine ⟨{ h with kept := h.kept.skipDequeue hCancelled }, ?_⟩
  simp only [dequeueCost, workOf_cons]
  omega

theorem EnqueueRun.passes (hRun : run q a = .ok r) (hEnqueue : EnqueueRun q a r)
    (hClose : a.operation = .close → r.result = .complete ∧ r.queue.closed)
    (hDefined : Regular → StaysDefined Fit run) (h : Enqueuing Regular Fit q₀ ds (a :: es) q)
    (hActive : a.isCancelled = false) :
    Passes (Enqueuing Regular Fit q₀ ds) Full (fun q => q.closed = false)
      (enqueueCost ds) a es q r := by
  have hFrame := hEnqueue.frame
  have hLevel : Regular → Level r.queue ∧
      (r.result ≠ .complete → Fit a.operation r.attempt.elementsRequested) := fun hRegular =>
    (hDefined hRegular).level hRun (h.kept.level hRegular)
      (h.kept.ready hRegular a (mem_cons_self ..))
  constructor
  · intro _
    have hRoom : (r.queue.finish r.attempt).room ≤ q.room := hEnqueue.room
    refine ⟨⟨h.kept.enqueueCompletes hActive hFrame fun hRegular => (hLevel hRegular).1,
      hFrame.calls.trans h.calls, hFrame.capacity.trans h.capacity,
      hFrame.dequeueAttempts.trans h.dequeueAttempts, h.closing.trans
        (hEnqueue.closing_completes hActive fun hOperation => (hClose hOperation).2),
      hFrame.finished h.completed⟩, ?_⟩
    simp only [enqueueCost, length_cons]
    omega
  · intro hProgress
    have hStays : r.result ≠ .complete := by
      rw [hProgress]
      nofun
    have hRoom := hEnqueue.progress hProgress
    refine ⟨⟨h.kept.enqueueStays hFrame fun hRegular => (hLevel hRegular).imp_right (· hStays),
      hFrame.calls.trans h.calls, hFrame.capacity.trans h.capacity,
      hFrame.dequeueAttempts.trans h.dequeueAttempts, h.closing.trans
        (hEnqueue.closing_stays hActive), hFrame.completed ▸ h.completed⟩,
      hEnqueue.opened hStays, ?_⟩
    simp only [enqueueCost, length_cons]
    omega
  · intro hIdle
    obtain ⟨hQueue, hAttempt, hFull⟩ := hEnqueue.idle hIdle
    have hOpen := hEnqueue.opened (by rw [hIdle]; nofun)
    rw [hQueue] at hOpen
    refine ⟨hQueue, hAttempt, hOpen, hFull, fun hOperation => ?_⟩
    rw [(hClose hOperation).1] at hIdle
    cases hIdle

theorem DequeueRun.passes (hRun : run q a = .ok r) (hDequeue : DequeueRun Waits q a r)
    (hDefined : Regular → StaysDefined Fit run) (h : Dequeuing Regular Fit q₀ es (a :: ds) q)
    (hActive : a.isCancelled = false) :
    Passes (Dequeuing Regular Fit q₀ es) (Few Waits) (fun _ => True) (dequeueCost es)
      a ds q r := by
  have hFrame := hDequeue.frame
  have hLevel : Regular → Level r.queue ∧
      (r.result ≠ .complete → Fit a.operation r.attempt.elementsRequested) := fun hRegular =>
    (hDefined hRegular).level hRun (h.kept.level hRegular) (h.kept.ready hRegular a (by simp))
  have hOpen : Open r.queue := fun hClosed =>
    hFrame.enqueueAttempts.trans (h.opened (hDequeue.closed ▸ hClosed))
  have hClosing : Closing q₀.enqueueAttempts q₀ ↔ Closing es r.queue :=
    h.closing.trans (closing_congr hDequeue.closed)
  constructor
  · intro _
    have hRoom : (r.queue.finish r.attempt).room ≤ q.room + a.elementsRequested.toNat :=
      hDequeue.room
    refine ⟨⟨h.kept.dequeueCompletes hActive hFrame fun hRegular => (hLevel hRegular).1,
      hFrame.calls.trans h.calls, hFrame.capacity.trans h.capacity,
      hFrame.enqueueAttempts.trans h.enqueueAttempts, hOpen, hClosing,
      hFrame.finished h.completed⟩, ?_⟩
    simp only [dequeueCost, workOf_cons]
    omega
  · intro hProgress
    have hStays : r.result ≠ .complete := by
      rw [hProgress]
      nofun
    obtain ⟨hRoom, hLess⟩ := hDequeue.progress hProgress
    refine ⟨⟨h.kept.dequeueStays hFrame (hDequeue.wants hStays) fun hRegular =>
        (hLevel hRegular).imp_right (· hStays),
      hFrame.calls.trans h.calls, hFrame.capacity.trans h.capacity,
      hFrame.enqueueAttempts.trans h.enqueueAttempts, hOpen, hClosing,
      hFrame.completed ▸ h.completed⟩,
      trivial, ?_⟩
    simp only [dequeueCost, workOf_cons]
    omega
  · intro hIdle
    obtain ⟨hQueue, hAttempt, hFew⟩ := hDequeue.idle hIdle
    exact ⟨hQueue, hAttempt, trivial, hFew⟩

theorem Kept.setAttempts (h : Kept Regular Fit es ds q) (es' ds' : List (Attempt k α)) :
    Kept Regular Fit es ds { q with enqueueAttempts := es', dequeueAttempts := ds' } :=
  ⟨h.enqueues, h.dequeues, h.answers, h.level, h.ready⟩

structure Steady (Regular : Prop) (Fit : Operation k α → Int → Prop) (q₀ q : QueueBase k α) :
    Prop where
  kept : Kept Regular Fit q.enqueueAttempts q.dequeueAttempts q
  calls : q.calls = q₀.calls
  capacity : q.capacity = q₀.capacity
  closing : Closing q₀.enqueueAttempts q₀ ↔ Closing q.enqueueAttempts q
  completed : q₀.completed <+: q.completed

section Flush

variable (hWell : BehavesWell Waits run) (hDefined : Regular → StaysDefined Fit run)

include hWell hDefined

theorem enqueuing_passes (a : Attempt k α) (rest : List (Attempt k α)) (q : QueueBase k α)
    (r : Run k α) (h : Enqueuing Regular Fit q₀ ds (a :: rest) q) (hActive : a.isCancelled = false)
    (hRun : run q a = .ok r) :
    Passes (Enqueuing Regular Fit q₀ ds) Full (fun q => q.closed = false) (enqueueCost ds)
      a rest q r :=
  have hKind := h.kept.enqueues a (mem_cons_self ..)
  (hWell.enqueue q a r hKind hRun).passes hRun
    (fun hOperation => hWell.close q a r hOperation hRun) hDefined h hActive

theorem dequeuing_passes (a : Attempt k α) (rest : List (Attempt k α)) (q : QueueBase k α)
    (r : Run k α) (h : Dequeuing Regular Fit q₀ es (a :: rest) q) (hActive : a.isCancelled = false)
    (hRun : run q a = .ok r) :
    Passes (Dequeuing Regular Fit q₀ es) (Few Waits) (fun _ => True) (dequeueCost es)
      a rest q r :=
  have hKind := h.kept.dequeues a (mem_cons_self ..)
  (hWell.dequeue q a r hKind.1 hKind.2 h.opened hRun).passes hRun hDefined h hActive

theorem tryEnqueues_steady (h : Steady Regular Fit q₀ q) {progress : Bool}
    (hPass : tryEnqueues run q = .ok (progress, q')) :
    (Steady Regular Fit q₀ q' ∧ Open q') ∧ q'.effort ≤ q.effort ∧
      (progress → q'.effort < q.effort) ∧
      (progress = false → q' = { q with enqueueAttempts := q'.enqueueAttempts } ∧
        (q'.enqueueAttempts = [] ∨ ∃ a rest, q'.enqueueAttempts = a :: rest ∧
          q.closed = false ∧ q.capacity ≤ q.size ∧ a.operation ≠ .close)) := by
  rw [tryEnqueues] at hPass
  split at hPass
  · cases hPass
  · rename_i pass hEq
    cases hPass
    obtain ⟨hInv, hStop, hLe, hLt, hIdle⟩ := tryAttempts_rule enqueuing_skip
      (enqueuing_passes hWell hDefined) ⟨h.kept, h.calls, h.capacity, rfl, h.closing,
        h.completed⟩ hEq
    have hAttempts := hInv.dequeueAttempts
    refine ⟨⟨⟨?_, hInv.calls, hInv.capacity, hInv.closing.trans (closing_congr rfl),
      hInv.completed⟩, ?_⟩, ?_, ?_, ?_⟩
    · simp only [hAttempts]
      exact hInv.kept.setAttempts pass.attempts q.dequeueAttempts
    · intro hClosed
      refine hStop.resolve_right ?_
      rw [show pass.queue.closed from hClosed]
      nofun
    · simpa only [effort, enqueueCost, hAttempts, room, size] using hLe
    · simpa only [effort, enqueueCost, hAttempts, room, size] using hLt
    · intro hSame
      obtain ⟨hQueue, hFull⟩ := hIdle hSame
      rw [hQueue] at hStop ⊢
      refine ⟨rfl, ?_⟩
      rcases hFull with hNil | hFull
      · exact .inl hNil
      · obtain ⟨a, rest, hFront, hFull⟩ := hFull
        exact hStop.imp_right fun hOpen => ⟨a, rest, hFront, hOpen, hFull⟩

theorem tryDequeues_steady (h : Steady Regular Fit q₀ q ∧ Open q) {progress : Bool}
    (hPass : tryDequeues run q = .ok (progress, q')) :
    Steady Regular Fit q₀ q' ∧ q'.effort ≤ q.effort ∧
      (progress → q'.effort < q.effort) ∧
      (progress = false → q' = { q with dequeueAttempts := q'.dequeueAttempts } ∧
        (q'.dequeueAttempts = [] ∨
          ∃ a rest, q'.dequeueAttempts = a :: rest ∧ q.closed = false ∧ Waits q.size a)) := by
  rw [tryDequeues] at hPass
  split at hPass
  · cases hPass
  · rename_i pass hEq
    cases hPass
    obtain ⟨hInv, -, hLe, hLt, hIdle⟩ := tryAttempts_rule dequeuing_skip
      (dequeuing_passes hWell hDefined) ⟨h.1.kept, h.1.calls, h.1.capacity, rfl, h.2, h.1.closing,
      h.1.completed⟩ hEq
    have hAttempts := hInv.enqueueAttempts
    refine ⟨⟨?_, hInv.calls, hInv.capacity, ?_, hInv.completed⟩, ?_, ?_, ?_⟩
    · simp only [hAttempts]
      exact hInv.kept.setAttempts q.enqueueAttempts pass.attempts
    · simp only [hAttempts]
      exact hInv.closing.trans (closing_congr rfl)
    · simpa only [effort, dequeueCost, hAttempts, room, size] using hLe
    · simpa only [effort, dequeueCost, hAttempts, room, size] using hLt
    · intro hSame
      obtain ⟨hQueue, hFew⟩ := hIdle hSame
      rw [hQueue]
      exact ⟨rfl, hFew⟩

theorem flushLoop_settled (h : Steady Regular Fit q₀ q) :
    (∃ q', flushLoop run (q.effort + 1) q = .ok (some q') ∧ Steady Regular Fit q₀ q' ∧
        Settled Waits q') ∨
      ∃ fault, flushLoop run (q.effort + 1) q = .error fault := by
  have hEnqueues : ∀ q progress q', Steady Regular Fit q₀ q →
      tryEnqueues run q = .ok (progress, q') → (Steady Regular Fit q₀ q' ∧ Open q') ∧
        q'.effort ≤ q.effort ∧ (progress → q'.effort < q.effort) := by
    intro q progress q' hInv hPass
    obtain ⟨hMid, hLe, hLt, -⟩ := tryEnqueues_steady hWell hDefined hInv hPass
    exact ⟨hMid, hLe, hLt⟩
  have hDequeues : ∀ q progress q', Steady Regular Fit q₀ q ∧ Open q →
      tryDequeues run q = .ok (progress, q') → Steady Regular Fit q₀ q' ∧
        q'.effort ≤ q.effort ∧ (progress → q'.effort < q.effort) := by
    intro q progress q' hMid hPass
    obtain ⟨hInv, hLe, hLt, -⟩ := tryDequeues_steady hWell hDefined hMid hPass
    exact ⟨hInv, hLe, hLt⟩
  refine flushLoop_rule hEnqueues hDequeues ?_ h (Nat.lt_succ_self _)
  intro q q' q'' hInv hFirst hMid hSecond
  obtain ⟨-, -, -, hFull⟩ := tryEnqueues_steady hWell hDefined hInv hFirst
  obtain ⟨-, -, -, hFew⟩ := tryDequeues_steady hWell hDefined hMid hSecond
  obtain ⟨hQueue', hFull⟩ := hFull rfl
  obtain ⟨hQueue'', hFew⟩ := hFew rfl
  rw [hQueue'']
  refine ⟨fun a rest hFront => ?_, fun a rest hFront => ?_⟩
  · have hFront' : q'.enqueueAttempts = a :: rest := by
      exact hFront
    obtain ⟨a', rest', hFront'', hFull⟩ := hFull.resolve_left (by rw [hFront']; nofun)
    cases hFront'.symm.trans hFront''
    rw [hQueue']
    exact hFull
  · have hNone : q''.dequeueAttempts ≠ [] := by
      rw [show q''.dequeueAttempts = a :: rest from hFront]
      nofun
    obtain ⟨a', rest', hFront', hWaits⟩ := hFew.resolve_left hNone
    cases hFront.symm.trans hFront'
    exact hWaits

theorem tryEnqueues_defined (h : Steady Regular Fit q₀ q) (hRegular : Regular) :
    ∃ progress q', tryEnqueues run q = .ok (progress, q') ∧ Steady Regular Fit q₀ q' ∧ Open q' := by
  have hRun : ∀ a rest q', Enqueuing Regular Fit q₀ q.dequeueAttempts (a :: rest) q' →
      a.isCancelled = false → ∃ r, run q' a = .ok r ∧
        (r.result = .complete →
          Enqueuing Regular Fit q₀ q.dequeueAttempts rest (r.queue.finish r.attempt)) := by
    intro a rest q' hInv hActive
    obtain ⟨r, hRun, -⟩ := hDefined hRegular q' a (hInv.kept.level hRegular)
      (hInv.kept.ready hRegular a (mem_cons_self ..))
    exact ⟨r, hRun, fun hComplete =>
      ((enqueuing_passes hWell hDefined a rest q' r hInv hActive hRun).complete hComplete).1⟩
  have hSkip : ∀ a rest q', a.isCancelled →
      Enqueuing Regular Fit q₀ q.dequeueAttempts (a :: rest) q' →
        Enqueuing Regular Fit q₀ q.dequeueAttempts rest q' :=
    fun a rest q' hCancelled hInv => (enqueuing_skip a rest q' hCancelled hInv).1
  obtain ⟨pass, hPass⟩ :=
    tryAttempts_defined hSkip hRun ⟨h.kept, h.calls, h.capacity, rfl, h.closing, h.completed⟩
  have hEq : tryEnqueues run q =
      .ok (pass.progress, { pass.queue with enqueueAttempts := pass.attempts }) := by
    simp only [tryEnqueues, hPass]
  exact ⟨_, _, hEq, (tryEnqueues_steady hWell hDefined h hEq).1⟩

theorem tryDequeues_defined (h : Steady Regular Fit q₀ q ∧ Open q) (hRegular : Regular) :
    ∃ progress q', tryDequeues run q = .ok (progress, q') ∧ Steady Regular Fit q₀ q' := by
  have hRun : ∀ a rest q', Dequeuing Regular Fit q₀ q.enqueueAttempts (a :: rest) q' →
      a.isCancelled = false → ∃ r, run q' a = .ok r ∧
        (r.result = .complete →
          Dequeuing Regular Fit q₀ q.enqueueAttempts rest (r.queue.finish r.attempt)) := by
    intro a rest q' hInv hActive
    obtain ⟨r, hRun, -⟩ := hDefined hRegular q' a (hInv.kept.level hRegular)
      (hInv.kept.ready hRegular a (by simp))
    exact ⟨r, hRun, fun hComplete =>
      ((dequeuing_passes hWell hDefined a rest q' r hInv hActive hRun).complete hComplete).1⟩
  have hSkip : ∀ a rest q', a.isCancelled →
      Dequeuing Regular Fit q₀ q.enqueueAttempts (a :: rest) q' →
        Dequeuing Regular Fit q₀ q.enqueueAttempts rest q' :=
    fun a rest q' hCancelled hInv => (dequeuing_skip a rest q' hCancelled hInv).1
  obtain ⟨pass, hPass⟩ :=
    tryAttempts_defined hSkip hRun ⟨h.1.kept, h.1.calls, h.1.capacity, rfl, h.2, h.1.closing,
      h.1.completed⟩
  have hEq : tryDequeues run q =
      .ok (pass.progress, { pass.queue with dequeueAttempts := pass.attempts }) := by
    simp only [tryDequeues, hPass]
  exact ⟨_, _, hEq, (tryDequeues_steady hWell hDefined h hEq).1⟩

theorem flushLoop_regular (h : Steady Regular Fit q₀ q) (hRegular : Regular) (turns : Nat)
    (fault : Fault) : flushLoop run turns q ≠ .error fault :=
  flushLoop_defined (fun _ hInv => tryEnqueues_defined hWell hDefined hInv hRegular)
    (fun _ hMid => tryDequeues_defined hWell hDefined hMid hRegular) turns h fault

end Flush

end TensorFlowOnSpark.Kernels.QueueBase
