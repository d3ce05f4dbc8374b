import TensorFlowOnSpark.Kernels.FifoQueueAlignment

/-!
# Cancelled dequeues of a FIFO queue

A cancelled attempt stays in its deque until a flush skips it.
-/

namespace TensorFlowOnSpark.Kernels.FifoQueue

open Framework Transition QueueBase List

universe u

variable {k : Nat} {α : Type u} {env : Env k} {a : Attempt k α} {es ds : List (Attempt k α)}
  {q q' : QueueBase k α} {r : Run k α}

def live (attempts : List (Attempt k α)) : List (Attempt k α) :=
  attempts.filter fun a => !a.isCancelled

variable {rest : List (Attempt k α)}

theorem live_cancelled (h : a.isCancelled) :
    live (a :: rest) = live rest :=
  filter_cons_of_neg (by simp [h])

theorem live_active (h : a.isCancelled = false) :
    live (a :: rest) = a :: live rest :=
  filter_cons_of_pos (by simp [h])

theorem live_append (es es' : List (Attempt k α)) : live (es ++ es') = live es ++ live es' :=
  filter_append ..

theorem cancelFirst_cases (matching : Nat → Bool) (status : Status)
    (attempts : List (Attempt k α)) :
    cancelFirst matching status attempts = (attempts, none) ∧
        (∀ a, attempts.find? (fun a => matching a.id) = some a → a.isCancelled) ∨
      ∃ before a after, attempts = before ++ a :: after ∧ a.isCancelled = false ∧
        attempts.find? (fun a => matching a.id) = some a ∧
        cancelFirst matching status attempts =
          (before ++ { a with isCancelled := true }.setStatus status :: after,
            some ({ a with isCancelled := true }.setStatus status)) := by
  induction attempts with
  | nil => exact .inl ⟨rfl, nofun⟩
  | cons a rest ih =>
    rw [cancelFirst, find?_cons]
    cases hMatch : matching a.id with
    | true =>
      simp only [if_true]
      cases hCancelled : a.isCancelled with
      | true =>
        refine .inl ⟨rfl, fun b hb => ?_⟩
        cases hb
        exact hCancelled
      | false => exact .inr ⟨[], a, rest, rfl, hCancelled, rfl, rfl⟩
    | false =>
      simp only [Bool.false_eq_true, if_false]
      rcases ih with ⟨hSame, hNone⟩ | ⟨before, b, after, rfl, hActive, hFind, hEq⟩
      · rw [hSame]
        exact .inl ⟨rfl, hNone⟩
      · rw [hEq]
        exact .inr ⟨a :: before, b, after, rfl, hActive, hFind, rfl⟩

variable [Inhabited α]

def heldByPending (q : QueueBase k α) : List (Tuple k α) :=
  (live q.dequeueAttempts).flatMap heldBy

def LiveSound (env : Env k) (q : QueueBase k α) : Prop :=
  Ordered env q.enqueueAttempts (live q.dequeueAttempts) q

variable {calls : List (Call k α)} {held : List (Tuple k α)}

theorem Dequeues.heldBy (h : Dequeues calls a held) : heldBy a = held := by
  have hOperation := h.operation
  split at hOperation
  · rw [FifoQueue.heldBy, hOperation.2.1, hOperation.1]
  · exact hOperation.1.heldBy
  · exact hOperation.elim

omit [Inhabited α] in
theorem Dequeues.known {calls : List (Call k α)} {held : List (Tuple k α)}
    (h : Dequeues calls a held) : a.id < calls.length := by
  have hOperation := h.operation
  split at hOperation
  · exact lt_of_getElem?_eq_some hOperation.2.2
  · obtain ⟨-, n, hCall, -⟩ := hOperation
    exact lt_of_getElem?_eq_some hCall
  · exact hOperation.elim

theorem Front.flatMap_heldBy {attempts : List (Attempt k α)} (h : Front calls held attempts) :
    attempts.flatMap heldBy = held := by
  cases attempts with
  | nil => exact (show held = [] from h).symm
  | cons a rest =>
    rw [flatMap_cons, h.1.heldBy,
      flatMap_eq_nil_iff.mpr fun b hb => (h.2 b hb).heldBy, append_nil]

def Enqueuing (env : Env k) (ds es : List (Attempt k α)) (q : QueueBase k α) : Prop :=
  Ordered env es (live ds) q ∧ q.dequeueAttempts = ds

def Dequeuing (env : Env k) (es ds : List (Attempt k α)) (q : QueueBase k α) : Prop :=
  Ordered env es (live ds) q ∧ q.enqueueAttempts = es ∧ Settled q

section

variable (h : LiveSound env q)

include h

theorem LiveSound.tryEnqueues {progress : Bool}
    (hPass : QueueBase.tryEnqueues (runCallback env) q = .ok (progress, q')) :
    LiveSound env q' ∧ Settled q' := by
  rw [QueueBase.tryEnqueues] at hPass
  split at hPass
  · cases hPass
  · next pass hAttempts =>
    cases hPass
    have hRun : ∀ a rest q₁ r, Enqueuing env q.dequeueAttempts (a :: rest) q₁ →
        a.isCancelled = false → runCallback env q₁ a = .ok r →
          Leaves (Enqueuing env q.dequeueAttempts) rest r ∧
            (r.result ≠ .complete → r.queue.closed = false ∧ Advances a r) := by
      rintro a rest q₁ r ⟨hInv, hKept⟩ hActive hRun
      obtain ⟨hLeaves, hStays, hKeeps⟩ := hInv.enqueueRun hActive hRun
      have hKept' := hKeeps.2.1.trans hKept
      exact ⟨⟨fun hDone => ⟨hLeaves.1 hDone, hKept'⟩, fun hNot => ⟨hLeaves.2 hNot, hKept'⟩⟩, hStays⟩
    have hStart : Enqueuing env q.dequeueAttempts q.enqueueAttempts q := ⟨h, rfl⟩
    obtain ⟨⟨hInv, hKept⟩, hStop, -⟩ := tryAttempts_spec _ (fun q' => q'.closed = false)
      (fun _ _ _ _ hInv => ⟨hInv.1.tail, hInv.2⟩) hRun hStart hAttempts
    refine ⟨?_, fun hClosed => hStop.resolve_right fun hOpen => ?_⟩
    · rw [← hKept] at hInv
      exact { hInv with }
    · exact absurd (hOpen.symm.trans hClosed) Bool.false_ne_true

theorem LiveSound.tryDequeues (hSettled : Settled q) {progress : Bool}
    (hPass : QueueBase.tryDequeues (runCallback env) q = .ok (progress, q')) :
    LiveSound env q' := by
  rw [QueueBase.tryDequeues] at hPass
  split at hPass
  · cases hPass
  · next pass hAttempts =>
    cases hPass
    have hRun : ∀ a rest q₁ r, Dequeuing env q.enqueueAttempts (a :: rest) q₁ →
        a.isCancelled = false → runCallback env q₁ a = .ok r →
          Leaves (Dequeuing env q.enqueueAttempts) rest r ∧
            (r.result ≠ .complete → True ∧ Advances a r) := by
      rintro a rest q₁ r ⟨hInv, hKept, hSettled⟩ hActive hRun
      rw [live_active hActive] at hInv
      obtain ⟨hLeaves, hStays, ⟨copies, queues, hMoves⟩⟩ := hInv.dequeueRun hSettled hRun
      have hKept' : r.queue.enqueueAttempts = q.enqueueAttempts := by
        rw [hMoves]
        exact hKept
      have hSettled' : Settled r.queue := by
        rw [hMoves]
        exact hSettled
      refine ⟨⟨fun hDone => ⟨hLeaves.1 hDone, hKept', hSettled'⟩,
        fun hNot => ⟨?_, hKept', hSettled'⟩⟩,
        fun hNot => ⟨trivial, (hStays hNot).2⟩⟩
      have hInv' := hLeaves.2 hNot
      obtain ⟨held, content, -, -, ha, -⟩ := hInv'.fifo
      rw [live_active ha.active]
      exact hInv'
    have hSkip : ∀ a rest q₁, a.isCancelled →
        Dequeuing env q.enqueueAttempts (a :: rest) q₁ →
          Dequeuing env q.enqueueAttempts rest q₁ := by
      rintro a rest q₁ hCancelled ⟨hInv, hKept⟩
      rw [live_cancelled hCancelled] at hInv
      exact ⟨hInv, hKept⟩
    have hStart : Dequeuing env q.enqueueAttempts q.dequeueAttempts q := ⟨h, rfl, hSettled⟩
    obtain ⟨⟨hInv, hKept, -⟩, -⟩ :=
      tryAttempts_spec _ (fun _ => True) hSkip hRun hStart hAttempts
    rw [← hKept] at hInv
    exact { hInv with }

theorem LiveSound.flush {turns : Nat}
    (hFlush : flushLoop (runCallback env) turns q = .ok (some q')) : LiveSound env q' := by
  induction turns generalizing q with
  | zero => cases hFlush
  | succ turns ih =>
    rw [flushLoop] at hFlush
    split at hFlush
    · cases hFlush
    · next changed q₁ hFirst =>
      obtain ⟨hSound, hSettled⟩ := h.tryEnqueues hFirst
      split at hFlush
      · cases hFlush
      · next changed' q₂ hSecond =>
        have hSound' := hSound.tryDequeues hSettled hSecond
        split at hFlush
        · exact ih hSound' hFlush
        · cases hFlush
          exact hSound'

theorem LiveSound.enter (call : Call k α)
    (hCopies : Succeeds env ∨ ¬Copies call) :
    LiveSound env { enter q call with calls := q.calls ++ [call] } := by
  have hSound : Sound env { q with dequeueAttempts := live q.dequeueAttempts } := { h with }
  have hEntered := hSound.enter call hCopies
  cases call with
  | tryEnqueue tuple => exact { hEntered with }
  | tryEnqueueMany t =>
    simp only [FifoQueue.enter] at hEntered ⊢
    split
    · next hZero =>
      rw [if_pos hZero] at hEntered
      exact { hEntered with }
    · next hSome =>
      rw [if_neg hSome] at hEntered
      exact { hEntered with }
  | tryDequeue =>
    rw [LiveSound, FifoQueue.enter]
    simp only [live_append]
    exact { hEntered with }
  | tryDequeueMany numElements allowSmallBatch =>
    rw [FifoQueue.enter] at hEntered ⊢
    split
    · next hShapes =>
      rw [if_pos hShapes] at hEntered
      exact { hEntered with }
    · next hShapes =>
      rw [if_neg hShapes] at hEntered
      split
      · next hZero =>
        rw [if_pos hZero] at hEntered
        exact { hEntered with }
      · next hSome =>
        rw [if_neg hSome] at hEntered
        rw [LiveSound]
        simp only [live_append]
        exact { hEntered with }
  | close cancelPendingEnqueues =>
    cases cancelPendingEnqueues with
    | true => exact { hEntered with }
    | false => exact { hEntered with }

end

theorem Ordered.fail (h : Ordered env es ds q) {id : Nat} {status : Status} (hStatus : status ≠ .ok)
    (hId : id < q.calls.length) (closed : Bool) (size : Nat) :
    Ordered env es ds
      { q with completed := q.completed ++ [⟨id, status, .finished, closed, size⟩] } :=
  h.complete rfl (deliveredBy_finished rfl) ⟨hId, fun _ => rfl, fun _ hOk => absurd hOk hStatus,
    fun _ _ _ hOk => absurd hOk hStatus⟩ rfl

variable {before after : List (Attempt k α)}

theorem Ordered.drop (h : Ordered env es (before ++ a :: after) q) (hNone : heldBy a = []) :
    Ordered env es (before ++ after) q := by
  refine { h with copies := ?_, fifo := ?_ }
  · refine h.copies.imp_right fun hRest b hb => hRest b ?_
    simp only [mem_append] at hb ⊢
    tauto
  · obtain ⟨held, content, hStores, hFifo, hFront⟩ := h.fifo
    refine ⟨held, content, hStores, hFifo, ?_⟩
    cases before with
    | nil =>
      obtain rfl : held = [] := hFront.1.heldBy.symm.trans hNone
      cases after with
      | nil => rfl
      | cons b after =>
        exact ⟨hFront.2 b mem_cons_self, fun c hc => hFront.2 c (mem_cons_of_mem _ hc)⟩
    | cons b before =>
      refine ⟨hFront.1, fun c hc => hFront.2 c ?_⟩
      simp only [append_eq, mem_append] at hc ⊢
      tauto

theorem Ordered.cancelEnqueue (h : Ordered env (before ++ a :: after) ds q) :
    Ordered env (before ++ a.cancelEnqueue :: after) ds q := by
  have hSame : a.cancelEnqueue.id = a.id ∧ a.cancelEnqueue.operation = a.operation := by
    exact ⟨setStatus_id _, setStatus_operation _ _⟩
  have hMem : a ∈ before ++ a :: after := mem_append_right _ mem_cons_self
  have hOther : ∀ b ∈ before ++ a.cancelEnqueue :: after,
      b = a.cancelEnqueue ∨ b ∈ before ++ a :: after := by
    intro b hb
    simp only [mem_append, mem_cons] at hb ⊢
    tauto
  refine { h with copies := ?_, enqueues := ?_, inOrder := ?_, earlier := ?_ }
  · refine h.copies.imp_right fun hRest b hb => ?_
    rcases mem_append.mp hb with hE | hD
    · rcases hOther b hE with rfl | hOld
      · rw [hSame.2]
        exact hRest a (mem_append_left _ hMem)
      · exact hRest b (mem_append_left _ hOld)
    · exact hRest b (mem_append_right _ hD)
  · intro b hb
    rcases hOther b hb with rfl | hOld
    · exact (h.enqueues a hMem).cancel
    · exact h.enqueues b hOld
  · have hOrder := h.inOrder
    simp only [pairwise_append, pairwise_cons, forall_mem_cons, hSame.1] at hOrder ⊢
    exact hOrder
  · intro e he b hb
    rcases hOther b hb with rfl | hOld
    · rw [hSame.1]
      exact h.earlier e he a hMem
    · exact h.earlier e he b hOld

/-- A cancellation keeps the order if the attempt to dequeue holds no elements. -/
theorem LiveSound.cancel (h : LiveSound env q) (matching : Nat → Bool) (side : Side)
    (hNone : side = .dequeue → ∀ a, q.dequeueAttempts.find? (fun a => matching a.id) = some a →
      a.isCancelled = false → heldBy a = []) : LiveSound env (q.cancel matching side) := by
  cases side with
  | enqueue =>
    rw [QueueBase.cancel]
    rcases cancelFirst_cases matching Side.enqueue.cancelled q.enqueueAttempts with
      ⟨hEq, -⟩ | ⟨before, a, after, hAttempts, hActive, -, hEq⟩
    · simp only [hEq]
      exact { h with }
    · simp only [hEq]
      rw [LiveSound, hAttempts] at h
      have ha := (h.enqueues a (mem_append_right _ mem_cons_self)).cancel
      exact { h.cancelEnqueue.finishEnqueue ha rfl ha.done with }
  | dequeue =>
    rw [QueueBase.cancel]
    rcases cancelFirst_cases matching Side.dequeue.cancelled q.dequeueAttempts with
      ⟨hEq, -⟩ | ⟨before, a, after, hAttempts, hActive, hFind, hEq⟩
    · simp only [hEq]
      exact { h with }
    · simp only [hEq]
      have hCancelled : ({ a with isCancelled := true }.setStatus
          Side.dequeue.cancelled).isCancelled := setStatus_isCancelled _ _
      have hLive : live q.dequeueAttempts = live before ++ a :: live after := by
        rw [hAttempts, live_append, live_active hActive]
      have hOld : Ordered env q.enqueueAttempts (live before ++ a :: live after) q := by
        rw [← hLive]
        exact h
      have ha : ∃ held, Dequeues q.calls a held := by
        obtain ⟨held, content, -, -, hFront⟩ := hOld.fifo
        cases hBefore : live before with
        | nil =>
          rw [hBefore] at hFront
          exact ⟨held, hFront.1⟩
        | cons b rest =>
          rw [hBefore] at hFront
          exact ⟨[], hFront.2 a (mem_append_right _ mem_cons_self)⟩
      obtain ⟨held, ha⟩ := ha
      have hStatus : ({ a with isCancelled := true }.setStatus Side.dequeue.cancelled).status ≠
        .ok := by
        rw [Attempt.setStatus, if_pos ha.status]
        rintro ⟨⟩
      have hDone : ({ a with isCancelled := true }.setStatus Side.dequeue.cancelled).done =
          .finished := by
        rw [setStatus_done]
        exact ha.done
      have hKnown : ({ a with isCancelled := true }.setStatus Side.dequeue.cancelled).id <
          q.calls.length := by
        rw [setStatus_id]
        exact ha.known
      have hDropped := (hOld.drop (hNone rfl a hFind hActive)).fail hStatus hKnown q.closed q.size
      rw [LiveSound, called, finish, hDone]
      simp only [live_append, live_cancelled hCancelled]
      exact { hDropped with }

def supplied (q : QueueBase k α) : List (Tuple k α) := delivered q ++ heldByPending q ++ content q

structure Supplies (q : QueueBase k α) : Prop where
  order : supplied q = q.accepted.map Prod.snd
  inAttemptOrder : (q.accepted.map Prod.fst).Pairwise (· ≤ ·)
  fromAttempts : ∀ id, TakesPrefix q.calls q.accepted id

def CancelsEmpty (env : Env k) (s : QueueCancellation.State k α) :
    QueueCancellation.Action k α → Prop
  | .call _ call => Succeeds env ∨ ¬Copies call
  | .runCancel manager token => ∀ a, s.queue.dequeueAttempts.find?
      (fun a => s.tokens a.id = some (manager, token)) = some a → a.isCancelled = false →
        heldBy a = []
  | _ => True

theorem LiveSound.supplies (h : LiveSound env q) : Supplies q := by
  obtain ⟨held, elements, hStores, hFifo, hFront⟩ := h.fifo
  refine ⟨?_, h.sorted, h.prefixes⟩
  have hContent : content q = elements := hStores.slices
  rw [supplied, heldByPending, hFront.flatMap_heldBy, hContent]
  exact hFifo

theorem liveSound_step {s s' : QueueCancellation.State k α} {action : QueueCancellation.Action k α}
    (h : LiveSound env s.queue) (hAllowed : CancelsEmpty env s action)
    (hStep : QueueCancellation.step .fifo env s action = .next s') : LiveSound env s'.queue := by
  cases action with
  | call manager call =>
    cases hStep
    rw [QueueCancellation.enter]
    split
    · exact h.enter call hAllowed
    · next side _ =>
      simp only
      split
      · exact h.enter call hAllowed
      · have hCalls : Ordered env s.queue.enqueueAttempts (live s.queue.dequeueAttempts)
            { s.queue with calls := s.queue.calls ++ [call] } := Ordered.calls h
        have hStatus : side.cancelled ≠ .ok := by
          cases side with
          | enqueue => rintro ⟨⟩
          | dequeue => rintro ⟨⟩
        have hKnown : s.queue.calls.length < (s.queue.calls ++ [call]).length := by simp
        exact { hCalls.fail hStatus hKnown s.queue.closed s.queue.size with }
  | flush =>
    rw [QueueCancellation.step] at hStep
    split at hStep
    · cases hStep
    · cases hStep
    · next q hFlush =>
      cases hStep
      exact h.flush hFlush
  | startCancel manager =>
    cases hStep
    exact h
  | runCancel manager token =>
    rw [QueueCancellation.step] at hStep
    split at hStep
    · cases hStep
    · next token' side _ =>
      cases hStep
      exact h.cancel _ side fun _ => hAllowed
  | endCancel manager =>
    rw [QueueCancellation.step] at hStep
    split at hStep
    · cases hStep
      exact h
    · cases hStep
  | cleanUp id =>
    rw [QueueCancellation.step] at hStep
    split at hStep
    · cases hStep
      exact h
    · simp only at hStep
      split at hStep
      · cases hStep
      · cases hStep
        exact h

theorem supplied_cancel {matching : Nat → Bool}
    (hFind : q.dequeueAttempts.find? (fun a => matching a.id) = some a)
    (hActive : a.isCancelled = false) (hDone : a.done = .finished) :
    ∃ before after, supplied q = before ++ heldBy a ++ after ∧
      supplied (q.cancel matching .dequeue) = before ++ after := by
  rcases cancelFirst_cases matching Side.dequeue.cancelled q.dequeueAttempts with
    ⟨-, hCancelled⟩ | ⟨before, b, after, hAttempts, -, hFind', hEq⟩
  · exact absurd (hActive.symm.trans (hCancelled a hFind)) Bool.false_ne_true
  · cases hFind.symm.trans hFind'
    have hCancelled : ({ a with isCancelled := true }.setStatus
        Side.dequeue.cancelled).isCancelled := setStatus_isCancelled _ _
    have hFinished : ({ a with isCancelled := true }.setStatus Side.dequeue.cancelled).done =
        .finished := by
      rw [setStatus_done]
      exact hDone
    refine ⟨delivered q ++ (live before).flatMap heldBy,
      (live after).flatMap heldBy ++ content q, ?_, ?_⟩
    · rw [supplied, heldByPending, hAttempts, live_append, live_active hActive, flatMap_append,
        flatMap_cons]
      simp only [append_assoc]
    · have hDelivered : delivered (q.cancel matching .dequeue) = delivered q := by
        rw [cancel]
        simp only [hEq]
        rw [called, finish, hFinished, delivered, flatMap_append, flatMap_cons,
          deliveredBy_finished rfl]
        simp [delivered]
      have hLive : (q.cancel matching .dequeue).dequeueAttempts =
          before ++ { a with isCancelled := true }.setStatus Side.dequeue.cancelled :: after := by
        rw [cancel]
        simp only [hEq]
        rfl
      have hContent : content (q.cancel matching .dequeue) = content q := by
        rw [cancel]
        simp only [hEq]
        rfl
      rw [supplied, heldByPending, hDelivered, hContent, hLive, live_append,
        live_cancelled hCancelled, flatMap_append]
      simp only [append_assoc]

/-- The elements stay in order where no cancelled attempt holds any. The cancellation of a pending
attempt loses the elements that it holds. -/
theorem cancellations_keep_order {capacity : Nat} {name : String} {specifiedShapes : Bool}
    {s : QueueCancellation.State k α}
    (hReach : Reach (QueueCancellation.step .fifo env) (CancelsEmpty env)
      (QueueCancellation.init capacity name specifiedShapes) s) :
    Supplies s.queue ∧ ∀ (matching : Nat → Bool) (a : Attempt k α),
      s.queue.dequeueAttempts.find? (fun a => matching a.id) = some a → a.isCancelled = false →
        (Supplies (s.queue.cancel matching .dequeue) ↔ heldBy a = []) := by
  have hSound : LiveSound env s.queue := by
    refine hReach.invariant (fun s => LiveSound env s.queue) ?_
      fun _ _ _ h hAllowed hStep => liveSound_step h hAllowed hStep
    exact { sound_init capacity name specifiedShapes with }
  refine ⟨hSound.supplies, fun matching a hFind hActive => ⟨fun hSupplies => ?_, fun hNone => ?_⟩⟩
  · have ha : a ∈ live s.queue.dequeueAttempts :=
      mem_filter.mpr ⟨mem_of_find?_eq_some hFind, by simp [hActive]⟩
    have hDone : a.done = .finished := by
      obtain ⟨held, content, -, -, hFront⟩ := hSound.fifo
      cases hLive : live s.queue.dequeueAttempts with
      | nil =>
        rw [hLive] at ha
        exact absurd ha not_mem_nil
      | cons b rest =>
        rw [hLive] at hFront ha
        rcases mem_cons.mp ha with rfl | hRest
        · exact hFront.1.done
        · exact (hFront.2 a hRest).done
    obtain ⟨before, after, hBefore, hAfter⟩ := supplied_cancel hFind hActive hDone
    have hAccepted : (s.queue.cancel matching .dequeue).accepted = s.queue.accepted := by
      rw [cancel]
      rcases cancelFirst matching Side.dequeue.cancelled s.queue.dequeueAttempts with
        ⟨attempts, callback⟩
      cases callback with
      | none => rfl
      | some b => rfl
    have hOrder : supplied (s.queue.cancel matching .dequeue) = supplied s.queue := by
      rw [hSupplies.order, hAccepted, hSound.supplies.order]
    rw [hAfter, hBefore] at hOrder
    have hLength := congrArg length hOrder
    simp only [length_append] at hLength
    exact eq_nil_of_length_eq_zero (by omega)
  · exact (hSound.cancel matching .dequeue fun _ b hb hActive' => by
      cases hFind.symm.trans hb
      exact hNone).supplies

def copied : Env 0 := ofTypes fun _ => .int32

def cancelsEmpty (s : QueueCancellation.State 0 Nat) : QueueCancellation.Action 0 Nat → Bool
  | .runCancel manager token =>
    match s.queue.dequeueAttempts.find? fun a => s.tokens a.id = some (manager, token) with
    | none => true
    | some a => (heldBy a).isEmpty
  | _ => true

/-- A request that waits behind a half-filled batch is cancelled, and then the batch is filled. -/
theorem waiting_request_cancelled :
    ∃ s, Reach (QueueCancellation.step .fifo copied) (CancelsEmpty copied)
        (QueueCancellation.init 4 "q" true) s ∧
      (delivered s.queue).map (· 0) = [1, 2] ∧
        (s.queue.completed.map fun c => c.id) = [0, 2, 3, 1] ∧
      Supplies s.queue ∧ ∀ (matching : Nat → Bool) (a : Attempt 0 Nat),
        s.queue.dequeueAttempts.find? (fun a => matching a.id) = some a → a.isCancelled = false →
          (Supplies (s.queue.cancel matching .dequeue) ↔ heldBy a = []) := by
  have hAllowed : ∀ (s : QueueCancellation.State 0 Nat) (action : QueueCancellation.Action 0 Nat),
      cancelsEmpty s action → CancelsEmpty copied s action := by
    intro s action hTest
    cases action with
    | call manager call => exact .inl (succeeds_ofTypes fun _ => rfl)
    | runCancel manager token =>
      intro a hFind _
      rw [cancelsEmpty, hFind] at hTest
      exact isEmpty_iff.mp hTest
    | _ => trivial
  obtain ⟨s, hReach, hTest⟩ := exists_reach_of_exec (QueueCancellation.step .fifo copied)
    (QueueCancellation.init 4 "q" true) cancelsEmpty hAllowed
    [.call 0 (.tryEnqueue fun _ => 1), .flush, .call 1 (.tryDequeueMany 2 false), .flush,
      .call 2 .tryDequeue, .flush, .startCancel 2, .runCancel 2 0, .flush,
      .call 0 (.tryEnqueue fun _ => 2), .flush]
    (fun s => (delivered s.queue).map (· 0) = [1, 2] ∧
      (s.queue.completed.map fun c => c.id) = [0, 2, 3, 1]) (by decide +kernel)
  obtain ⟨hDelivered, hCompleted⟩ := of_decide_eq_true hTest
  exact ⟨s, hReach, hDelivered, hCompleted, cancellations_keep_order hReach⟩

/-- A request for two elements that has taken one is cancelled. -/
theorem half_filled_batch_lost :
    ¬∀ (k : Nat) (env : Env k) (capacity : Nat) (name : String) (specifiedShapes : Bool)
      (s : QueueCancellation.State k Nat), Succeeds env →
      Reach (QueueCancellation.step .fifo env) anyStep
        (QueueCancellation.init capacity name specifiedShapes) s →
      supplied s.queue = s.queue.accepted.map Prod.snd := by
  intro hSupplies
  obtain ⟨s, hReach, hTest⟩ := exists_reach_of_exec (QueueCancellation.step .fifo copied)
    (QueueCancellation.init 4 "q" true) always anyStep_of_always
    [.call 0 (.tryEnqueue fun _ => 1), .flush, .call 1 (.tryDequeueMany 2 false), .flush,
      .startCancel 1, .runCancel 1 0, .flush]
    (fun s => (supplied s.queue).length ≠ s.queue.accepted.length) (by decide +kernel)
  have hEq := congrArg length
    (hSupplies 0 copied 4 "q" true s (succeeds_ofTypes fun _ => rfl) hReach)
  rw [length_map] at hEq
  exact of_decide_eq_true hTest hEq

end TensorFlowOnSpark.Kernels.FifoQueue
