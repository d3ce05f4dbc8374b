import TensorFlowOnSpark.Kernels.QueueCancellation

/-!
# When the callbacks of a queue are called

The end of `FlushUnlocked` of `kernels/queue_base.cc`: when `mu_` is released, a flush
deregisters each attempt that it completed, and then calls its callback.
`DeregisterCallback` waits for a `StartCancel` that is under way.
-/

namespace TensorFlowOnSpark.Kernels

open Framework Transition QueueBase FifoQueue Discipline List Function

universe u

variable {k : Nat} {α : Type u}

namespace QueueCompletion

/-- The calls that a flush has yet to clean up, and the manager whose `StartCancel` runs it. -/
structure CleanUps where
  canceller : Option Nat
  calls : List Nat
deriving DecidableEq

/-- A manager is `flushing` when its `StartCancel` is in a `Cancel` that has called a callback
and not yet flushed. `called` are the calls whose callbacks were called. -/
structure State (k : Nat) (α : Type u) extends QueueCancellation.State k α where
  flushing : Nat → Bool
  cleanUps : List CleanUps
  called : List Nat

inductive Move (k : Nat) (α : Type u) where
  | call (manager : Nat) (call : Call k α)
  | flush (canceller : Option Nat)
  | startCancel (manager : Nat)
  | runCancel (manager token : Nat)
  | endCancel (manager : Nat)
  | cleanUp (flush : Nat)

/-- A move that goes on with a clean-up or with a cancellation that is under way. -/
def Move.isPending : Move k α → Bool
  | .flush canceller => canceller.isSome
  | .runCancel .. | .endCancel _ | .cleanUp _ => true
  | .call .. | .startCancel _ => false

def newlyCompleted (before after : QueueBase k α) : List Nat :=
  (after.completed.drop before.completed.length).map fun c => c.id

/-- `StartCancel` of the manager is inside a `Cancel`. -/
def State.busy (s : State k α) (manager : Nat) : Bool :=
  s.flushing manager || s.cleanUps.any fun c => c.canceller = some manager && !c.calls.isEmpty

variable [Inhabited α]

def step (kind : QueueKind) (env : Env k) (s : State k α) :
    Move k α → Outcome (State k α) Failure
  | .call manager call =>
    (QueueCancellation.step kind env s.toState (.call manager call)).map fun t =>
      { s with toState := t, called := s.called ++ newlyCompleted s.queue t.queue }
  | .flush canceller =>
    if canceller.all s.flushing then
      (QueueCancellation.step kind env s.toState .flush).map fun t =>
        { s with
          toState := t
          flushing := canceller.elim s.flushing fun manager => update s.flushing manager false
          cleanUps := s.cleanUps ++ [⟨canceller, newlyCompleted s.queue t.queue⟩] }
    else .blocked
  | .startCancel manager =>
    (QueueCancellation.step kind env s.toState (.startCancel manager)).map fun t =>
      { s with toState := t }
  | .runCancel manager token =>
    if s.busy manager then .blocked
    else
      (QueueCancellation.step kind env s.toState (.runCancel manager token)).map fun t =>
        let callbacks := newlyCompleted s.queue t.queue
        { s with
          toState := t
          flushing := update s.flushing manager !callbacks.isEmpty
          called := s.called ++ callbacks }
  | .endCancel manager =>
    if s.busy manager then .blocked
    else
      (QueueCancellation.step kind env s.toState (.endCancel manager)).map fun t =>
        { s with toState := t }
  | .cleanUp flush =>
    match s.cleanUps[flush]? with
    | some ⟨canceller, id :: rest⟩ =>
      (QueueCancellation.step kind env s.toState (.cleanUp id)).map fun t =>
        { s with
          toState := t
          cleanUps := s.cleanUps.set flush ⟨canceller, rest⟩
          called := s.called ++ [id] }
    | _ => .blocked

def init (capacity : Nat) (name : String) (specifiedShapes : Bool) : State k α where
  toState := QueueCancellation.init capacity name specifiedShapes
  flushing _ := false
  cleanUps := []
  called := []

/-- The first attempts of both deques, if there are any, have to wait. -/
def stalled (minAfterDequeue : Nat) (q : QueueBase k α) : Bool :=
  ((q.enqueueAttempts.find? fun a => !a.isCancelled).all fun a =>
    match a.operation with
    | .close => false
    | _ => !q.closed && q.capacity ≤ q.size) &&
  (q.dequeueAttempts.find? fun a => !a.isCancelled).all fun _ =>
    !q.closed && q.size ≤ minAfterDequeue

/-- No attempt that waits belongs to a manager that cancels. -/
def uncancelled (s : QueueCancellation.State k α) : Bool :=
  (waiting (s.queue.enqueueAttempts ++ s.queue.dequeueAttempts)).all fun id =>
    (s.tokens id).all fun (manager, _) => !(s.managers manager).isCancelling

def CopyableCalls (env : Env k) (_ : State k α) : Move k α → Prop
  | .call _ call => QueueCancellation.Copyable env call
  | _ => True

/-- Batches can be copied, and a flush that `StartCancel` runs completes no attempt of a manager
that cancels. -/
def Permits (kind : QueueKind) (env : Env k) (s : State k α) (move : Move k α) : Prop :=
  CopyableCalls env s move ∧ ∀ manager, move = .flush (some manager) →
    stalled kind.minAfterDequeue s.queue ∨ uncancelled s.toState

end QueueCompletion

section Stalled

variable {run : QueueBase k α → Attempt k α → Except Fault (Run k α)} {q q' : QueueBase k α}

theorem tryAttempts_stalled {attempts : List (Attempt k α)}
    (h : ∀ a, (attempts.find? fun a => !a.isCancelled) = some a →
      run q a = .ok ⟨.noProgress, a, q⟩) :
    tryAttempts run attempts q = .ok ⟨false, attempts.dropWhile fun a => a.isCancelled, q⟩ := by
  induction attempts with
  | nil => rfl
  | cons a rest ih =>
    rw [tryAttempts]
    cases hCancelled : a.isCancelled with
    | true =>
      rw [if_pos rfl, dropWhile_cons_of_pos hCancelled]
      apply ih
      intro b hFind
      apply h
      rw [find?_cons_of_neg (by simp [hCancelled])]
      exact hFind
    | false =>
      rw [if_neg Bool.false_ne_true, dropWhile_cons_of_neg (by simp [hCancelled]),
        h a (find?_cons_of_pos (by simp [hCancelled]))]

/-- A flush whose first attempts have to wait does nothing but to skip cancelled attempts. -/
theorem flushLoop_stalled (turns : Nat)
    (hEnqueue : ∀ a, (q.enqueueAttempts.find? fun a => !a.isCancelled) = some a →
      run q a = .ok ⟨.noProgress, a, q⟩)
    (hDequeue : ∀ es a, (q.dequeueAttempts.find? fun a => !a.isCancelled) = some a →
      run { q with enqueueAttempts := es } a =
        .ok ⟨.noProgress, a, { q with enqueueAttempts := es }⟩) :
    ∃ es ds, flushLoop run (turns + 1) q =
      .ok (some { q with enqueueAttempts := es, dequeueAttempts := ds }) := by
  refine ⟨q.enqueueAttempts.dropWhile fun a => a.isCancelled,
    q.dequeueAttempts.dropWhile fun a => a.isCancelled, ?_⟩
  rw [flushLoop, tryEnqueues, tryAttempts_stalled hEnqueue]
  simp only [tryDequeues, tryAttempts_stalled (hDequeue _)]
  rfl

variable [Inhabited α] {D : Discipline k α} {minAfterDequeue : Nat} {env : Env k} {a : Attempt k α}

theorem runCallback_full (hKind : a.operation.isDequeue = false) (hClose : a.operation ≠ .close)
    (hOpen : q.closed = false) (hFull : q.capacity ≤ q.size) :
    D.runCallback env q a = .ok ⟨.noProgress, a, q⟩ := by
  rw [Discipline.runCallback]
  cases hOperation : a.operation with
  | enqueue tuple =>
    simp only [Discipline.runEnqueue, hOpen, Bool.false_eq_true, if_false]
    rw [if_neg (Nat.not_lt.mpr hFull)]
  | enqueueMany tuple =>
    simp only [Discipline.runEnqueueMany, hOpen, Bool.false_eq_true, if_false]
    rw [Nat.sub_eq_zero_of_le hFull]
    rfl
  | close => exact absurd hOperation hClose
  | dequeue =>
    rw [hOperation] at hKind
    cases hKind
  | dequeueMany allowSmallBatch =>
    rw [hOperation] at hKind
    cases hKind

theorem runCallback_few (hLawful : D.Lawful minAfterDequeue) (hKind : a.operation.isDequeue)
    (hOpen : q.closed = false) (hFew : q.size ≤ minAfterDequeue) :
    D.runCallback env q a = .ok ⟨.noProgress, a, q⟩ := by
  have hAvailable : D.available q = 0 := by
    rw [hLawful.available, hOpen, if_neg Bool.false_ne_true]
    omega
  rw [Discipline.runCallback]
  cases hOperation : a.operation with
  | enqueue tuple =>
    rw [hOperation] at hKind
    cases hKind
  | enqueueMany tuple =>
    rw [hOperation] at hKind
    cases hKind
  | close =>
    rw [hOperation] at hKind
    cases hKind
  | dequeue => simp [Discipline.runDequeue, hOpen, hAvailable]
  | dequeueMany allowSmallBatch =>
    simp only [Discipline.runDequeueMany, hOpen, hAvailable, Bool.false_and, Bool.false_eq_true,
      if_false]
    rfl

end Stalled

namespace QueueCompletion

variable [Inhabited α] {kind : QueueKind} {env : Env k} {capacity : Nat} {s s' : State k α}
  {q : QueueBase k α}

omit [Inhabited α] in
theorem map_completed {before after : QueueBase k α} (h : before.completed <+: after.completed) :
    (after.completed.map fun c => c.id) =
      (before.completed.map fun c => c.id) ++ newlyCompleted before after := by
  obtain ⟨completed, hEq⟩ := h
  rw [newlyCompleted, ← hEq, drop_left, map_append]

theorem flush_stalled (h : QueueCancellation.Inv env capacity s.toState)
    (hStalled : stalled kind.minAfterDequeue s.queue)
    (hFlush : QueueCancellation.step kind env s.toState .flush =
      .next { s.toState with queue := q }) :
    newlyCompleted s.queue q = [] := by
  rw [stalled, Bool.and_eq_true] at hStalled
  obtain ⟨hFull, hFew⟩ := hStalled
  have hEnqueue : ∀ a, (s.queue.enqueueAttempts.find? fun a => !a.isCancelled) = some a →
      kind.runCallback env s.queue a = .ok ⟨.noProgress, a, s.queue⟩ := by
    intro a hFind
    have hKind := h.kept.enqueues a (mem_of_find?_eq_some hFind)
    rw [hFind, Option.all_some] at hFull
    rw [kind.runCallback_eq]
    split at hFull
    · cases hFull
    · rename_i hClose
      rw [Bool.and_eq_true, Bool.not_eq_true', decide_eq_true_eq] at hFull
      exact runCallback_full hKind hClose hFull.1 hFull.2
  have hDequeue : ∀ es a, (s.queue.dequeueAttempts.find? fun a => !a.isCancelled) = some a →
      kind.runCallback env { s.queue with enqueueAttempts := es } a =
        .ok ⟨.noProgress, a, { s.queue with enqueueAttempts := es }⟩ := by
    intro es a hFind
    have hKind := (h.kept.dequeues a (mem_of_find?_eq_some hFind)).1
    rw [hFind, Option.all_some, Bool.and_eq_true, Bool.not_eq_true', decide_eq_true_eq] at hFew
    rw [kind.runCallback_eq]
    exact runCallback_few kind.lawful hKind hFew.1 hFew.2
  obtain ⟨es, ds, hEnd⟩ := flushLoop_stalled s.queue.effort hEnqueue hDequeue
  simp only [QueueCancellation.step, hEnd, Outcome.next.injEq] at hFlush
  obtain rfl : _ = q := congrArg QueueCancellation.State.queue hFlush
  simp [newlyCompleted]

omit [Inhabited α] in
/-- A flush completes attempts that waited. -/
theorem newlyCompleted_subset (h : QueueCancellation.Inv env capacity s.toState)
    (h' : QueueCancellation.Inv env capacity { s.toState with queue := q })
    (hCalls : q.calls = s.queue.calls) (hCompleted : s.queue.completed <+: q.completed) :
    newlyCompleted s.queue q ⊆
      waiting (s.queue.enqueueAttempts ++ s.queue.dequeueAttempts) := by
  have hPerm := h'.kept.answers.trans (hCalls ▸ h.kept.answers.symm)
  simp only [map_completed hCompleted, append_assoc] at hPerm
  have hSub := ((perm_append_left_iff _).mp hPerm).subset
  rw [waiting_append]
  exact fun id hId => hSub (mem_append_left _ hId)

/-- The managers' side of a step of the queue and the managers. -/
structure Proceeds (t t' : QueueCancellation.State k α) : Prop where
  calls : t.queue.calls.length ≤ t'.queue.calls.length
  completed : t.queue.completed <+: t'.queue.completed
  tokens : ∀ id < t.queue.calls.length, t'.tokens id = t.tokens id
  cancelling : ∀ manager, (t.managers manager).isCancelling → (t'.managers manager).isCancelling

omit [Inhabited α] in
theorem cancel_completed (q : QueueBase k α) (matching : Nat → Bool) (side : Side) :
    q.completed <+: (q.cancel matching side).completed := by
  have hCalled : ∀ (q' : QueueBase k α) callback,
    q'.completed <+: (q'.called callback).completed := by
    intro q' callback
    cases callback with
    | none => exact prefix_refl _
    | some a => exact prefix_append _ _
  cases side with
  | enqueue =>
    let r := cancelFirst matching Side.enqueue.cancelled q.enqueueAttempts
    exact hCalled { q with enqueueAttempts := r.1 } r.2
  | dequeue =>
    let r := cancelFirst matching Side.dequeue.cancelled q.dequeueAttempts
    exact hCalled { q with dequeueAttempts := r.1 } r.2

theorem proceeds_call (t : QueueCancellation.State k α) (manager : Nat) (call : Call k α) :
    Proceeds t (QueueCancellation.enter kind t manager call) := by
  have hEnter : t.queue.completed <+: (kind.enter t.queue call).completed := by
    rw [kind.enter_eq]
    exact enterWith_completed _ _ _
  rw [QueueCancellation.enter]
  split
  · exact ⟨by simp, hEnter, fun _ _ => rfl, fun _ h => h⟩
  · rename_i side hSide
    refine ⟨by simp, ?_, ?_, ?_⟩
    · simp only
      split
      · exact hEnter
      · exact prefix_append _ _
    · intro id hId
      exact update_of_ne (Nat.ne_of_lt hId) _ _
    · intro other hCancelling
      simp only [update_apply]
      split
      · rename_i hEq
        rw [hEq] at hCancelling
        exact hCancelling
      · exact hCancelling

theorem proceeds_step {t t' : QueueCancellation.State k α} {action : QueueCancellation.Action k α}
    (h : QueueCancellation.Inv env capacity t) (hEnd : ∀ manager, action ≠ .endCancel manager)
    (hStep : QueueCancellation.step kind env t action = .next t') : Proceeds t t' := by
  cases action with
  | call manager call =>
    cases hStep
    exact proceeds_call t manager call
  | flush =>
    obtain ⟨q, hFlush, hCalls, hCompleted, -⟩ := QueueCancellation.flush_ends kind h
    rw [hFlush] at hStep
    cases hStep
    exact ⟨(congrArg length hCalls).ge, hCompleted, fun _ _ => rfl, fun _ h => h⟩
  | startCancel manager =>
    cases hStep
    refine ⟨Nat.le_refl _, prefix_refl _, fun _ _ => rfl, fun other hCancelling => ?_⟩
    simp only [QueueCancellation.setManager, update_apply]
    split
    · rename_i hEq
      rw [hEq] at hCancelling
      simp [CancellationManager.startCancel, hCancelling]
    · exact hCancelling
  | runCancel manager token =>
    simp only [QueueCancellation.step] at hStep
    split at hStep
    · cases hStep
    · rename_i token' side _
      cases hStep
      refine ⟨?_, cancel_completed _ _ _, fun _ _ => rfl, fun other hCancelling => ?_⟩
      · exact (congrArg length (QueueCancellation.cancelFirst_calls t.queue _ side).1).ge
      · simp only [QueueCancellation.setManager, update_apply]
        split
        · rename_i hEq
          rw [hEq] at hCancelling
          exact hCancelling
        · exact hCancelling
  | endCancel manager => exact absurd rfl (hEnd manager)
  | cleanUp id =>
    simp only [QueueCancellation.step] at hStep
    split at hStep
    · cases hStep
      exact ⟨Nat.le_refl _, prefix_refl _, fun _ _ => rfl, fun _ h => h⟩
    · split at hStep
      · cases hStep
      · rename_i manager token _ hIdle
        cases hStep
        refine ⟨Nat.le_refl _, prefix_refl _, fun _ _ => rfl, fun other hCancelling => ?_⟩
        simp only [QueueCancellation.setManager, update_apply]
        split
        · rename_i hEq
          rw [hEq] at hCancelling
          exact absurd hCancelling hIdle
        · exact hCancelling

/-- A clean-up of `d` does not wait for the `StartCancel` that has yet to run those of `c`. -/
def Apart (tokens : Nat → Option (Nat × Nat)) (c d : CleanUps) : Prop :=
  ∀ manager, c.canceller = some manager → c.calls ≠ [] → d.canceller ≠ none →
    ∀ id ∈ d.calls, ∀ token, tokens id ≠ some (manager, token)

def Runs (m : CancellationManager) : Prop := m.running ≠ [] → m.isCancelling

/-- Every callback is called once or is still to be called, and no flush of a `StartCancel` waits
for itself or for one that began before it. -/
structure Sound (env : Env k) (capacity : Nat) (s : State k α) : Prop where
  base : QueueCancellation.Inv env capacity s.toState
  answers : (s.called ++ s.cleanUps.flatMap CleanUps.calls).Perm
    (s.queue.completed.map fun c => c.id)
  running : ∀ manager, Runs (s.managers manager)
  owned : ∀ manager, s.busy manager → (s.managers manager).isCancelling
  apart : ∀ (i j : Nat) (c d : CleanUps), i ≤ j → s.cleanUps[i]? = some c →
    s.cleanUps[j]? = some d → Apart s.tokens c d

section Steps

variable {t : QueueCancellation.State k α}

omit [Inhabited α] in
theorem Sound.lt_calls (h : Sound env capacity s) {c : CleanUps} (hMem : c ∈ s.cleanUps) {id : Nat}
    (hId : id ∈ c.calls) : id < s.queue.calls.length := by
  have hCompleted := h.answers.subset (mem_append_right _ (mem_flatMap.mpr ⟨c, hMem, hId⟩))
  exact mem_range.mp (h.base.kept.answers.subset (mem_append_left _ hCompleted))

omit [Inhabited α] in
theorem Sound.proceeds (h : Sound env capacity s) (hInv : QueueCancellation.Inv env capacity t)
    (hProceeds : Proceeds s.toState t)
    (hRunning : ∀ manager, Runs (t.managers manager)) :
    Sound env capacity
      { s with toState := t, called := s.called ++ newlyCompleted s.queue t.queue } where
  base := hInv
  answers := by
    simp only [map_completed hProceeds.completed]
    rw [append_assoc]
    refine (Perm.append_left _ perm_append_comm).trans ?_
    rw [← append_assoc]
    exact h.answers.append_right _
  running := hRunning
  owned manager hBusy := hProceeds.cancelling manager (h.owned manager hBusy)
  apart i j c d hLe hc hd manager hCanceller hSome hOwned id hId := by
    rw [hProceeds.tokens id (h.lt_calls (mem_of_getElem? hd) hId)]
    exact h.apart i j c d hLe hc hd manager hCanceller hSome hOwned id hId

omit [Inhabited α] in
theorem Sound.setFlushing (h : Sound env capacity s) (manager : Nat) (flag : Bool)
    (hFlag : flag → (s.managers manager).isCancelling) :
    Sound env capacity { s with flushing := update s.flushing manager flag } where
  base := h.base
  answers := h.answers
  running := h.running
  owned other hBusy := by
    simp only [State.busy, update_apply, Bool.or_eq_true] at hBusy
    rcases hBusy with hFlushing | hOwner
    · split at hFlushing
      · rename_i hEq
        rw [hEq]
        exact hFlag hFlushing
      · exact h.owned other (by rw [State.busy, hFlushing, Bool.true_or])
    · exact h.owned other (by rw [State.busy, hOwner, Bool.or_true])
  apart := h.apart

theorem Sound.flush (h : Sound env capacity s) (canceller : Option Nat)
    (hPermits : Permits kind env s (.flush canceller))
    (hStep : step kind env s (.flush canceller) = .next s') : Sound env capacity s' := by
  rw [step] at hStep
  split at hStep
  · rename_i hFlushing
    obtain ⟨q, hFlush, hCalls, hCompleted, hInv, -⟩ := QueueCancellation.flush_ends kind h.base
    rw [hFlush] at hStep
    cases hStep
    have hOwner : ∀ manager, canceller = some manager → (s.managers manager).isCancelling := by
      rintro manager rfl
      exact h.owned manager
        (by rw [State.busy, show s.flushing manager from hFlushing, Bool.true_or])
    have hBusy : ∀ c ∈ s.cleanUps, ∀ manager, c.canceller = some manager → c.calls ≠ [] →
        (s.managers manager).isCancelling := by
      intro c hc manager hCanceller hSome
      apply h.owned
      rw [State.busy, Bool.or_eq_true, any_eq_true]
      exact .inr ⟨c, hc, by simp [hCanceller, hSome]⟩
    have hNew : ∀ c ∈ s.cleanUps ++ [⟨canceller, newlyCompleted s.queue q⟩],
        Apart s.tokens c ⟨canceller, newlyCompleted s.queue q⟩ := by
      intro c hc manager hCanceller hSome hOwned id hId token hToken
      have hCancelling : (s.managers manager).isCancelling := by
        rcases mem_append.mp hc with hOld | hLast
        · exact hBusy c hOld manager hCanceller hSome
        · rw [mem_singleton.mp hLast] at hCanceller
          exact hOwner manager hCanceller
      obtain ⟨owner, rfl⟩ := Option.ne_none_iff_exists'.mp hOwned
      rcases hPermits.2 owner rfl with hStalled | hUncancelled
      · rw [flush_stalled h.base hStalled hFlush] at hId
        exact not_mem_nil hId
      · have hOther := all_eq_true.mp hUncancelled id
          (newlyCompleted_subset h.base hInv hCalls hCompleted hId)
        rw [hToken] at hOther
        simp [hCancelling] at hOther
    constructor
    · exact hInv
    · simp only [flatMap_append, flatMap_singleton, map_completed hCompleted]
      rw [← append_assoc]
      exact h.answers.append_right _
    · exact h.running
    · intro manager hBusy'
      simp only [State.busy, any_append, any_cons, any_nil, Bool.or_false,
        Bool.or_eq_true] at hBusy'
      rcases hBusy' with hStill | hOld | hLast
      · apply h.owned
        rw [State.busy, Bool.or_eq_true]
        cases canceller with
        | none => exact .inl hStill
        | some owner =>
          simp only [Option.elim_some, update_apply] at hStill
          split at hStill
          · cases hStill
          · exact .inl hStill
      · exact h.owned manager (by rw [State.busy, hOld, Bool.or_true])
      · rw [Bool.and_eq_true, decide_eq_true_eq] at hLast
        exact hOwner manager hLast.1
    · intro i j c d hLe hc hd
      by_cases hOld : j < s.cleanUps.length
      · rw [getElem?_append_left (by omega)] at hc hd
        exact h.apart i j c d hLe hc hd
      · rw [getElem?_append_right (by omega), getElem?_singleton] at hd
        split at hd
        · cases hd
          exact hNew c (mem_of_getElem? hc)
        · cases hd
  · cases hStep

theorem flatMap_set {cleanUps : List CleanUps} {i id : Nat} {canceller : Option Nat}
    {rest : List Nat} (h : cleanUps[i]? = some ⟨canceller, id :: rest⟩) :
    (id :: (cleanUps.set i ⟨canceller, rest⟩).flatMap CleanUps.calls).Perm
      (cleanUps.flatMap CleanUps.calls) := by
  induction cleanUps generalizing i with
  | nil => cases h
  | cons c cleanUps ih =>
    cases i with
    | zero =>
      cases h
      exact .refl _
    | succ i =>
      rw [set_cons_succ, flatMap_cons, flatMap_cons]
      exact perm_middle.symm.trans ((ih h).append_left _)

theorem getElem?_set_calls {cleanUps : List CleanUps} {i j id : Nat} {canceller : Option Nat}
    {rest : List Nat} (h : cleanUps[i]? = some ⟨canceller, id :: rest⟩) {c : CleanUps}
    (hc : (cleanUps.set i ⟨canceller, rest⟩)[j]? = some c) :
    ∃ c', cleanUps[j]? = some c' ∧ c'.canceller = c.canceller ∧ c.calls ⊆ c'.calls := by
  rw [getElem?_set] at hc
  split at hc
  · rename_i hEq
    split at hc
    · cases hc
      exact ⟨⟨canceller, id :: rest⟩, hEq ▸ h, rfl, subset_cons_self _ _⟩
    · cases hc
  · exact ⟨c, hc, rfl, Subset.refl _⟩

/-- What the deregistration of a completed attempt leaves unchanged. -/
structure SameRuns (t t' : QueueCancellation.State k α) : Prop where
  queue : t'.queue = t.queue
  tokens : t'.tokens = t.tokens
  isCancelling : ∀ manager, (t'.managers manager).isCancelling = (t.managers manager).isCancelling
  running : ∀ manager, (t'.managers manager).running = (t.managers manager).running

theorem cleanUp_spec {t' : QueueCancellation.State k α} {id : Nat}
    (hStep : QueueCancellation.step kind env t (.cleanUp id) = .next t') : SameRuns t t' := by
  simp only [QueueCancellation.step] at hStep
  split at hStep
  · cases hStep
    exact ⟨rfl, rfl, fun _ => rfl, fun _ => rfl⟩
  · rename_i manager token _
    split at hStep
    · cases hStep
    · cases hStep
      have hSame : ((t.managers manager).deregisterCallback token).isCancelling =
            (t.managers manager).isCancelling ∧
          ((t.managers manager).deregisterCallback token).running =
            (t.managers manager).running := by
        rw [CancellationManager.deregisterCallback]
        split
        · exact ⟨rfl, rfl⟩
        · exact ⟨rfl, rfl⟩
      refine ⟨rfl, rfl, fun other => ?_, fun other => ?_⟩
      · simp only [QueueCancellation.setManager, update_apply]
        split
        · rename_i hEq
          rw [hEq]
          exact hSame.1
        · rfl
      · simp only [QueueCancellation.setManager, update_apply]
        split
        · rename_i hEq
          rw [hEq]
          exact hSame.2
        · rfl

theorem runs_step {t' : QueueCancellation.State k α} {action : QueueCancellation.Action k α}
    (h : ∀ manager, Runs (t.managers manager))
    (hStep : QueueCancellation.step kind env t action = .next t') (manager : Nat) :
    Runs (t'.managers manager) := by
  have hUpdate : ∀ other m, Runs m → Runs (update t.managers other m manager) := by
    intro other m hRuns
    rw [update_apply]
    split
    · exact hRuns
    · exact h manager
  cases action with
  | call other call =>
    cases hStep
    rw [QueueCancellation.enter]
    split
    · exact h manager
    · exact hUpdate _ _ (h other)
  | flush =>
    simp only [QueueCancellation.step] at hStep
    split at hStep
    · cases hStep
    · cases hStep
    · cases hStep
      exact h manager
  | startCancel other =>
    cases hStep
    apply hUpdate
    rw [CancellationManager.startCancel]
    split
    · exact h other
    · exact fun _ => rfl
  | runCancel other token =>
    simp only [QueueCancellation.step] at hStep
    split at hStep
    · cases hStep
    · rename_i token' side hFind
      cases hStep
      apply hUpdate
      exact fun _ => h other (ne_nil_of_mem (mem_of_find?_eq_some hFind))
  | endCancel other =>
    simp only [QueueCancellation.step] at hStep
    split at hStep
    · rename_i hIdle
      cases hStep
      apply hUpdate
      rw [Bool.and_eq_true, List.isEmpty_iff] at hIdle
      exact fun hSome => absurd hIdle.2 hSome
    · cases hStep
  | cleanUp id =>
    have hSame := cleanUp_spec hStep
    rw [Runs, hSame.running, hSame.isCancelling]
    exact h manager

theorem Sound.cleanUp (h : Sound env capacity s) (flush : Nat)
    (hStep : step kind env s (.cleanUp flush) = .next s') : Sound env capacity s' := by
  rw [step] at hStep
  split at hStep
  · rename_i canceller id rest hFind
    obtain ⟨t, hBase, rfl⟩ := Outcome.map_eq_next.mp hStep
    have hSame := cleanUp_spec hBase
    constructor
    · exact QueueCancellation.inv_step h.base (fun _ _ hEq => by cases hEq) hBase
    · simp only [hSame.queue]
      rw [append_assoc]
      exact (Perm.append_left _ (flatMap_set hFind)).trans h.answers
    · exact runs_step h.running hBase
    · intro manager hBusy
      rw [hSame.isCancelling]
      apply h.owned
      simp only [State.busy, Bool.or_eq_true, any_eq_true] at hBusy ⊢
      refine hBusy.imp_right ?_
      rintro ⟨c, hc, hOwner⟩
      obtain ⟨j, hj⟩ := mem_iff_getElem?.mp hc
      obtain ⟨c', hc', hCanceller, hSub⟩ := getElem?_set_calls hFind hj
      refine ⟨c', mem_of_getElem? hc', ?_⟩
      simp only [Bool.and_eq_true, decide_eq_true_eq, Bool.not_eq_true', isEmpty_eq_false_iff]
        at hOwner ⊢
      exact ⟨hCanceller.trans hOwner.1, fun hNil => hOwner.2 (subset_nil.mp (hNil ▸ hSub))⟩
    · intro i j c d hLe hc hd manager hCanceller hSome hOwned id' hId
      obtain ⟨c', hc', hCanceller', hSub⟩ := getElem?_set_calls hFind hc
      obtain ⟨d', hd', hOwned', hSub'⟩ := getElem?_set_calls hFind hd
      rw [hSame.tokens]
      exact h.apart i j c' d' hLe hc' hd' manager (hCanceller'.trans hCanceller)
        (fun hNil => hSome (subset_nil.mp (hNil ▸ hSub))) (hOwned' ▸ hOwned) id' (hSub' hId)
  · cases hStep

/-- What a move does to the queue and to the managers is a step of these. -/
theorem base_step {move : Move k α} (hStep : step kind env s move = .next s') :
    ∃ action, QueueCancellation.step kind env s.toState action = .next s'.toState ∧
      (∀ manager call, action = .call manager call → move = .call manager call) ∧
      ∀ manager, action = .endCancel manager → s.busy manager = false := by
  cases move with
  | call manager call =>
    rw [step] at hStep
    obtain ⟨t, hBase, rfl⟩ := Outcome.map_eq_next.mp hStep
    refine ⟨_, hBase, ?_, by rintro _ ⟨⟩⟩
    rintro _ _ ⟨⟩
    rfl
  | flush canceller =>
    rw [step] at hStep
    split at hStep
    · obtain ⟨t, hBase, rfl⟩ := Outcome.map_eq_next.mp hStep
      exact ⟨_, hBase, by rintro _ _ ⟨⟩, by rintro _ ⟨⟩⟩
    · cases hStep
  | startCancel manager =>
    rw [step] at hStep
    obtain ⟨t, hBase, rfl⟩ := Outcome.map_eq_next.mp hStep
    exact ⟨_, hBase, by rintro _ _ ⟨⟩, by rintro _ ⟨⟩⟩
  | runCancel manager token =>
    rw [step] at hStep
    split at hStep
    · cases hStep
    · obtain ⟨t, hBase, rfl⟩ := Outcome.map_eq_next.mp hStep
      exact ⟨_, hBase, by rintro _ _ ⟨⟩, by rintro _ ⟨⟩⟩
  | endCancel manager =>
    rw [step] at hStep
    split at hStep
    · cases hStep
    · rename_i hIdle
      obtain ⟨t, hBase, rfl⟩ := Outcome.map_eq_next.mp hStep
      refine ⟨_, hBase, by rintro _ _ ⟨⟩, ?_⟩
      rintro _ ⟨⟩
      exact eq_false_of_ne_true hIdle
  | cleanUp flush =>
    rw [step] at hStep
    split at hStep
    · obtain ⟨t, hBase, rfl⟩ := Outcome.map_eq_next.mp hStep
      exact ⟨_, hBase, by rintro _ _ ⟨⟩, by rintro _ ⟨⟩⟩
    · cases hStep

theorem inv_step {move : Move k α} (h : QueueCancellation.Inv env capacity s.toState)
    (hPermits : CopyableCalls env s move) (hStep : step kind env s move = .next s') :
    QueueCancellation.Inv env capacity s'.toState := by
  obtain ⟨action, hBase, hCall, -⟩ := base_step hStep
  refine QueueCancellation.inv_step h (fun manager call hEq => ?_) hBase
  rw [hCall manager call hEq] at hPermits
  exact hPermits

theorem sound_step {move : Move k α} (h : Sound env capacity s)
    (hPermits : Permits kind env s move) (hStep : step kind env s move = .next s') :
    Sound env capacity s' := by
  have hInv := inv_step h.base hPermits.1 hStep
  cases move with
  | call manager call =>
    rw [step] at hStep
    obtain ⟨t, hBase, rfl⟩ := Outcome.map_eq_next.mp hStep
    exact h.proceeds hInv (proceeds_step h.base (fun _ hEq => by cases hEq) hBase)
      (runs_step h.running hBase)
  | flush canceller => exact h.flush canceller hPermits hStep
  | startCancel manager =>
    rw [step] at hStep
    obtain ⟨t, hBase, rfl⟩ := Outcome.map_eq_next.mp hStep
    have hSound := h.proceeds hInv (proceeds_step h.base (fun _ hEq => by cases hEq) hBase)
      (runs_step h.running hBase)
    cases hBase
    have hNone : newlyCompleted s.queue s.queue = [] := by simp [newlyCompleted]
    change Sound env capacity { s with
      toState := _, called := s.called ++ newlyCompleted s.queue s.queue } at hSound
    rw [hNone, append_nil] at hSound
    exact hSound
  | runCancel manager token =>
    rw [step] at hStep
    split at hStep
    · cases hStep
    · obtain ⟨t, hBase, rfl⟩ := Outcome.map_eq_next.mp hStep
      have hProceeds := proceeds_step h.base (fun _ hEq => by cases hEq) hBase
      have hSound := h.proceeds hInv hProceeds (runs_step h.running hBase)
      refine hSound.setFlushing manager _ fun _ => hProceeds.cancelling manager ?_
      simp only [QueueCancellation.step] at hBase
      split at hBase
      · cases hBase
      · rename_i hFind
        exact h.running manager (ne_nil_of_mem (mem_of_find?_eq_some hFind))
  | endCancel manager =>
    rw [step] at hStep
    split at hStep
    · cases hStep
    · rename_i hIdle
      obtain ⟨t, hBase, rfl⟩ := Outcome.map_eq_next.mp hStep
      have hRunning := runs_step h.running hBase
      simp only [QueueCancellation.step] at hBase
      split at hBase
      · cases hBase
        refine ⟨hInv, h.answers, hRunning, fun other hBusy => ?_, h.apart⟩
        have hOther : other ≠ manager := by
          rintro rfl
          exact hIdle hBusy
        simp only [QueueCancellation.setManager, update_of_ne hOther]
        exact h.owned other hBusy
      · cases hBase
  | cleanUp flush => exact h.cleanUp flush hStep

omit [Inhabited α] in
theorem sound_init (name : String) (specifiedShapes : Bool) :
    Sound env capacity (init capacity name specifiedShapes : State k α) where
  base := QueueCancellation.inv_init name specifiedShapes
  answers := .refl _
  running manager hSome := absurd rfl hSome
  owned manager hBusy := by
    simp [State.busy, init] at hBusy
  apart i j c d _ hc := by
    cases hc

theorem sound_reach {name : String} {specifiedShapes : Bool}
    (hReach : Reach (step kind env) (Permits kind env) (init capacity name specifiedShapes) s) :
    Sound env capacity s :=
  Reach.invariant (Sound env capacity) (sound_init name specifiedShapes)
    (fun _ _ _ hSound hPermits hStep => sound_step hSound hPermits hStep) hReach

end Steps

section Progress

/-- A clean-up goes on, or it waits for a manager whose `StartCancel` goes on. -/
theorem Sound.goesOn_of (h : Sound env capacity s) {i id : Nat} {c : CleanUps} {rest : List Nat}
    (hc : s.cleanUps[i]? = some c) (hCalls : c.calls = id :: rest)
    (hFree : ∀ manager token, s.tokens id = some (manager, token) →
      ∀ d ∈ s.cleanUps, d.canceller = some manager → d.calls = []) :
    ∃ move s', move.isPending ∧ step kind env s move = .next s' := by
  have hStep : ∀ t, QueueCancellation.step kind env s.toState (.cleanUp id) = .next t →
      ∃ move s', move.isPending ∧ step kind env s move = .next s' := by
    intro t hBase
    have hNext : step kind env s (.cleanUp i) = .next { s with
        toState := t
        cleanUps := s.cleanUps.set i ⟨c.canceller, rest⟩
        called := s.called ++ [id] } := by
      rw [step, hc, show c = ⟨c.canceller, id :: rest⟩ by rw [← hCalls]]
      exact Outcome.map_eq_next.mpr ⟨t, hBase, rfl⟩
    exact ⟨_, _, rfl, hNext⟩
  rw [QueueCancellation.step] at hStep
  cases hTokens : s.tokens id with
  | none => exact hStep s.toState (by rw [hTokens])
  | some found =>
    obtain ⟨manager, token⟩ := found
    cases hCancelling : (s.managers manager).isCancelling with
    | false =>
      apply hStep (QueueCancellation.setManager s.toState manager
        ((s.managers manager).deregisterCallback token))
      simp only [hTokens, hCancelling, Bool.false_eq_true, if_false]
    | true =>
      have hNone : (s.cleanUps.any fun d =>
          d.canceller = some manager && !d.calls.isEmpty) = false := by
        rw [any_eq_false]
        intro d hd
        rw [Bool.and_eq_true, decide_eq_true_eq]
        rintro ⟨hOwner, hSome⟩
        rw [hFree manager token hTokens d hd hOwner] at hSome
        cases hSome
      cases hFlushing : s.flushing manager with
      | true =>
        obtain ⟨q, hFlush, -⟩ := QueueCancellation.flush_ends kind h.base
        exact ⟨.flush (some manager), _, rfl,
          (if_pos hFlushing).trans (Outcome.map_eq_next.mpr ⟨_, hFlush, rfl⟩)⟩
      | false =>
        have hIdle : s.busy manager = false := by rw [State.busy, hFlushing, hNone, Bool.or_false]
        cases hRunning : (s.managers manager).running with
        | nil =>
          have hEnd : QueueCancellation.step kind env s.toState (.endCancel manager) =
              .next (QueueCancellation.setManager s.toState manager
                (s.managers manager).endCancel) := by
            simp [QueueCancellation.step, hCancelling, hRunning]
          exact ⟨.endCancel manager, _, rfl,
            (if_neg (by simp [hIdle])).trans (Outcome.map_eq_next.mpr ⟨_, hEnd, rfl⟩)⟩
        | cons callback running =>
          have hRun : ∃ t, QueueCancellation.step kind env s.toState
              (.runCancel manager callback.1) = .next t := by
            simp [QueueCancellation.step, hRunning]
          obtain ⟨t, hRun⟩ := hRun
          exact ⟨.runCancel manager callback.1, _, rfl,
            (if_neg (by simp [hIdle])).trans (Outcome.map_eq_next.mpr ⟨t, hRun, rfl⟩)⟩

/-- Of the flushes of cancellations with calls to clean up, the last one waits for none. -/
theorem Sound.goesOn (h : Sound env capacity s) {c : CleanUps} (hMem : c ∈ s.cleanUps)
    (hSome : c.calls ≠ []) :
    ∃ move s', move.isPending ∧ step kind env s move = .next s' := by
  classical
  let Owned (i : Nat) : Prop := ∃ d, s.cleanUps[i]? = some d ∧ d.canceller ≠ none ∧ d.calls ≠ []
  by_cases hOwned : ∃ i, Owned i
  · obtain ⟨i, hi⟩ := hOwned
    have hBound : ∀ j, Owned j → j ≤ s.cleanUps.length := by
      rintro j ⟨d, hd, -⟩
      exact (List.getElem?_eq_some_iff.mp hd).1.le
    obtain ⟨d, hd, hOwner, hCalls⟩ : Owned (Nat.findGreatest Owned s.cleanUps.length) :=
      Nat.findGreatest_spec (hBound i hi) hi
    obtain ⟨id, rest, hCons⟩ := exists_cons_of_ne_nil hCalls
    refine h.goesOn_of hd hCons fun manager token hToken c' hc' hOther => ?_
    by_contra hSome'
    obtain ⟨j, hj⟩ := mem_iff_getElem?.mp hc'
    have hOwned' : Owned j := ⟨c', hj, by rw [hOther]; simp, hSome'⟩
    have hLe := Nat.le_findGreatest (hBound j hOwned') hOwned'
    exact h.apart j _ c' d hLe hj hd manager hOther hSome' hOwner id
      (by rw [hCons]; exact mem_cons_self ..) token hToken
  · obtain ⟨i, hi⟩ := mem_iff_getElem?.mp hMem
    obtain ⟨id, rest, hCons⟩ := exists_cons_of_ne_nil hSome
    refine h.goesOn_of hi hCons fun manager token _ c' hc' hOther => ?_
    by_contra hSome'
    obtain ⟨j, hj⟩ := mem_iff_getElem?.mp hc'
    exact hOwned ⟨j, c', hj, by rw [hOther]; simp, hSome'⟩

end Progress

def Rests (minAfterDequeue capacity : Nat) (q : QueueBase k α) : Prop :=
  (q.enqueueAttempts ≠ [] → q.closed = false ∧ capacity ≤ q.size) ∧
    (q.dequeueAttempts ≠ [] → q.closed = false ∧ q.size ≤ minAfterDequeue) ∧
    (minAfterDequeue < capacity → q.enqueueAttempts = [] ∨ q.dequeueAttempts = [])

/-- Every call has its callback called once, or waits, or a flush has yet to call its callback,
which it will not wait for forever; and a flush ends with no attempt at the front of a deque that
could go on. -/
structure Completes (kind : QueueKind) (env : Env k) (capacity : Nat) (s : State k α) : Prop where
  once : (s.called ++ s.cleanUps.flatMap CleanUps.calls ++
    waiting (s.queue.enqueueAttempts ++ s.queue.dequeueAttempts)).Perm
      (range s.queue.calls.length)
  goesOn : ∀ c ∈ s.cleanUps, c.calls ≠ [] →
    ∃ move s', move.isPending ∧ step kind env s move = .next s'
  rests : ∀ canceller : Option Nat, canceller.all s.flushing →
    ∃ s', step kind env s (.flush canceller) = .next s' ∧
      Rests kind.minAfterDequeue capacity s'.queue

theorem operations_complete_once (kind : QueueKind) (env : Env k) (capacity : Nat)
    (name : String) (specifiedShapes : Bool) (s : State k α)
    (hReach : Reach (step kind env) (Permits kind env) (init capacity name specifiedShapes) s) :
    Completes kind env capacity s := by
  have hSound := sound_reach hReach
  refine ⟨?_, fun c => hSound.goesOn, ?_⟩
  · rw [waiting_append]
    exact (hSound.answers.append_right _).trans hSound.base.kept.answers
  · intro canceller hFlushing
    obtain ⟨q, hFlush, -, -, hInv, hSettled⟩ := QueueCancellation.flush_ends kind hSound.base
    have hNext : step kind env s (.flush canceller) = .next { s with
        queue := q
        flushing := canceller.elim s.flushing fun manager => update s.flushing manager false
        cleanUps := s.cleanUps ++ [⟨canceller, newlyCompleted s.queue q⟩] } :=
      (if_pos hFlushing).trans (Outcome.map_eq_next.mpr ⟨_, hFlush, rfl⟩)
    refine ⟨_, hNext, ?_⟩
    · have hFull : q.enqueueAttempts ≠ [] → q.closed = false ∧ capacity ≤ q.size := by
        intro hSome
        obtain ⟨a, rest, hFront⟩ := exists_cons_of_ne_nil hSome
        obtain ⟨hOpen, hRoom, -⟩ := hSettled.enqueue a rest hFront
        rw [show q.capacity = capacity from hInv.capacity] at hRoom
        exact ⟨hOpen, hRoom⟩
      have hFew : q.dequeueAttempts ≠ [] → q.closed = false ∧ q.size ≤ kind.minAfterDequeue := by
        intro hSome
        obtain ⟨a, rest, hFront⟩ := exists_cons_of_ne_nil hSome
        exact hSettled.dequeue a rest hFront
      refine ⟨hFull, hFew, fun hMin => ?_⟩
      by_contra hBoth
      rw [not_or] at hBoth
      have hFull' := (hFull hBoth.1).2
      have hFew' := (hFew hBoth.2).2
      omega

/-- The `TryDequeueMany` of manager 1 takes all elements, and the rest of the `EnqueueMany` is
cancelled while another `TryEnqueue` of manager 0 waits. -/
def cancelledBatch : List (Move 0 Nat) :=
  [.call 0 (.tryEnqueueMany fun _ => [1, 2, 3, 4, 5]), .flush none,
    .call 0 (.tryEnqueue fun _ => 6),
    .flush none, .startCancel 0, .runCancel 0 0, .flush (some 0), .runCancel 0 1, .flush (some 0),
    .call 1 (.tryDequeueMany 1 false), .endCancel 0, .flush none, .cleanUp 4, .call 0 .tryDequeue]

def shuffling : QueueKind := .randomShuffle ⟨1, fun copies callbacks => copies + callbacks⟩

def small (_ : State 0 Nat) : Move 0 Nat → Bool
  | .call _ (.tryEnqueueMany t) => (t 0).length < 2 ^ 31
  | _ => true

theorem copyableCalls_of_small (s : State 0 Nat) (move : Move 0 Nat) (hSmall : small s move) :
    CopyableCalls (ofTypes fun _ => .int32) s move := by
  cases move with
  | call manager call =>
    cases call with
    | tryEnqueueMany t =>
      exact fun _ => ⟨fun i => by rw [Fin.fin_one_eq_zero i], of_decide_eq_true hSmall,
        .inl fun _ _ => rfl⟩
    | _ => trivial
  | _ => trivial

def permitted (s : State 0 Nat) (move : Move 0 Nat) : Bool :=
  small s move && match move with
  | .flush (some _) => stalled shuffling.minAfterDequeue s.queue || uncancelled s.toState
  | _ => true

theorem operations_complete_once_cancelled :
    ∃ s : State 0 Nat,
      Reach (step shuffling (ofTypes fun _ => .int32)) (Permits shuffling (ofTypes fun _ => .int32))
          (init 2 "q" true) s ∧
        s.called = [0, 1, 2, 3] ∧ Completes shuffling (ofTypes fun _ => .int32) 2 s := by
  have hPermits : ∀ (s : State 0 Nat) (move : Move 0 Nat), permitted s move →
      Permits shuffling (ofTypes fun _ => .int32) s move := by
    intro s move hOk
    have hOk' := Bool.and_eq_true_iff.mp hOk
    refine ⟨copyableCalls_of_small s move hOk'.1, ?_⟩
    rintro manager rfl
    exact Bool.or_eq_true_iff.mp hOk'.2
  obtain ⟨s, hReach, hTest⟩ := exists_reach_of_exec
    (step shuffling (ofTypes fun _ : Fin 1 => .int32)) (init 2 "q" true) permitted hPermits
    cancelledBatch (fun s => s.called = [0, 1, 2, 3]) (by decide +kernel)
  exact ⟨s, hReach, of_decide_eq_true hTest,
    operations_complete_once shuffling (ofTypes fun _ => .int32) 2 "q" true s hReach⟩

section Stuck

/-- The flush `i` waits for the manager whose `StartCancel` runs it. -/
structure WaitsForItself (i id manager : Nat) (s : State k α) : Prop where
  known : id < s.queue.calls.length
  cleanUps : ∃ rest, s.cleanUps[i]? = some ⟨some manager, id :: rest⟩
  token : ∃ token, s.tokens id = some (manager, token)
  cancelling : (s.managers manager).isCancelling

variable {i id manager : Nat}

omit [Inhabited α] in
theorem WaitsForItself.busy (h : WaitsForItself i id manager s) : s.busy manager := by
  obtain ⟨rest, hEntry⟩ := h.cleanUps
  rw [State.busy, Bool.or_eq_true, any_eq_true]
  exact .inr ⟨_, mem_of_getElem? hEntry, by simp⟩

theorem WaitsForItself.cleanUps_step {move : Move k α} (h : WaitsForItself i id manager s)
    (hStep : step kind env s move = .next s') : s'.cleanUps[i]? = s.cleanUps[i]? := by
  obtain ⟨rest, hEntry⟩ := h.cleanUps
  obtain ⟨token, hToken⟩ := h.token
  cases move with
  | flush canceller =>
    rw [step] at hStep
    split at hStep
    · obtain ⟨t, hBase, rfl⟩ := Outcome.map_eq_next.mp hStep
      exact getElem?_append_left (List.getElem?_eq_some_iff.mp hEntry).1
    · cases hStep
  | cleanUp flush =>
    rw [step] at hStep
    split at hStep
    · rename_i canceller id' rest' hFind
      obtain ⟨t, hBase, rfl⟩ := Outcome.map_eq_next.mp hStep
      refine getElem?_set_ne ?_
      rintro rfl
      cases hEntry.symm.trans hFind
      simp [QueueCancellation.step, hToken, h.cancelling] at hBase
    · cases hStep
  | runCancel other token =>
    rw [step] at hStep
    split at hStep
    · cases hStep
    · obtain ⟨t, hBase, rfl⟩ := Outcome.map_eq_next.mp hStep
      rfl
  | endCancel other =>
    rw [step] at hStep
    split at hStep
    · cases hStep
    · obtain ⟨t, hBase, rfl⟩ := Outcome.map_eq_next.mp hStep
      rfl
  | call other call =>
    cases hStep
    rfl
  | startCancel other =>
    cases hStep
    rfl

theorem WaitsForItself.step {move : Move k α} (hInv : QueueCancellation.Inv env capacity s.toState)
    (h : WaitsForItself i id manager s) (hStep : step kind env s move = .next s') :
    WaitsForItself i id manager s' := by
  obtain ⟨action, hBase, -, hEnd⟩ := base_step hStep
  have hCleanUps := h.cleanUps_step hStep
  by_cases hCancels : ∃ other, action = .endCancel other
  · obtain ⟨other, rfl⟩ := hCancels
    have hOther : manager ≠ other := by
      rintro rfl
      exact Bool.noConfusion ((hEnd manager rfl).symm.trans h.busy)
    simp only [QueueCancellation.step] at hBase
    split at hBase
    · have hState : s'.toState = QueueCancellation.setManager s.toState other
          (s.managers other).endCancel := by
        simpa using hBase.symm
      refine ⟨?_, hCleanUps ▸ h.cleanUps, ?_, ?_⟩
      · rw [hState]
        exact h.known
      · rw [hState]
        exact h.token
      · simp only [hState, QueueCancellation.setManager, update_of_ne hOther]
        exact h.cancelling
    · cases hBase
  · have hProceeds := proceeds_step hInv (fun other hEq => hCancels ⟨other, hEq⟩) hBase
    refine ⟨Nat.lt_of_lt_of_le h.known hProceeds.calls, ?_, ?_,
      hProceeds.cancelling manager h.cancelling⟩
    · rw [hCleanUps]
      exact h.cleanUps
    · rw [hProceeds.tokens id h.known]
      exact h.token

theorem WaitsForItself.forever (hInv : QueueCancellation.Inv env capacity s.toState)
    (h : WaitsForItself i id manager s)
    (hReach : Reach (QueueCompletion.step kind env) (CopyableCalls env) s s') :
    WaitsForItself i id manager s' := by
  refine (Reach.invariant
    (fun s => QueueCancellation.Inv env capacity s.toState ∧ WaitsForItself i id manager s)
    ⟨hInv, h⟩ ?_ hReach).2
  intro s move s' hBoth hCopyable hStep
  exact ⟨inv_step hBoth.1 hCopyable hStep, hBoth.2.step hBoth.1 hStep⟩

end Stuck

def halfPushed : List (Move 1 Nat) :=
  [.call 0 (.tryEnqueueMany fun _ => [1]), .flush none, .call 0 .tryDequeue]

/-- The second `TryEnqueue` is cancelled, so that the `Close` behind it goes on, and after it the
third `TryEnqueue`, whose manager is the one that cancels. -/
def cancelledBeforeClose : List (Move 0 Nat) :=
  [.call 0 (.tryEnqueue fun _ => 1), .flush none, .cleanUp 0, .call 0 (.tryEnqueue fun _ => 2),
    .flush none, .call 0 (.close false), .flush none, .call 0 (.tryEnqueue fun _ => 3), .flush none,
    .startCancel 0, .runCancel 0 1, .flush (some 0), .cleanUp 4]

def intAndUint16 (i : Fin 2) : DataType := if i.val = 0 then .int32 else .uint16

/-- A flush reads the front of an empty component, and a callback is never called. -/
theorem operations_fail :
    (¬∀ s : State 1 Nat, Reach (step .fifo (ofTypes intAndUint16)) anyStep (init 1 "q" true) s →
      ∃ s', step .fifo (ofTypes intAndUint16) s (.flush none) = .next s') ∧
    ¬∀ s : State 0 Nat, Reach (step .fifo (ofTypes fun _ => .int32)) anyStep (init 1 "q" true) s →
      ∀ c ∈ s.cleanUps, ∀ id ∈ c.calls, ∃ s',
        Reach (step .fifo (ofTypes fun _ => .int32)) (CopyableCalls (ofTypes fun _ => .int32)) s
          s' ∧
          ∀ c ∈ s'.cleanUps, id ∉ c.calls := by
  refine ⟨fun hFlush => ?_, fun hCalled => ?_⟩
  · obtain ⟨s, hReach, hTest⟩ := exists_reach_of_exec (step .fifo (ofTypes intAndUint16))
      (init 1 "q" true) always anyStep_of_always halfPushed
      (fun s => match step .fifo (ofTypes intAndUint16) s (.flush none) with
        | .next _ => false
        | _ => true) (by decide +kernel)
    obtain ⟨s', hNext⟩ := hFlush s hReach
    rw [hNext] at hTest
    cases hTest
  · obtain ⟨s, hReach, hTest⟩ := exists_reach_of_exec (step .fifo (ofTypes fun _ : Fin 1 => .int32))
      (init 1 "q" true) small copyableCalls_of_small cancelledBeforeClose
      (fun s => s.queue.calls.length = 4 ∧ s.cleanUps[4]? = some ⟨some 0, [3]⟩ ∧
        s.tokens 3 = some (0, 2) ∧ (s.managers 0).isCancelling) (by decide +kernel)
    obtain ⟨hCalls, hEntry, hToken, hCancelling⟩ := of_decide_eq_true hTest
    have hInv : QueueCancellation.Inv (ofTypes fun _ => .int32) 1 s.toState :=
      Reach.invariant (fun s : State 0 Nat => QueueCancellation.Inv _ 1 s.toState)
        (QueueCancellation.inv_init "q" true)
        (fun _ _ _ hInv hCopyable hStep => inv_step hInv hCopyable hStep) hReach
    have hWaits : WaitsForItself 4 3 0 s := ⟨by omega, ⟨[], hEntry⟩, ⟨2, hToken⟩, hCancelling⟩
    obtain ⟨s', hAfter, hNone⟩ := hCalled s (hReach.mono fun _ _ _ => trivial) _
      (mem_of_getElem? hEntry) 3 (mem_singleton_self _)
    obtain ⟨rest, hStill⟩ := (hWaits.forever hInv hAfter).cleanUps
    exact hNone _ (mem_of_getElem? hStill) (mem_cons_self ..)

end QueueCompletion

end TensorFlowOnSpark.Kernels
