import TensorFlowOnSpark.Kernels.QueueBaseEntering
import TensorFlowOnSpark.Kernels.QueueDisciplineRuns

/-!
# Queues whose operations can be cancelled

`Cancel` of `kernels/queue_base.cc` and `CancellationManager` of
`framework/cancellation.cc`.
-/

namespace TensorFlowOnSpark.Kernels

open Framework Transition QueueBase FifoQueue Discipline List Function

universe u

variable {k : Nat} {α : Type u}

/-- `QueueBase::Action`. -/
inductive Side where
  | enqueue | dequeue
deriving DecidableEq, Repr

def Side.cancelled : Side → Status
  | .enqueue => Errors.cancelled "Enqueue operation was cancelled"
  | .dequeue => Errors.cancelled "Dequeue operation was cancelled"

/-- `running` are the callbacks that `StartCancel` has taken and not yet called. -/
structure CancellationManager where
  isCancelling : Bool
  isCancelled : Bool
  nextCancellationToken : Nat
  callbacks : List (Nat × Side)
  running : List (Nat × Side)

namespace CancellationManager

def new : CancellationManager := ⟨false, false, 0, [], []⟩

variable (manager : CancellationManager)

def shouldRegister : Bool := !manager.isCancelled && !manager.isCancelling

/-- `get_cancellation_token` and `RegisterCallback`. -/
def register (side : Side) : CancellationManager :=
  let token := manager.nextCancellationToken
  { manager with
    nextCancellationToken := token + 1
    callbacks :=
      if manager.shouldRegister then (token, side) :: manager.callbacks else manager.callbacks }

/-- `StartCancel` up to its first callback. -/
def startCancel : CancellationManager :=
  if manager.isCancelled || manager.isCancelling then manager
  else { manager with isCancelling := true, callbacks := [], running := manager.callbacks }

/-- `StartCancel` after its last callback. -/
def endCancel : CancellationManager :=
  { manager with isCancelling := false, isCancelled := true }

def deregisterCallback (token : Nat) : CancellationManager :=
  if manager.isCancelled then manager
  else { manager with callbacks := manager.callbacks.filter fun c => c.1 ≠ token }

end CancellationManager

namespace QueueBase

/-- The loop of `Cancel` over the attempts of one deque, and the attempt whose callback is
called. -/
def cancelFirst (matching : Nat → Bool) (status : Status) :
    List (Attempt k α) → List (Attempt k α) × Option (Attempt k α)
  | [] => ([], none)
  | a :: rest =>
    if matching a.id then
      if a.isCancelled then (a :: rest, none)
      else
        let a' := { a with isCancelled := true }.setStatus status
        (a' :: rest, some a')
    else
      let (rest', callback) := cancelFirst matching status rest
      (a :: rest', callback)

def called (q : QueueBase k α) : Option (Attempt k α) → QueueBase k α
  | none => q
  | some a => q.finish a

/-- `Cancel` up to its flush; an attempt is found by the call that made it. -/
def cancel (matching : Nat → Bool) (q : QueueBase k α) : Side → QueueBase k α
  | .enqueue =>
    let (attempts, callback) := cancelFirst matching Side.enqueue.cancelled q.enqueueAttempts
    { q with enqueueAttempts := attempts }.called callback
  | .dequeue =>
    let (attempts, callback) := cancelFirst matching Side.dequeue.cancelled q.dequeueAttempts
    { q with dequeueAttempts := attempts }.called callback

def sideOf (q : QueueBase k α) : Call k α → Option Side
  | .tryEnqueue _ => some .enqueue
  | .tryEnqueueMany tuple => if (tuple 0).length = 0 then none else some .enqueue
  | .tryDequeue => some .dequeue
  | .tryDequeueMany numElements _ =>
    if !q.specifiedShapes || numElements = 0 then none else some .dequeue
  | .close _ => none

end QueueBase

inductive QueueKind where
  | fifo
  | randomShuffle (settings : RandomShuffleQueue.Settings)

namespace QueueKind

def minAfterDequeue : QueueKind → Nat
  | .fifo => 0
  | .randomShuffle settings => settings.minAfterDequeue

variable [Inhabited α]

def runCallback (env : Env k) : QueueKind → QueueBase k α → Attempt k α → Except Fault (Run k α)
  | .fifo => FifoQueue.runCallback env
  | .randomShuffle settings => RandomShuffleQueue.runCallback settings env

def enter : QueueKind → QueueBase k α → Call k α → QueueBase k α
  | .fifo => FifoQueue.enter
  | .randomShuffle settings => RandomShuffleQueue.enter settings

end QueueKind

namespace QueueCancellation

/-- `tokens` are the manager and the token of an attempt, by the call that made it. -/
structure State (k : Nat) (α : Type u) where
  queue : QueueBase k α
  managers : Nat → CancellationManager
  tokens : Nat → Option (Nat × Nat)

inductive Action (k : Nat) (α : Type u) where
  | call (manager : Nat) (call : Call k α)
  | flush
  | startCancel (manager : Nat)
  | runCancel (manager token : Nat)
  | endCancel (manager : Nat)
  | cleanUp (id : Nat)

def setManager (s : State k α) (manager : Nat) (m : CancellationManager) : State k α :=
  { s with managers := update s.managers manager m }

variable [Inhabited α]

/-- A call up to its flush: an operation of a cancelled manager is answered at once. -/
def enter (kind : QueueKind) (s : State k α) (manager : Nat) (call : Call k α) : State k α :=
  let q := s.queue
  match q.sideOf call with
  | none => { s with queue := { kind.enter q call with calls := q.calls ++ [call] } }
  | some side =>
    let m := s.managers manager
    let q' :=
      if m.shouldRegister then kind.enter q call else answer q side.cancelled .finished
    { queue := { q' with calls := q.calls ++ [call] }
      managers := update s.managers manager (m.register side)
      tokens := update s.tokens q.calls.length
        (some (manager, m.nextCancellationToken)) }

def step (kind : QueueKind) (env : Env k) (s : State k α) :
    Action k α → Outcome (State k α) Failure
  | .call manager call => .next (enter kind s manager call)
  | .flush =>
    match flushLoop (kind.runCallback env) (s.queue.effort + 1) s.queue with
    | .error fault => .failed (.undefined fault)
    | .ok none => .failed .endlessFlush
    | .ok (some q) => .next { s with queue := q }
  | .startCancel manager =>
    .next (setManager s manager (s.managers manager).startCancel)
  | .runCancel manager token =>
    let m := s.managers manager
    match m.running.find? fun c => c.1 = token with
    | none => .blocked
    | some (_, side) =>
      let matching id := s.tokens id = some (manager, token)
      .next (setManager { s with queue := s.queue.cancel matching side } manager
        { m with running := m.running.filter fun c => c.1 ≠ token })
  | .endCancel manager =>
    let m := s.managers manager
    if m.isCancelling && m.running.isEmpty then .next (setManager s manager m.endCancel)
    else .blocked
  -- the clean-up of a completed attempt, which waits for a cancellation that is under way
  | .cleanUp id =>
    match s.tokens id with
    | none => .next s
    | some (manager, token) =>
      let m := s.managers manager
      if m.isCancelling then .blocked
      else .next (setManager s manager (m.deregisterCallback token))

def init (capacity : Nat) (name : String) (specifiedShapes : Bool) : State k α where
  queue := FifoQueue.init capacity name specifiedShapes
  managers _ := .new
  tokens _ := none

/-- A nonempty batch passed `ValidateManyTuple`, its size fits into `int32`, and its elements
are copied whole or not at all. -/
def Copyable (env : Env k) : Call k α → Prop
  | .tryEnqueueMany t => (t 0).length ≠ 0 → (∀ i, (t i).length = (t 0).length) ∧
      (t 0).length < 2 ^ 31 ∧ PushesWhole env
  | _ => True

end QueueCancellation

variable {Regular : Prop} {Fit : Operation k α → Int → Prop}
  {es ds : List (Attempt k α)} {q : QueueBase k α}

namespace QueueBase

theorem cancelFirst_spec (matching : Nat → Bool) (status : Status) (attempts : List (Attempt k α)) :
    (∀ b ∈ (cancelFirst matching status attempts).1, ∃ a ∈ attempts, SameBut a b) ∧
      (waiting attempts).Perm
        (((cancelFirst matching status attempts).2.map fun a => a.id).toList ++
        waiting (cancelFirst matching status attempts).1) := by
  induction attempts with
  | nil => exact ⟨by simp [cancelFirst], .refl _⟩
  | cons a rest ih =>
    rw [cancelFirst]
    split
    · split
      · exact ⟨fun b hb => ⟨b, hb, rfl, rfl⟩, .refl _⟩
      · rename_i hActive
        rw [Bool.not_eq_true] at hActive
        refine ⟨?_, ?_⟩
        · intro b hb
          rcases mem_cons.mp hb with rfl | hb
          · exact ⟨a, mem_cons_self .., setStatus_operation _ _,
              setStatus_elementsRequested _ _⟩
          · exact ⟨b, mem_cons_of_mem _ hb, rfl, rfl⟩
        · rw [waiting_active _ hActive, waiting_cancelled _ (setStatus_isCancelled _ _)]
          simp only [Option.map_some, setStatus_id]
          exact .refl _
    · obtain ⟨hSame, hPerm⟩ := ih
      refine ⟨?_, ?_⟩
      · intro b hb
        rcases mem_cons.mp hb with rfl | hb
        · exact ⟨b, mem_cons_self .., rfl, rfl⟩
        · obtain ⟨a', ha', hSame'⟩ := hSame b hb
          exact ⟨a', mem_cons_of_mem _ ha', hSame'⟩
      · rcases hCancelled : a.isCancelled with _ | _
        · rw [waiting_active _ hCancelled]
          rw [waiting_active _ hCancelled]
          exact (Perm.cons a.id hPerm).trans perm_middle.symm
        · rw [waiting_cancelled _ hCancelled]
          rw [waiting_cancelled _ hCancelled]
          exact hPerm

theorem answers_called (before : List Nat) {completed waits waits' after calls : List Nat}
    (callback : Option Nat) (hPerm : waits.Perm (callback.toList ++ waits'))
    (h : (completed ++ (before ++ (waits ++ after))).Perm calls) :
    (completed ++ callback.toList ++ (before ++ (waits' ++ after))).Perm calls := by
  refine Perm.trans ?_ h
  rw [append_assoc]
  apply Perm.append_left
  rw [← append_assoc]
  refine (perm_append_comm.append_right _).trans ?_
  rw [append_assoc, ← append_assoc callback.toList]
  exact Perm.append_left _ (hPerm.symm.append_right _)

theorem called_eq (q : QueueBase k α) (callback : Option (Attempt k α)) :
    ∃ completed, q.called callback = { q with completed := completed } ∧
      completed.map (fun c => c.id) =
        q.completed.map (fun c => c.id) ++ (callback.map fun a => a.id).toList := by
  cases callback with
  | none => exact ⟨q.completed, rfl, by simp⟩
  | some a => exact ⟨_, rfl, by simp⟩

theorem Kept.cancel (h : Kept Regular Fit q.enqueueAttempts q.dequeueAttempts q)
    (matching : Nat → Bool) (side : Side) :
    Kept Regular Fit (q.cancel matching side).enqueueAttempts
      (q.cancel matching side).dequeueAttempts (q.cancel matching side) := by
  cases side with
  | enqueue =>
    obtain ⟨hSame, hPerm⟩ := cancelFirst_spec matching Side.enqueue.cancelled q.enqueueAttempts
    rw [QueueBase.cancel]
    obtain ⟨completed, hEq, hIds⟩ := called_eq
      { q with enqueueAttempts :=
        (cancelFirst matching Side.enqueue.cancelled q.enqueueAttempts).1 }
      (cancelFirst matching Side.enqueue.cancelled q.enqueueAttempts).2
    simp only [hEq]
    constructor
    · intro b hb
      obtain ⟨a, ha, hSame'⟩ := hSame b hb
      rw [hSame'.operation]
      exact h.enqueues a ha
    · exact h.dequeues
    · rw [hIds]
      exact answers_called [] _ hPerm h.answers
    · exact h.level
    · intro hRegular b hb
      rcases mem_append.mp hb with hb | hb
      · obtain ⟨a, ha, hSame'⟩ := hSame b hb
        rw [hSame'.operation, hSame'.elementsRequested]
        exact h.ready hRegular a (mem_append_left _ ha)
      · exact h.ready hRegular b (mem_append_right _ hb)
  | dequeue =>
    obtain ⟨hSame, hPerm⟩ := cancelFirst_spec matching Side.dequeue.cancelled q.dequeueAttempts
    rw [QueueBase.cancel]
    obtain ⟨completed, hEq, hIds⟩ := called_eq
      { q with dequeueAttempts :=
        (cancelFirst matching Side.dequeue.cancelled q.dequeueAttempts).1 }
      (cancelFirst matching Side.dequeue.cancelled q.dequeueAttempts).2
    simp only [hEq]
    constructor
    · exact h.enqueues
    · intro b hb
      obtain ⟨a, ha, hSame'⟩ := hSame b hb
      rw [hSame'.operation, hSame'.elementsRequested]
      exact h.dequeues a ha
    · rw [hIds]
      have hAnswers := h.answers
      rw [← append_nil (waiting q.dequeueAttempts)] at hAnswers
      have hAnswers' := answers_called _ _ hPerm hAnswers
      rw [append_nil] at hAnswers'
      exact hAnswers'
    · exact h.level
    · intro hRegular b hb
      rcases mem_append.mp hb with hb | hb
      · exact h.ready hRegular b (mem_append_left _ hb)
      · obtain ⟨a, ha, hSame'⟩ := hSame b hb
        rw [hSame'.operation, hSame'.elementsRequested]
        exact h.ready hRegular a (mem_append_right _ ha)

end QueueBase

namespace QueueKind

variable [Inhabited α]

def discipline : QueueKind → Discipline k α
  | .fifo => FifoQueue.discipline
  | .randomShuffle settings => RandomShuffleQueue.discipline settings

theorem lawful (kind : QueueKind) :
    (kind.discipline (k := k) (α := α)).Lawful kind.minAfterDequeue := by
  cases kind with
  | fifo => exact FifoQueue.lawful
  | randomShuffle settings => exact RandomShuffleQueue.lawful settings

theorem runCallback_eq (kind : QueueKind) (env : Env k) :
    kind.runCallback env = kind.discipline.runCallback (α := α) env := by
  cases kind with
  | fifo => exact (FifoQueue.runCallback_eq env).symm
  | randomShuffle settings => rfl

theorem enter_eq (kind : QueueKind) (q : QueueBase k α) (call : Call k α) :
    kind.enter q call = kind.discipline.enter q call := by
  cases kind with
  | fifo => exact (FifoQueue.enter_eq q call).symm
  | randomShuffle settings => rfl

end QueueKind

namespace QueueCancellation

variable [Inhabited α] {kind : QueueKind} {env : Env k} {capacity : Nat} {s s' : State k α}

structure Inv (env : Env k) (capacity : Nat) (s : State k α) : Prop where
  kept : Kept True (Safe env) s.queue.enqueueAttempts s.queue.dequeueAttempts s.queue
  capacity : s.queue.capacity = capacity

omit [Inhabited α] in
theorem inv_init (name : String) (specifiedShapes : Bool) :
    Inv env capacity (init capacity name specifiedShapes : State k α) where
  kept :=
    { enqueues := fun _ ha => absurd ha not_mem_nil
      dequeues := fun _ ha => absurd ha not_mem_nil
      answers := .refl _
      level := fun _ _ => rfl
      ready := fun _ _ ha => absurd ha not_mem_nil }
  capacity := rfl

omit [Inhabited α] in
theorem inv_answered (h : Inv env capacity s) (hQueue : s'.queue = s.queue) :
    Inv env capacity s' := by
  obtain ⟨hKept, hCapacity⟩ := h
  refine ⟨?_, ?_⟩
  · rw [hQueue]
    exact hKept
  · rw [hQueue]
    exact hCapacity

omit [Inhabited α] in
theorem fitCall_safe {call : Call k α} (h : Copyable env call) : FitCall (Safe env) call := by
  cases call with
  | tryEnqueueMany t =>
    intro hSome
    obtain ⟨hBatch, hSmall, hEnv⟩ := h hSome
    have hCount := toInt32_of_lt hSmall
    refine ⟨⟨hBatch, hSmall, ?_, ?_⟩, fun _ _ => hEnv⟩
    · omega
    · omega
  | _ => exact ⟨trivial, by simp⟩

theorem inv_enter (h : Inv env capacity s) (manager : Nat) {call : Call k α}
    (hCall : Copyable env call) : Inv env capacity (enter kind s manager call) := by
  have hSub : True → True ∧ FitCall (Safe env) call := fun _ => ⟨trivial, fitCall_safe hCall⟩
  have hEntered := h.kept.enterWith (kind.discipline (k := k) (α := α)).unspecifiedShapes hSub
  have hCapacity := (enterWith_capacity (kind.discipline (k := k) (α := α)).unspecifiedShapes
    s.queue call).trans h.capacity
  rw [enter]
  split
  · rw [kind.enter_eq]
    exact ⟨hEntered.setAttempts _ _, hCapacity⟩
  · rename_i side hSide
    rcases hRegister : (s.managers manager).shouldRegister with _ | _
    · simp only [hRegister]
      exact ⟨h.kept.answer _ _ _, h.capacity⟩
    · simp only [hRegister, kind.enter_eq]
      exact ⟨hEntered.setAttempts _ _, hCapacity⟩

theorem behavesWell (kind : QueueKind) (env : Env k) :
    BehavesWell (AtMost kind.minAfterDequeue) (kind.runCallback (α := α) env) := by
  rw [kind.runCallback_eq]
  exact Discipline.behavesWell kind.lawful

/-- A flush ends with no attempt at the front of a deque that could go on. -/
theorem flush_ends (kind : QueueKind) (h : Inv env capacity s) :
    ∃ q, step kind env s .flush = .next { s with queue := q } ∧ q.calls = s.queue.calls ∧
      s.queue.completed <+: q.completed ∧ Inv env capacity { s with queue := q } ∧
        Settled (AtMost kind.minAfterDequeue) q := by
  have hWell := behavesWell (α := α) kind env
  have hDefined : True → StaysDefined (Safe env) (kind.runCallback (α := α) env) := by
    rw [kind.runCallback_eq]
    exact fun _ => Discipline.staysDefined kind.lawful
  have hSteady : Steady True (Safe env) s.queue s.queue :=
    ⟨h.kept, rfl, rfl, .rfl, prefix_refl _⟩
  rcases flushLoop_settled hWell hDefined hSteady with ⟨q, hFlush, hSteady', hSettled⟩ | hFault
  · refine ⟨q, ?_, hSteady'.calls, hSteady'.completed, ⟨hSteady'.kept, ?_⟩, hSettled⟩
    · simp only [step, hFlush]
    · exact hSteady'.capacity.trans h.capacity
  · obtain ⟨fault, hFlush⟩ := hFault
    exact absurd hFlush (flushLoop_regular hWell hDefined hSteady trivial _ fault)

omit [Inhabited α] in
theorem cancelFirst_calls (q : QueueBase k α) (matching : Nat → Bool) (side : Side) :
    (q.cancel matching side).calls = q.calls ∧
      (q.cancel matching side).capacity = q.capacity := by
  cases side with
  | enqueue =>
    simp only [QueueBase.cancel]
    obtain ⟨completed, hEq, -⟩ := called_eq
      { q with enqueueAttempts :=
        (cancelFirst matching Side.enqueue.cancelled q.enqueueAttempts).1 }
      (cancelFirst matching Side.enqueue.cancelled q.enqueueAttempts).2
    rw [hEq]
    exact ⟨rfl, rfl⟩
  | dequeue =>
    simp only [QueueBase.cancel]
    obtain ⟨completed, hEq, -⟩ := called_eq
      { q with dequeueAttempts :=
        (cancelFirst matching Side.dequeue.cancelled q.dequeueAttempts).1 }
      (cancelFirst matching Side.dequeue.cancelled q.dequeueAttempts).2
    rw [hEq]
    exact ⟨rfl, rfl⟩

theorem inv_step {action : Action k α} (h : Inv env capacity s)
    (hCall : ∀ manager call, action = .call manager call → Copyable env call)
    (hStep : step kind env s action = .next s') : Inv env capacity s' := by
  cases action with
  | call manager call =>
    cases hStep
    exact inv_enter h manager (hCall manager call rfl)
  | flush =>
    obtain ⟨q, hFlush, -, -, hInv, -⟩ := flush_ends kind h
    rw [hFlush] at hStep
    cases hStep
    exact hInv
  | startCancel manager =>
    cases hStep
    exact inv_answered h rfl
  | runCancel manager token =>
    simp only [step] at hStep
    split at hStep
    · cases hStep
    · rename_i token' side _
      cases hStep
      obtain ⟨hCalls, hCapacity⟩ := cancelFirst_calls s.queue
        (fun id => s.tokens id = some (manager, token)) side
      exact ⟨h.kept.cancel (fun id => s.tokens id = some (manager, token)) side,
        hCapacity.trans h.capacity⟩
  | endCancel manager =>
    simp only [step] at hStep
    split at hStep
    · cases hStep
      exact inv_answered h rfl
    · cases hStep
  | cleanUp id =>
    simp only [step] at hStep
    split at hStep
    · cases hStep
      exact h
    · split at hStep
      · cases hStep
      · cases hStep
        exact inv_answered h rfl

end QueueCancellation

end TensorFlowOnSpark.Kernels
