import TensorFlowOnSpark.Kernels.FifoQueue

/-!
# What the queues without priorities have in common

The run callbacks of `RandomShuffleQueue` are those of `FIFOQueue` but for the element
that a dequeue removes, the number of elements that it may remove, the end at which a
partial batch is put back, the type of an index and the texts of the errors.
-/

namespace TensorFlowOnSpark.Kernels

open Framework List

universe u

variable {k : Nat} {α : Type u}

structure Discipline (k : Nat) (α : Type u) where
  closedStatus : QueueBase k α → Status
  insufficient : QueueBase k α → Int → Nat → Status
  restoreFailed : String → Status
  unspecifiedShapes : Status
  /-- The conversion of `tuple[0].dim_size(0) - attempt->elements_requested`. -/
  batchIndex : Int → Int
  /-- `queue_size` after `min_after_dequeue_` was taken off. -/
  available : QueueBase k α → Nat
  dequeueLocked : QueueBase k α → Except Fault (Tuple k α × QueueBase k α)
  putBack : List α → α → List α

/-- A call up to its flush. -/
def QueueBase.enterWith (unspecifiedShapes : Status) (q : QueueBase k α) :
    Call k α → QueueBase k α
  | .tryEnqueue tuple =>
    let a := FifoQueue.newAttempt q (.enqueue tuple) 1
    { q with enqueueAttempts := q.enqueueAttempts ++ [a] }
  | .tryEnqueueMany tuple =>
    if (tuple 0).length = 0 then FifoQueue.answer q .ok .finished
    else
      let requested := FifoQueue.toInt32 (tuple 0).length
      let a := FifoQueue.newAttempt q (.enqueueMany tuple) requested
      { q with enqueueAttempts := q.enqueueAttempts ++ [a] }
  | .tryDequeue =>
    let a := FifoQueue.newAttempt q .dequeue 1
    { q with dequeueAttempts := q.dequeueAttempts ++ [a] }
  | .tryDequeueMany numElements allowSmallBatch =>
    if !q.specifiedShapes then FifoQueue.answer q unspecifiedShapes .finished
    else if numElements = 0 then FifoQueue.answer q .ok (.batch fun _ => [])
    else
      let a := FifoQueue.newAttempt q (.dequeueMany allowSmallBatch) numElements
      { q with dequeueAttempts := q.dequeueAttempts ++ [a] }
  | .close true => FifoQueue.answer q.closeAndCancel .ok .finished
  | .close false =>
    let a := FifoQueue.newAttempt q .close 0
    { q with enqueueAttempts := q.enqueueAttempts ++ [a] }

/-- The loop of a `DequeueMany`, as many turns as it may remove elements. -/
def QueueBase.dequeueLoop [Inhabited α]
    (dequeueLocked : QueueBase k α → Except Fault (Tuple k α × QueueBase k α)) (env : Env k) :
    Nat → RunResult → QueueBase k α → Attempt k α → Except Fault (QueueBase.Run k α)
  | 0, result, q, a => .ok ⟨result, a, q⟩
  | size + 1, _, q, a =>
    let tuple := a.tuple.getD fun _ => replicate a.elementsRequested.toNat default
    match dequeueLocked q with
    | .error fault => .error fault
    | .ok (element, q') =>
      let index := ((tuple 0).length - a.elementsRequested).toNat
      match FifoQueue.copyComponents env element index (finRange (k + 1)) tuple q' a with
      | (false, tuple', a', q'') => .ok ⟨.complete, { a' with tuple := some tuple' }, q''⟩
      | (true, tuple', a', q'') =>
        let a'' :=
          { a' with tuple := some tuple', elementsRequested := a'.elementsRequested - 1 }
        if a''.elementsRequested = 0 then
          .ok ⟨.complete, { a'' with done := .batch tuple' }, q''⟩
        else dequeueLoop dequeueLocked env size .progress q'' a''

namespace Discipline

open QueueBase FifoQueue

variable (D : Discipline k α)

def runEnqueue (tuple : Tuple k α) (q : QueueBase k α) (a : Attempt k α) : Run k α :=
  if q.closed then ⟨.complete, a.setStatus (D.closedStatus q), q⟩
  else if q.size < q.capacity then
    ⟨.complete, a,
      { q with
        queues := fun i => q.queues i ++ [tuple i]
        accepted := q.accepted ++ [(a.id, tuple)] }⟩
  else ⟨.noProgress, a, q⟩

def runDequeue (q : QueueBase k α) (a : Attempt k α) : Except Fault (Run k α) :=
  if q.closed && q.size = 0 then
    .ok ⟨.complete, a.setStatus (D.insufficient q 1 q.size), q⟩
  else if 0 < D.available q then
    match D.dequeueLocked q with
    | .error fault => .error fault
    | .ok (tuple, q') => .ok ⟨.complete, { a with done := .element tuple }, q'⟩
  else .ok ⟨.noProgress, a, q⟩

variable [Inhabited α]

/-- The loop of an `EnqueueMany`, as many turns as there is room in the queue. -/
def enqueueManyLoop (env : Env k) (tuple : Batch k α) :
    Nat → RunResult → QueueBase k α → Attempt k α → Except Fault (Run k α)
  | 0, result, q, a => .ok ⟨result, a, q⟩
  | room + 1, _, q, a =>
    let index := D.batchIndex ((tuple 0).length - a.elementsRequested)
    match pushComponents env tuple index (finRange (k + 1)) q a with
    | .error fault => .error fault
    | .ok (false, a', q') => .ok ⟨.complete, a', q'⟩
    | .ok (true, a', q') =>
      let q'' := { q' with accepted := q'.accepted ++ [(a.id, elementAt tuple index.toNat)] }
      let a'' := { a' with elementsRequested := a'.elementsRequested - 1 }
      if a''.elementsRequested = 0 then .ok ⟨.complete, a'', q''⟩
      else enqueueManyLoop env tuple room .progress q'' a''

def runEnqueueMany (env : Env k) (tuple : Batch k α) (q : QueueBase k α) (a : Attempt k α) :
    Except Fault (Run k α) :=
  if q.closed then .ok ⟨.complete, a.setStatus (D.closedStatus q), q⟩
  else D.enqueueManyLoop env tuple (q.capacity - q.size) .noProgress q a

def restoreComponents (env : Env k) (tuple : Batch k α) (index : Nat) :
    List (Fin (k + 1)) → QueueBase k α → Attempt k α → Attempt k α × QueueBase k α
  | [], q, a => (a, q)
  | i :: rest, q, a =>
    let status := env.copySlice q.copies i
    let a' := if status = .ok then a else a.setStatus (D.restoreFailed status.errorMessage)
    let value := if status = .ok then (tuple i).getD index default else default
    let queues := Function.update q.queues i (D.putBack (q.queues i) value)
    restoreComponents env tuple index rest { q with copies := q.copies + 1, queues := queues } a'

def restore (env : Env k) (tuple : Batch k α) :
    Nat → QueueBase k α → Attempt k α → Attempt k α × QueueBase k α
  | 0, q, a => (a, q)
  | index + 1, q, a =>
    let (a', q') := D.restoreComponents env tuple index (finRange (k + 1)) q a
    restore env tuple index q' a'

def restoreBatch (env : Env k) (q : QueueBase k α) (a : Attempt k α) :
    Attempt k α × QueueBase k α :=
  match a.tuple with
  | none => (a, q)
  | some tuple => D.restore env tuple ((tuple 0).length - a.elementsRequested).toNat q a

/-- What a `DequeueMany` does before its loop when the queue is closed and too short: the run
ends, or it goes on with the attempt and the queue that are left. -/
def runShort (env : Env k) (allowSmallBatch : Bool) (q : QueueBase k α) (a : Attempt k α) :
    Run k α ⊕ Attempt k α × QueueBase k α :=
  let size := q.size
  let (a', q') := D.restoreBatch env q a
  if allowSmallBatch && 0 < q'.size then
    .inr ({ a' with tuple := none, elementsRequested := q'.size }, q')
  else if allowSmallBatch && !q'.enqueueAttempts.isEmpty then .inl ⟨.progress, a', q'⟩
  else .inl ⟨.complete, a'.setStatus (D.insufficient q' a'.elementsRequested size), q'⟩

def runDequeueMany (env : Env k) (allowSmallBatch : Bool) (q : QueueBase k α)
    (a : Attempt k α) : Except Fault (Run k α) :=
  if q.closed && (q.size : Int) < a.elementsRequested then
    match D.runShort env allowSmallBatch q a with
    | .inl run => .ok run
    | .inr (a', q') => dequeueLoop D.dequeueLocked env q'.size .noProgress q' a'
  else dequeueLoop D.dequeueLocked env (D.available q) .noProgress q a

def runCallback (env : Env k) (q : QueueBase k α) (a : Attempt k α) : Except Fault (Run k α) :=
  match a.operation with
  | .enqueue tuple => .ok (D.runEnqueue tuple q a)
  | .enqueueMany tuple => D.runEnqueueMany env tuple q a
  | .close => .ok (runClose q a)
  | .dequeue => D.runDequeue q a
  | .dequeueMany allowSmallBatch => D.runDequeueMany env allowSmallBatch q a

def enter (q : QueueBase k α) (call : Call k α) : QueueBase k α :=
  enterWith D.unspecifiedShapes q call

end Discipline

namespace FifoQueue

open QueueBase

variable [Inhabited α]

/-- The front element is removed, and a partial batch is put back at the front. -/
def discipline : Discipline k α where
  closedStatus q := Errors.cancelled ("FIFOQueue '" ++ q.name ++ "' is closed.")
  insufficient := insufficient
  restoreFailed message := .error .dataLoss ("Failed to restore element from partially-dequeued " ++
    "batch to FIFOQueue: " ++ message)
  unspecifiedShapes := Errors.invalidArgument ("FIFOQueue's DequeueMany and DequeueUpTo " ++
    "require the components to have specified shapes.")
  batchIndex index := index
  available := size
  dequeueLocked := dequeueLocked
  putBack elements value := value :: elements

section

variable (env : Env k)

include env

theorem enqueueManyLoop_eq (tuple : Batch k α) (room : Nat) (result : RunResult)
    (q : QueueBase k α) (a : Attempt k α) :
    discipline.enqueueManyLoop env tuple room result q a =
      enqueueManyLoop env tuple room result q a := by
  induction room generalizing result q a with
  | zero => rfl
  | succ room ih =>
    simp only [Discipline.enqueueManyLoop, ih]
    rfl

theorem restoreComponents_eq (tuple : Batch k α) (index : Nat)
    (components : List (Fin (k + 1))) (q : QueueBase k α) (a : Attempt k α) :
    discipline.restoreComponents env tuple index components q a =
      restoreComponents env tuple index components q a := by
  induction components generalizing q a with
  | nil => rfl
  | cons i rest ih =>
    simp only [Discipline.restoreComponents, ih]
    rfl

theorem restore_eq (tuple : Batch k α) (index : Nat) (q : QueueBase k α)
    (a : Attempt k α) : discipline.restore env tuple index q a = restore env tuple index q a := by
  induction index generalizing q a with
  | zero => rfl
  | succ index ih => simp only [restore, Discipline.restore, restoreComponents_eq, ih]

theorem dequeueManyLoop_eq (turns : Nat) (result : RunResult)
    (q : QueueBase k α) (a : Attempt k α) :
    dequeueLoop dequeueLocked env turns result q a = dequeueManyLoop env turns result q a := by
  induction turns generalizing result q a with
  | zero => rfl
  | succ turns ih =>
    simp only [dequeueLoop, ih]
    rfl

theorem runShort_eq (allowSmallBatch : Bool) (q : QueueBase k α) (a : Attempt k α) :
    discipline.runShort env allowSmallBatch q a = runShort env allowSmallBatch q a := by
  simp only [Discipline.runShort, Discipline.restoreBatch, restore_eq]
  rfl

theorem runCallback_eq : discipline.runCallback env = runCallback (α := α) env := by
  funext q a
  rw [runCallback, Discipline.runCallback]
  cases a.operation with
  | enqueue tuple => rfl
  | enqueueMany tuple =>
    simp only [Discipline.runEnqueueMany, enqueueManyLoop_eq]
    rfl
  | close => rfl
  | dequeue => rfl
  | dequeueMany allowSmallBatch =>
    simp only [runDequeueMany, Discipline.runDequeueMany, runShort_eq, ← dequeueManyLoop_eq]
    rfl

end

theorem enter_eq (q : QueueBase k α) (call : Call k α) :
    discipline.enter q call = enter q call := by
  cases call with
  | tryDequeueMany numElements allowSmallBatch =>
    rfl
  | close cancelPendingEnqueues => cases cancelPendingEnqueues <;> rfl
  | _ => rfl

end FifoQueue

namespace RandomShuffleQueue

open QueueBase FifoQueue

/-- The queue's own values. `draw copies callbacks` is what `generator_` gives when so many
copies were made and so many callbacks were called; no two draws of a queue have the same. -/
structure Settings where
  minAfterDequeue : Nat
  draw : Nat → Nat → Nat

variable (settings : Settings)

/-- `queues_[i][index] = queues_[i].back()` and `pop_back`. -/
def removeAt (elements : List α) (index : Nat) : List α :=
  match elements.getLast? with
  | none => []
  | some last => (elements.set index last).dropLast

def insufficient (q : QueueBase k α) (requested : Int) (size : Nat) : Status :=
  Errors.outOfRange ("RandomShuffleQueue '" ++ q.name ++
    "' is closed and has insufficient elements (requested " ++ toString requested ++
    ", current size " ++ toString size ++ ")")

/-- `queue_size` when `min_after_dequeue_` is taken off. -/
def available (q : QueueBase k α) : Nat :=
  if q.closed then q.size else q.size - settings.minAfterDequeue

variable [Inhabited α]

def dequeueLocked (q : QueueBase k α) : Except Fault (Tuple k α × QueueBase k α) :=
  let index := settings.draw q.copies q.completed.length % q.size
  if ∀ i, index < (q.queues i).length then
    .ok (elementAt q.queues index, { q with queues := fun i => removeAt (q.queues i) index })
  else .error .emptyComponent

def discipline : Discipline k α where
  closedStatus q := Errors.cancelled ("RandomShuffleQueue '" ++ q.name ++ "' is closed.")
  insufficient := insufficient
  restoreFailed message := .error .dataLoss ("Failed to restore element from partially-dequeued " ++
    "batch to RandomShuffleQueue: " ++ message)
  unspecifiedShapes := Errors.invalidArgument ("RandomShuffleQueue's DequeueMany and " ++
    "DequeueUpTo require the components to have specified shapes.")
  -- `const int index`
  batchIndex index := Int.bmod index (2 ^ 32)
  available := available settings
  dequeueLocked := dequeueLocked settings
  putBack elements value := elements ++ [value]

def runCallback (env : Env k) : QueueBase k α → Attempt k α → Except Fault (Run k α) :=
  (discipline settings).runCallback env

def enter : QueueBase k α → Call k α → QueueBase k α := (discipline settings).enter

end RandomShuffleQueue

end TensorFlowOnSpark.Kernels
