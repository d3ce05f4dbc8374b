import TensorFlowOnSpark.Framework.TensorProto
import TensorFlowOnSpark.Lib.Transition
import TensorFlowOnSpark.Kernels.QueueBase

/-!
# The FIFO queue

`FIFOQueue` of `kernels/fifo_queue.cc`.
-/

namespace TensorFlowOnSpark.Kernels

open Framework Transition Function List

universe u

variable {k : Nat} {α : Type u}

/-- The statuses of `GetElementComponentFromBatch` and of `CopyElementToSlice`. -/
structure Env (k : Nat) where
  copySlice : Nat → Fin (k + 1) → Status
  copyElement : Nat → Fin (k + 1) → Status

def slice? (slices : List α) (index : Int) : Option α :=
  if index < 0 then none else slices[index.toNat]?

namespace FifoQueue

open QueueBase

def runEnqueue (tuple : Tuple k α) (q : QueueBase k α) (a : Attempt k α) : Run k α :=
  if q.closed then
    let message := "FIFOQueue '" ++ q.name ++ "' is closed."
    ⟨.complete, a.setStatus (Errors.cancelled message), q⟩
  else if q.size < q.capacity then
    ⟨.complete, a,
      { q with
        queues := fun i => q.queues i ++ [tuple i]
        accepted := q.accepted ++ [(a.id, tuple)] }⟩
  else ⟨.noProgress, a, q⟩

/-- The copies of one element of an `EnqueueMany`; `false` when one of them fails. -/
def pushComponents (env : Env k) (tuple : Batch k α) (index : Int) :
    List (Fin (k + 1)) → QueueBase k α → Attempt k α →
      Except Fault (Bool × Attempt k α × QueueBase k α)
  | [], q, a => .ok (true, a, q)
  | i :: rest, q, a =>
    let a' := a.setStatus (env.copySlice q.copies i)
    let q' := { q with copies := q.copies + 1 }
    if a'.status ≠ .ok then .ok (false, a', q')
    else
      match slice? (tuple i) index with
      | none => .error .sliceIndex
      | some value =>
        let queues := update q'.queues i (q'.queues i ++ [value])
        pushComponents env tuple index rest { q' with queues := queues } a'

variable [Inhabited α]

def elementAt (tuple : Batch k α) (index : Nat) : Tuple k α := fun i => (tuple i).getD index default

/-- The loop of an `EnqueueMany`, as many turns as there is room in the queue. -/
def enqueueManyLoop (env : Env k) (tuple : Batch k α) :
    Nat → RunResult → QueueBase k α → Attempt k α → Except Fault (Run k α)
  | 0, result, q, a => .ok ⟨result, a, q⟩
  | room + 1, _, q, a =>
    let index : Int := (tuple 0).length - a.elementsRequested
    match pushComponents env tuple index (finRange (k + 1)) q a with
    | .error fault => .error fault
    | .ok (false, a', q') => .ok ⟨.complete, a', q'⟩
    | .ok (true, a', q') =>
      let q'' := { q' with accepted := q'.accepted ++ [(a.id, elementAt tuple index.toNat)] }
      let a'' := { a' with elementsRequested := a'.elementsRequested - 1 }
      if a''.elementsRequested = 0 then .ok ⟨.complete, a'', q''⟩
      else enqueueManyLoop env tuple room .progress q'' a''

def runEnqueueMany (env : Env k) (tuple : Batch k α) (q : QueueBase k α) (a : Attempt k α) :
    Except Fault (Run k α) :=
  if q.closed then
    let message := "FIFOQueue '" ++ q.name ++ "' is closed."
    .ok ⟨.complete, a.setStatus (Errors.cancelled message), q⟩
  else enqueueManyLoop env tuple (q.capacity - q.size) .noProgress q a

def dequeueLocked (q : QueueBase k α) : Except Fault (Tuple k α × QueueBase k α) :=
  if ∀ i, q.queues i ≠ [] then
    .ok (elementAt q.queues 0, { q with queues := fun i => (q.queues i).tail })
  else .error .emptyComponent

def insufficient (q : QueueBase k α) (requested : Int) (size : Nat) : Status :=
  Errors.outOfRange ("FIFOQueue '" ++ q.name ++ "' is closed and has insufficient elements " ++
    "(requested " ++ toString requested ++ ", current size " ++ toString size ++ ")")

def runDequeue (q : QueueBase k α) (a : Attempt k α) : Except Fault (Run k α) :=
  if q.closed && q.size = 0 then
    .ok ⟨.complete, a.setStatus (insufficient q 1 q.size), q⟩
  else if 0 < q.size then
    match dequeueLocked q with
    | .error fault => .error fault
    | .ok (tuple, q') => .ok ⟨.complete, { a with done := .element tuple }, q'⟩
  else .ok ⟨.noProgress, a, q⟩

/-- One element of a partial batch goes back to the front of the queue. -/
def restoreComponents (env : Env k) (tuple : Batch k α) (index : Nat) :
    List (Fin (k + 1)) → QueueBase k α → Attempt k α → Attempt k α × QueueBase k α
  | [], q, a => (a, q)
  | i :: rest, q, a =>
    let status := env.copySlice q.copies i
    let a' :=
      if status = .ok then a
      else a.setStatus (.error .dataLoss ("Failed to restore element from partially-dequeued " ++
        "batch to FIFOQueue: " ++ status.errorMessage))
    let value := if status = .ok then (tuple i).getD index default else default
    let queues := update q.queues i (value :: q.queues i)
    restoreComponents env tuple index rest { q with copies := q.copies + 1, queues := queues } a'

def restore (env : Env k) (tuple : Batch k α) :
    Nat → QueueBase k α → Attempt k α → Attempt k α × QueueBase k α
  | 0, q, a => (a, q)
  | index + 1, q, a =>
    let (a', q') := restoreComponents env tuple index (finRange (k + 1)) q a
    restore env tuple index q' a'

/-- The copies of one element into the batch of a `DequeueMany`. -/
def copyComponents (env : Env k) (element : Tuple k α) (index : Nat) :
    List (Fin (k + 1)) → Batch k α → QueueBase k α → Attempt k α →
      Bool × Batch k α × Attempt k α × QueueBase k α
  | [], tuple, q, a => (true, tuple, a, q)
  | i :: rest, tuple, q, a =>
    let a' := a.setStatus (env.copyElement q.copies i)
    let q' := { q with copies := q.copies + 1 }
    if a'.status ≠ .ok then (false, tuple, a', q')
    else
      let tuple' := update tuple i ((tuple i).set index (element i))
      copyComponents env element index rest tuple' q' a'

/-- The loop of a `DequeueMany`, as many turns as it found elements in the queue. -/
def dequeueManyLoop (env : Env k) :
    Nat → RunResult → QueueBase k α → Attempt k α → Except Fault (Run k α)
  | 0, result, q, a => .ok ⟨result, a, q⟩
  | size + 1, _, q, a =>
    let tuple := a.tuple.getD fun _ => replicate a.elementsRequested.toNat default
    match dequeueLocked q with
    | .error fault => .error fault
    | .ok (element, q') =>
      let index := ((tuple 0).length - a.elementsRequested).toNat
      match copyComponents env element index (finRange (k + 1)) tuple q' a with
      | (false, tuple', a', q'') => .ok ⟨.complete, { a' with tuple := some tuple' }, q''⟩
      | (true, tuple', a', q'') =>
        let a'' :=
          { a' with tuple := some tuple', elementsRequested := a'.elementsRequested - 1 }
        if a''.elementsRequested = 0 then
          .ok ⟨.complete, { a'' with done := .batch tuple' }, q''⟩
        else dequeueManyLoop env size .progress q'' a''

def restoreBatch (env : Env k) (q : QueueBase k α) (a : Attempt k α) :
    Attempt k α × QueueBase k α :=
  match a.tuple with
  | none => (a, q)
  | some tuple => restore env tuple ((tuple 0).length - a.elementsRequested).toNat q a

/-- What a `DequeueMany` does before its loop when the queue is closed and too short: the run
ends, or it goes on with the attempt and the queue that are left. -/
def runShort (env : Env k) (allowSmallBatch : Bool) (q : QueueBase k α) (a : Attempt k α) :
    Run k α ⊕ Attempt k α × QueueBase k α :=
  let size := q.size
  let (a', q') := restoreBatch env q a
  if allowSmallBatch && 0 < q'.size then
    .inr ({ a' with tuple := none, elementsRequested := q'.size }, q')
  else if allowSmallBatch && !q'.enqueueAttempts.isEmpty then .inl ⟨.progress, a', q'⟩
  else .inl ⟨.complete, a'.setStatus (insufficient q' a'.elementsRequested size), q'⟩

def runDequeueMany (env : Env k) (allowSmallBatch : Bool) (q : QueueBase k α)
    (a : Attempt k α) : Except Fault (Run k α) :=
  if q.closed && (q.size : Int) < a.elementsRequested then
    match runShort env allowSmallBatch q a with
    | .inl run => .ok run
    | .inr (a', q') => dequeueManyLoop env q'.size .noProgress q' a'
  else dequeueManyLoop env q.size .noProgress q a

def runCallback (env : Env k) (q : QueueBase k α) (a : Attempt k α) : Except Fault (Run k α) :=
  match a.operation with
  | .enqueue tuple => .ok (runEnqueue tuple q a)
  | .enqueueMany tuple => runEnqueueMany env tuple q a
  | .close => .ok (runClose q a)
  | .dequeue => runDequeue q a
  | .dequeueMany allowSmallBatch => runDequeueMany env allowSmallBatch q a

/-- `int32 elements_requested` of an `int64`. -/
def toInt32 (n : Nat) : Int := Int.bmod n (2 ^ 32)

def newAttempt (q : QueueBase k α) (operation : Operation k α) (elementsRequested : Int) :
    Attempt k α :=
  ⟨q.calls.length, operation, elementsRequested, .ok, false, none, .finished⟩

def answer (q : QueueBase k α) (status : Status) (done : Done k α) : QueueBase k α :=
  { q with completed := q.completed ++ [⟨q.calls.length, status, done, q.closed, q.size⟩] }

/-- A call up to its flush. -/
def enter (q : QueueBase k α) : Call k α → QueueBase k α
  | .tryEnqueue tuple =>
    { q with enqueueAttempts := q.enqueueAttempts ++ [newAttempt q (.enqueue tuple) 1] }
  | .tryEnqueueMany tuple =>
    if (tuple 0).length = 0 then answer q .ok .finished
    else
      let a := newAttempt q (.enqueueMany tuple) (toInt32 (tuple 0).length)
      { q with enqueueAttempts := q.enqueueAttempts ++ [a] }
  | .tryDequeue => { q with dequeueAttempts := q.dequeueAttempts ++ [newAttempt q .dequeue 1] }
  | .tryDequeueMany numElements allowSmallBatch =>
    if !q.specifiedShapes then
      answer q (Errors.invalidArgument ("FIFOQueue's DequeueMany and DequeueUpTo require the " ++
        "components to have specified shapes.")) .finished
    else if numElements = 0 then answer q .ok (.batch fun _ => [])
    else
      let a := newAttempt q (.dequeueMany allowSmallBatch) numElements
      { q with dequeueAttempts := q.dequeueAttempts ++ [a] }
  | .close true => answer q.closeAndCancel .ok .finished
  | .close false => { q with enqueueAttempts := q.enqueueAttempts ++ [newAttempt q .close 0] }

inductive Action (k : Nat) (α : Type u) where
  | call (call : Call k α)
  | flush

inductive Failure where
  | undefined (fault : Fault)
  | endlessFlush
deriving DecidableEq, Repr

def step (env : Env k) (q : QueueBase k α) : Action k α → Outcome (QueueBase k α) Failure
  | .call call => .next { enter q call with calls := q.calls ++ [call] }
  | .flush =>
    match flushUnlocked (runCallback env) q with
    | .error fault => .failed (.undefined fault)
    | .ok none => .failed .endlessFlush
    | .ok (some q') => .next q'

def init (capacity : Nat) (name : String) (specifiedShapes : Bool) : QueueBase k α where
  capacity := capacity
  name := name
  specifiedShapes := specifiedShapes
  closed := false
  queues := fun _ => []
  enqueueAttempts := []
  dequeueAttempts := []
  copies := 0
  calls := []
  accepted := []
  completed := []

/-- The types that `CopySliceToElement` and `CopyElementToSlice` dispatch on. -/
def handled : DataType → Bool
  | .float | .half | .double | .int32 | .uint8 | .int16 | .int8 | .string | .complex64
  | .complex128 | .int64 | .bool | .qint8 | .quint8 | .qint32 | .qint16 | .quint16 => true
  | .invalid | .bfloat16 | .uint16 | .resource => false

def ofTypes (componentDtypes : Fin (k + 1) → DataType) : Env k where
  copySlice _ i :=
    if handled (componentDtypes i) then .ok
    else .error .unimplemented ("CopySliceToElement Unhandled data type: " ++
      toString (componentDtypes i).number)
  copyElement _ i :=
    if handled (componentDtypes i) then .ok
    else .error .unimplemented ("CopyElementToSlice Unhandled data type: " ++
      toString (componentDtypes i).number)

end FifoQueue

end TensorFlowOnSpark.Kernels
