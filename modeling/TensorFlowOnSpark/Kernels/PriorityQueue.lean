import TensorFlowOnSpark.Kernels.QueueDiscipline
import TensorFlowOnSpark.Lib.BinaryHeap

/-!
# The priority queue

`PriorityQueue` of `kernels/priority_queue.cc`.
-/

namespace TensorFlowOnSpark.Kernels

open Framework BinaryHeap

universe u

namespace PriorityQueue

open QueueBase FifoQueue

/-- The tensors of calls and callbacks, and the entries of the heaps (`PriorityTensorPair`). -/
inductive Cell (β : Type u) where
  | tensor (value : β)
  | pair (first : Int) (second : β)
deriving DecidableEq, Repr

namespace Cell

variable {β : Type u}

instance [Inhabited β] : Inhabited (Cell β) := ⟨.tensor default⟩

def first : Cell β → Int
  | .tensor _ => 0
  | .pair first _ => first

def second : Cell β → β
  | .tensor value => value
  | .pair _ second => second

end Cell

structure Settings (β : Type u) where
  heap : HeapOrder Int
  isScalar : β → Bool
  shapeString : β → String
  scalar : β → Int

variable {k : Nat} {β : Type u}

def closedStatus (q : QueueBase k (Cell β)) : Status :=
  Errors.cancelled ("PriorityQueue '" ++ q.name ++ "' is closed.")

def insufficient (q : QueueBase k (Cell β)) (requested : Int) (size : Nat) : Status :=
  Errors.outOfRange ("PriorityQueue '" ++ q.name ++ "' is closed and has insufficient elements " ++
    "(requested " ++ toString requested ++ ", current size " ++ toString size ++ ")")

def unspecifiedShapes : Status :=
  Errors.invalidArgument ("PriorityQueue's DequeueMany requires the components to have " ++
    "specified shapes.")

variable (settings : Settings β)

def notScalar (priorityTensor : β) : Status :=
  Errors.invalidArgument ("Expected the priority element to be a scalar, but received shape: " ++
    settings.shapeString priorityTensor)

def emplace (heap : List (Cell β)) (priority : Int) (tensor : β) : List (Cell β) :=
  settings.heap.emplace Cell.first heap (.pair priority tensor)

def runEnqueue (tuple : Tuple k (Cell β)) (q : QueueBase k (Cell β)) (a : Attempt k (Cell β)) :
    Run k (Cell β) :=
  if q.closed then ⟨.complete, a.setStatus (closedStatus q), q⟩
  else if q.size < q.capacity then
    if !settings.isScalar (tuple 0).second then
      ⟨.complete, a.setStatus (notScalar settings (tuple 0).second), q⟩
    else
      let priority := settings.scalar (tuple 0).second
      ⟨.complete, a,
        { q with
          queues := fun i => emplace settings (q.queues i) priority (tuple i).second
          accepted := q.accepted ++ [(a.id, tuple)] }⟩
  else ⟨.noProgress, a, q⟩

/-- `GetElementComponentFromBatch`; no tensor when the copy fails. -/
def getElementComponentFromBatch (env : Env k) (tuple : Batch k (Cell β)) (index : Int)
    (component : Fin (k + 1)) (q : QueueBase k (Cell β)) (a : Attempt k (Cell β)) :
    Except Fault (Option β × Attempt k (Cell β) × QueueBase k (Cell β)) :=
  let a' := a.setStatus (env.copySlice q.copies component)
  let q' := { q with copies := q.copies + 1 }
  if a'.status ≠ .ok then .ok (none, a', q')
  else
    match slice? (tuple component) index with
    | none => .error .sliceIndex
    | some value => .ok (some value.second, a', q')

/-- The copies of one element of an `EnqueueMany`; `false` when one of them fails. -/
def pushComponents (env : Env k) (tuple : Batch k (Cell β)) (index priority : Int) :
    List (Fin (k + 1)) → QueueBase k (Cell β) → Attempt k (Cell β) →
      Except Fault (Bool × Attempt k (Cell β) × QueueBase k (Cell β))
  | [], q, a => .ok (true, a, q)
  | i :: rest, q, a =>
    match getElementComponentFromBatch env tuple index i q a with
    | .error fault => .error fault
    | .ok (none, a', q') => .ok (false, a', q')
    | .ok (some element, a', q') =>
      let queues := Function.update q'.queues i (emplace settings (q'.queues i) priority element)
      pushComponents env tuple index priority rest { q' with queues := queues } a'

variable [Inhabited β]

/-- The loop of an `EnqueueMany`, as many turns as there is room in the queue. -/
def enqueueManyLoop (env : Env k) (tuple : Batch k (Cell β)) :
    Nat → RunResult → QueueBase k (Cell β) → Attempt k (Cell β) → Except Fault (Run k (Cell β))
  | 0, result, q, a => .ok ⟨result, a, q⟩
  | room + 1, _, q, a =>
    -- `const int index`
    let index := Int.bmod ((tuple 0).length - a.elementsRequested) (2 ^ 32)
    match getElementComponentFromBatch env tuple index 0 q a with
    | .error fault => .error fault
    | .ok (none, a', q') => .ok ⟨.complete, a', q'⟩
    | .ok (some priorityTensor, a', q') =>
      if !settings.isScalar priorityTensor then
        .ok ⟨.complete, a'.setStatus (notScalar settings priorityTensor), q'⟩
      else
        let priority := settings.scalar priorityTensor
        match pushComponents settings env tuple index priority (List.finRange (k + 1)) q' a' with
        | .error fault => .error fault
        | .ok (false, a'', q'') => .ok ⟨.complete, a'', q''⟩
        | .ok (true, a'', q'') =>
          let element := elementAt tuple index.toNat
          let q''' := { q'' with accepted := q''.accepted ++ [(a''.id, element)] }
          let a''' := { a'' with elementsRequested := a''.elementsRequested - 1 }
          if a'''.elementsRequested = 0 then .ok ⟨.complete, a''', q'''⟩
          else enqueueManyLoop env tuple room .progress q''' a'''

def runEnqueueMany (env : Env k) (tuple : Batch k (Cell β)) (q : QueueBase k (Cell β))
    (a : Attempt k (Cell β)) : Except Fault (Run k (Cell β)) :=
  if q.closed then .ok ⟨.complete, a.setStatus (closedStatus q), q⟩
  else enqueueManyLoop settings env tuple (q.capacity - q.size) .noProgress q a

def dequeueLocked (q : QueueBase k (Cell β)) :
    Except Fault (Tuple k (Cell β) × QueueBase k (Cell β)) :=
  if ∀ i, q.queues i ≠ [] then
    .ok (fun i => .tensor (elementAt q.queues 0 i).second,
      { q with queues := fun i => settings.heap.popTop Cell.first (q.queues i) })
  else .error .emptyComponent

def runDequeue (q : QueueBase k (Cell β)) (a : Attempt k (Cell β)) :
    Except Fault (Run k (Cell β)) :=
  if q.closed && q.size = 0 then
    .ok ⟨.complete, a.setStatus (insufficient q 1 q.size), q⟩
  else if 0 < q.size then
    match dequeueLocked settings q with
    | .error fault => .error fault
    | .ok (tuple, q') => .ok ⟨.complete, { a with done := .element tuple }, q'⟩
  else .ok ⟨.noProgress, a, q⟩

def runDequeueMany (env : Env k) (allowSmallBatch : Bool) (q : QueueBase k (Cell β))
    (a : Attempt k (Cell β)) : Except Fault (Run k (Cell β)) :=
  let s := q.size
  if q.closed && (s = 0 || !allowSmallBatch && (s : Int) < a.elementsRequested) then
    .ok ⟨.complete, a.setStatus (insufficient q a.elementsRequested s), q⟩
  else if (s : Int) < a.elementsRequested && (s = 0 || !(q.closed && allowSmallBatch)) then
    .ok ⟨.noProgress, a, q⟩
  else dequeueLoop (dequeueLocked settings) env s .noProgress q a

def runCallback (env : Env k) (q : QueueBase k (Cell β)) (a : Attempt k (Cell β)) :
    Except Fault (Run k (Cell β)) :=
  match a.operation with
  | .enqueue tuple => .ok (runEnqueue settings tuple q a)
  | .enqueueMany tuple => runEnqueueMany settings env tuple q a
  | .close => .ok (runClose q a)
  | .dequeue => runDequeue settings q a
  | .dequeueMany allowSmallBatch => runDequeueMany settings env allowSmallBatch q a

omit [Inhabited β] in
def cells : Call k β → Call k (Cell β)
  | .tryEnqueue tuple => .tryEnqueue fun i => .tensor (tuple i)
  | .tryEnqueueMany tuple => .tryEnqueueMany fun i => (tuple i).map Cell.tensor
  | .tryDequeue => .tryDequeue
  | .tryDequeueMany numElements allowSmallBatch => .tryDequeueMany numElements allowSmallBatch
  | .close cancelPendingEnqueues => .close cancelPendingEnqueues

end PriorityQueue

end TensorFlowOnSpark.Kernels
