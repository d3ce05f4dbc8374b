import TensorFlowOnSpark.Framework.TensorProto
import TensorFlowOnSpark.Lib.Transition
import TensorFlowOnSpark.Rdma.Buffer
import TensorFlowOnSpark.Rdma.Message

/-!
# Tensor buffers: one direction of a channel

The sender of a key keeps a tensor buffer for it and the receiver another one.
-/

namespace TensorFlowOnSpark.Rdma

open Framework Transition

structure Value where
  tensor : Tensor
  isDead : Bool
  deriving DecidableEq, Repr

def Value.dead : Value := ⟨Tensor.empty, true⟩

def Value.bufferSize (v : Value) : Nat := RdmaMessage.kMessageTotalBytes + v.tensor.byteSize

abbrev TensorMemory := RdmaBuffer Int Int

inductive ToSender where
  | tensorRequest (stepId : Int)
  | bufferIdle
  | bufferResponse (size : Nat) (mr : RemoteMR)
  deriving DecidableEq, Repr

structure BufferRequest where
  size : Nat
  mr : RemoteMR
  deriving DecidableEq, Repr

/-- A posted `TENSOR_WRITE`; `source` tells in which allocation its bytes are. -/
structure Posted where
  stepId : Int
  bytes : Nat
  remote : Option RemoteMR
  source : Nat
  deriving DecidableEq, Repr

/-- `tasks` are the scheduled calls of `SendNextItem` and `receiving` the keys whose local receive
has not called back. A callback that has set both flags busy is in `posting` up to its post; one
that puts its key back is in `requeue`, with the size of the `BUFFER_REQUEST` that follows, and
then in `requests`. -/
structure SendSide where
  buffer : TensorMemory := {}
  tasks : Nat := 0
  receiving : List Int := []
  posting : List Int := []
  requeue : List (Int × Option Nat) := []
  requests : List Nat := []
  requested : List Int := []
  written : List Int := []

/-- `callbacks` are the scheduled calls of `RunRecvCallback`, `idling` those that have a
`BUFFER_IDLE` to send, and `decoded` the step of each call and the step whose bytes it read. -/
structure ReceiveSide where
  buffer : TensorMemory := {}
  callbackTable : List Int := []
  callbacks : List Int := []
  idling : Nat := 0
  decoded : List (Int × Int) := []

/-- Where `Process_CQ` is between two sections of one handler. -/
inductive SenderPoint where
  | setRemoteMR (mr : RemoteMR)
  | setLocalIdle
  | setRemoteIdle
  | parseCompleted
  | schedule
  deriving DecidableEq, Repr

inductive ReceiverPoint where
  | createCPUBuffer (size : Nat)
  | respond (size : Nat)
  deriving DecidableEq, Repr

/-- `arrived` are the receive completions at the receiver and `completed` the write completions
at the sender. -/
structure Channel (κ : Type) where
  sender : κ → SendSide := fun _ => {}
  receiver : κ → ReceiveSide := fun _ => {}
  toSender : List (κ × ToSender) := []
  toReceiver : List (κ × BufferRequest) := []
  wire : List (κ × Posted) := []
  arrived : List κ := []
  completed : List κ := []
  senderCq : Option (κ × SenderPoint) := none
  receiverCq : Option (κ × ReceiverPoint) := none

inductive Site where
  | sendNextItem | processCQ | runRecvCallback | recvCallback
  deriving DecidableEq, Repr

inductive Check where
  | onlyStringChangesSize | sizesAgree | tensorFits | positiveSize
  | responseSize | requestSize | completionStatus | uninitialised
  | callbackFound
  | headerFits | messageType | protoFits
  deriving DecidableEq, Repr

def Check.site : Check → Site
  | .onlyStringChangesSize | .sizesAgree | .tensorFits | .positiveSize => .sendNextItem
  | .responseSize | .requestSize | .completionStatus | .uninitialised => .processCQ
  | .callbackFound => .runRecvCallback
  | .headerFits | .messageType | .protoFits => .recvCallback

inductive Action (κ : Type) where
  | recvFromRemoteAsync (k : κ) (stepId : Int)
  | processMessage
  | processCompletion
  | processSection
  | sendNextItem (k : κ)
  | recvLocalDone (k : κ) (stepId : Int) (mr : RemoteMR)
  | post (k : κ) (stepId : Int)
  | putBack (k : κ) (stepId : Int) (request : Option Nat)
  | sendRequest (k : κ) (size : Nat)
  | deliver
  | peerProcessMessage
  | peerProcessSection (mr : RemoteMR)
  | peerProcessWrite
  | runRecvCallback (k : κ) (stepId : Int)
  | sendIdle (k : κ)

namespace Channel

variable {κ : Type} [DecidableEq κ] (sent : κ → Int → Value)

def modifySender (s : Channel κ) (k : κ) (f : SendSide → SendSide) : Channel κ :=
  { s with sender := Function.update s.sender k (f (s.sender k)) }

def modifyReceiver (s : Channel κ) (k : κ) (f : ReceiveSide → ReceiveSide) : Channel κ :=
  { s with receiver := Function.update s.receiver k (f (s.receiver k)) }

/-- `InsertRecvCallback`, which keeps an entry that is there, and the request. -/
def recvFromRemoteAsync (s : Channel κ) (k : κ) (stepId : Int) : Channel κ :=
  { s.modifyReceiver k fun b => { b with callbackTable := b.callbackTable.insert stepId } with
    toSender := s.toSender ++ [(k, .tensorRequest stepId)] }

/-- `Process_CQ` takes the next control message. -/
def processMessage (s : Channel κ) : Outcome (Channel κ) Check :=
  match s.senderCq, s.toSender with
  | none, (k, .tensorRequest stepId) :: rest =>
    .next { s.modifySender k fun b => { b with
        buffer := b.buffer.enqueueItem stepId, requested := b.requested ++ [stepId] } with
      toSender := rest, senderCq := some (k, .schedule) }
  | none, (k, .bufferIdle) :: rest =>
    .next { s.modifySender k fun b => { b with
        buffer := b.buffer.setBufferStatus .remoteSide .idle } with
      toSender := rest, senderCq := some (k, .schedule) }
  | none, (k, .bufferResponse size mr) :: rest =>
    if size = (s.sender k).buffer.size then
      .next { s with toSender := rest, senderCq := some (k, .setRemoteMR mr) }
    else .failed .responseSize
  | _, _ => .blocked

/-- `Process_CQ` takes the next completion of a write. -/
def processCompletion (s : Channel κ) : Outcome (Channel κ) Check :=
  match s.senderCq, s.completed with
  | none, k :: rest =>
    .next { s.modifySender k fun b => { b with
        buffer := b.buffer.setBufferStatus .localSide .idle } with
      completed := rest, senderCq := some (k, .parseCompleted) }
  | _, _ => .blocked

def processSection (s : Channel κ) : Outcome (Channel κ) Check :=
  match s.senderCq with
  | some (k, .setRemoteMR mr) =>
    match (s.sender k).buffer.setRemoteMR mr true with
    | some buffer =>
      .next { s.modifySender k fun b => { b with buffer := buffer } with
        senderCq := some (k, .setLocalIdle) }
    | none => .blocked
  | some (k, .setLocalIdle) =>
    .next { s.modifySender k fun b => { b with
        buffer := b.buffer.setBufferStatus .localSide .idle } with
      senderCq := some (k, .setRemoteIdle) }
  | some (k, .setRemoteIdle) =>
    .next { s.modifySender k fun b => { b with
        buffer := b.buffer.setBufferStatus .remoteSide .idle } with
      senderCq := some (k, .schedule) }
  | some (k, .parseCompleted) =>
    if (s.sender k).buffer.contents.isSome then .next { s with senderCq := some (k, .schedule) }
    else .failed .uninitialised
  | some (k, .schedule) =>
    .next { s.modifySender k fun b => { b with tasks := b.tasks + 1 } with senderCq := none }
  | none => .blocked

def sendNextItem (s : Channel κ) (k : κ) : Outcome (Channel κ) Check :=
  match (s.sender k).tasks, (s.sender k).buffer.queue with
  | 0, _ => .blocked
  | tasks + 1, [] => .next (s.modifySender k fun b => { b with tasks := tasks })
  | tasks + 1, stepId :: rest =>
    .next (s.modifySender k fun b => { b with
      tasks := tasks, buffer := { b.buffer with queue := rest }
      receiving := b.receiving ++ [stepId] })

/-- The section that tests the status in the callback of `RecvLocalAsync`. -/
def recvLocalDone (s : Channel κ) (k : κ) (stepId : Int) (mr : RemoteMR) :
    Outcome (Channel κ) Check :=
  let b := (s.sender k).buffer
  let v := sent k stepId
  if stepId ∈ (s.sender k).receiving then
    if b.localStatus = .none ∨ (b.size < v.bufferSize ∧ b.Ready) then
      if b.localStatus ≠ .none ∧ b.size < v.bufferSize ∧ v.tensor.dtype ≠ .string then
        .failed .onlyStringChangesSize
      else
        match b.createCPUBuffer v.bufferSize mr with
        | some buffer =>
          .next (s.modifySender k fun b => { b with
            buffer := buffer, receiving := b.receiving.erase stepId
            requeue := b.requeue ++ [(stepId, some v.bufferSize)] })
        | none => .failed .positiveSize
    else if b.Ready then
      .next (s.modifySender k fun b => { b with
        buffer := b.buffer.markBusy, receiving := b.receiving.erase stepId
        posting := b.posting ++ [stepId] })
    else
      .next (s.modifySender k fun b => { b with
        receiving := b.receiving.erase stepId, requeue := b.requeue ++ [(stepId, none)] })
  else .blocked

/-- What the callback does after it set both flags busy, up to `Write`. -/
def post (s : Channel κ) (k : κ) (stepId : Int) : Outcome (Channel κ) Check :=
  let b := (s.sender k).buffer
  let v := sent k stepId
  if stepId ∈ (s.sender k).posting then
    if (v.bufferSize = b.size ∧ v.tensor.dtype ≠ .string) ∨
        (v.bufferSize ≤ b.size ∧ v.tensor.dtype = .string) then
      if v.isDead ∨ v.tensor.byteSize + RdmaMessage.kTensorBufferStartIndex ≤ b.size then
        .next { s.modifySender k fun b => { b with
            buffer := { b.buffer with contents := some stepId }
            posting := b.posting.erase stepId, written := b.written ++ [stepId] } with
          wire := s.wire ++ [(k, {
            stepId := stepId
            bytes := if v.isDead then RdmaMessage.kMessageTotalBytes else v.bufferSize
            remote := b.remote
            source := b.allocations })] }
      else .failed .tensorFits
    else .failed .sizesAgree
  else .blocked

def putBack (s : Channel κ) (k : κ) (stepId : Int) (request : Option Nat) :
    Outcome (Channel κ) Check :=
  if (stepId, request) ∈ (s.sender k).requeue then
    .next (s.modifySender k fun b => { b with
      buffer := b.buffer.enqueueItem stepId, requeue := b.requeue.erase (stepId, request)
      requests := b.requests ++ request.toList })
  else .blocked

def sendRequest (s : Channel κ) (k : κ) (size : Nat) : Outcome (Channel κ) Check :=
  match (s.sender k).buffer.self with
  | some mr =>
    if size ∈ (s.sender k).requests then
      .next { s.modifySender k fun b => { b with requests := b.requests.erase size } with
        toReceiver := s.toReceiver ++ [(k, ⟨size, mr⟩)] }
    else .blocked
  | none => .blocked

def deliver (s : Channel κ) : Outcome (Channel κ) Check :=
  match s.wire with
  | [] => .blocked
  | (k, w) :: rest =>
    if w.source = (s.sender k).buffer.allocations ∧ w.remote.isSome ∧
        w.remote = (s.receiver k).buffer.self ∧ w.bytes ≤ (s.receiver k).buffer.size then
      .next { s.modifyReceiver k fun b => { b with
          buffer := { b.buffer with contents := (s.sender k).buffer.contents } } with
        wire := rest, arrived := s.arrived ++ [k], completed := s.completed ++ [k] }
    else .failed .completionStatus

def peerProcessMessage (s : Channel κ) : Outcome (Channel κ) Check :=
  match s.receiverCq, s.toReceiver with
  | none, (k, request) :: rest =>
    match (s.receiver k).buffer.setRemoteMR request.mr true with
    | some buffer =>
      .next { s.modifyReceiver k fun b => { b with buffer := buffer } with
        toReceiver := rest, receiverCq := some (k, .createCPUBuffer request.size) }
    | none => .blocked
  | _, _ => .blocked

def peerProcessSection (s : Channel κ) (mr : RemoteMR) : Outcome (Channel κ) Check :=
  match s.receiverCq with
  | some (k, .createCPUBuffer size) =>
    match (s.receiver k).buffer.createCPUBuffer size mr with
    | some buffer =>
      .next { s.modifyReceiver k fun b => { b with buffer := buffer } with
        receiverCq := some (k, .respond size) }
    | none => .failed .requestSize
  | some (k, .respond size) =>
    match (s.receiver k).buffer.self with
    | some own =>
      .next { s with
        toSender := s.toSender ++ [(k, .bufferResponse size own)], receiverCq := none }
    | none => .blocked
  | none => .blocked

/-- A `TENSOR_WRITE` has arrived; the step is read out of the memory it was written to. -/
def peerProcessWrite (s : Channel κ) : Outcome (Channel κ) Check :=
  match s.receiverCq, s.arrived with
  | none, k :: rest =>
    match (s.receiver k).buffer.contents with
    | some stepId =>
      .next { s.modifyReceiver k fun b => { b with callbacks := b.callbacks ++ [stepId] } with
        arrived := rest }
    | none => .failed .uninitialised
  | _, _ => .blocked

/-- The callback that `RecvFromRemoteAsync` inserted, up to `RemoveRecvCallback`. -/
def runRecvCallback (s : Channel κ) (k : κ) (stepId : Int) : Outcome (Channel κ) Check :=
  let b := (s.receiver k).buffer
  if stepId ∈ (s.receiver k).callbacks then
    if stepId ∈ (s.receiver k).callbackTable then
      if RdmaMessage.kMessageTotalBytes ≤ b.size then
        match b.contents with
        | none => .failed .messageType
        | some found =>
          let v := sent k found
          if v.isDead ∨
              v.tensor.byteSize + RdmaMessage.kTensorBufferStartIndex ≤ b.size then
            .next (s.modifyReceiver k fun b => { b with
              callbacks := b.callbacks.erase stepId
              callbackTable := b.callbackTable.erase stepId
              idling := b.idling + 1
              decoded := b.decoded ++ [(stepId, found)] })
          else .failed .protoFits
      else .failed .headerFits
    else .failed .callbackFound
  else .blocked

def sendIdle (s : Channel κ) (k : κ) : Outcome (Channel κ) Check :=
  match (s.receiver k).idling with
  | 0 => .blocked
  | idling + 1 =>
    .next { s.modifyReceiver k fun b => { b with idling := idling } with
      toSender := s.toSender ++ [(k, .bufferIdle)] }

def step (s : Channel κ) : Action κ → Outcome (Channel κ) Check
  | .recvFromRemoteAsync k stepId => .next (s.recvFromRemoteAsync k stepId)
  | .processMessage => s.processMessage
  | .processCompletion => s.processCompletion
  | .processSection => s.processSection
  | .sendNextItem k => s.sendNextItem k
  | .recvLocalDone k stepId mr => s.recvLocalDone sent k stepId mr
  | .post k stepId => s.post sent k stepId
  | .putBack k stepId request => s.putBack k stepId request
  | .sendRequest k size => s.sendRequest k size
  | .deliver => s.deliver
  | .peerProcessMessage => s.peerProcessMessage
  | .peerProcessSection mr => s.peerProcessSection mr
  | .peerProcessWrite => s.peerProcessWrite
  | .runRecvCallback k stepId => s.runRecvCallback sent k stepId
  | .sendIdle k => s.sendIdle k

end Channel

end TensorFlowOnSpark.Rdma
