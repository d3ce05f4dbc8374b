import TensorFlowOnSpark.Framework.TensorShape

/-!
# The RDMA message format

`CreateMessage` copies the fields of a message to fixed places in an array on the stack,
in the order of the source, and `ParseMessage` copies them out.
-/

namespace TensorFlowOnSpark.Rdma

open Bytes Framework

inductive RdmaMessageType where
  | ack | bufferIdle | bufferRequest | bufferResponse | tensorRequest | tensorWrite
  deriving DecidableEq, Repr

namespace RdmaMessageType

def code : RdmaMessageType → UInt8
  | .ack => 0 | .bufferIdle => 1 | .bufferRequest => 2 | .bufferResponse => 3
  | .tensorRequest => 4 | .tensorWrite => 5

def ofCode (b : UInt8) : Option RdmaMessageType :=
  [ack, bufferIdle, bufferRequest, bufferResponse, tensorRequest, tensorWrite][b.toNat]?

@[simp] theorem ofCode_code (t : RdmaMessageType) : ofCode t.code = some t := by
  cases t <;> rfl

def carriesRegion (t : RdmaMessageType) : Bool := t = .bufferRequest ∨ t = .bufferResponse

def carriesStepId (t : RdmaMessageType) : Bool := t = .tensorWrite ∨ t = .tensorRequest

def carriesTensor (t : RdmaMessageType) : Bool := t = .tensorWrite

end RdmaMessageType

structure RdmaMessage where
  type : RdmaMessageType
  nameSize : UInt16
  name : List UInt8
  stepId : Int64
  bufferSize : UInt64
  remoteAddr : UInt64
  rkey : UInt32
  isDead : Bool
  dataType : Int32
  tensorShape : TensorShape
  tensorBytes : UInt64

namespace RdmaMessage

@[simp] def kNameCapacity : Nat := 512
@[simp] def kTypeStartIndex : Nat := 0
@[simp] def kNameSizeStartIndex : Nat := kTypeStartIndex + 4
@[simp] def kNameStartIndex : Nat := kNameSizeStartIndex + 2
@[simp] def kStepIdStartIndex : Nat := kNameStartIndex + kNameCapacity
@[simp] def kBufferSizeStartIndex : Nat := kStepIdStartIndex + 8
@[simp] def kRemoteAddrStartIndex : Nat := kBufferSizeStartIndex + 8
@[simp] def kRkeyStartIndex : Nat := kRemoteAddrStartIndex + 8
@[simp] def kIsDeadStartIndex : Nat := kRkeyStartIndex + 4
@[simp] def kDataTypeStartIndex : Nat := kIsDeadStartIndex + 1
@[simp] def kTensorShapeStartIndex : Nat := kDataTypeStartIndex + 4
@[simp] def kTensorBytesStartIndex : Nat := kTensorShapeStartIndex + 24
@[simp] def kTensorBufferStartIndex : Nat := kTensorBytesStartIndex + 8
@[simp] def kMessageTotalBytes : Nat := kTensorBufferStartIndex

def headWrites (rm : RdmaMessage) : List (Nat × List UInt8) :=
  [(kTypeStartIndex, [rm.type.code]), (kNameSizeStartIndex, encodeLE 2 rm.nameSize.toNat)]

def fieldWrites (rm : RdmaMessage) : List (Nat × List UInt8) :=
  (if rm.type.carriesRegion then
    [(kBufferSizeStartIndex, encodeLE 8 rm.bufferSize.toNat),
      (kRemoteAddrStartIndex, encodeLE 8 rm.remoteAddr.toNat),
      (kRkeyStartIndex, encodeLE 4 rm.rkey.toNat)]
  else []) ++
  (if rm.type.carriesStepId then
    [(kStepIdStartIndex, encodeLE 8 rm.stepId.toUInt64.toNat)] else []) ++
  (if rm.type.carriesTensor then
    [(kIsDeadStartIndex, [if rm.isDead then 1 else 0]),
      (kDataTypeStartIndex, encodeLE 4 rm.dataType.toUInt32.toNat),
      (kTensorShapeStartIndex, rm.tensorShape.toBytes),
      (kTensorBytesStartIndex, encodeLE 8 rm.tensorBytes.toNat)]
  else [])

/-- `stack` is what the array holds before the first copy. -/
def createMessage (stack : List UInt8) (rm : RdmaMessage) : Option (List UInt8) :=
  writeAll stack (rm.headWrites ++ (kNameStartIndex, rm.name) :: rm.fieldWrites)

/-- Fields that the type does not carry keep the value they have in `rm`. A first byte that is no
message type, and a read past the end of the buffer, give `none`. -/
def parseMessage (rm : RdmaMessage) (buffer : List UInt8) : Option RdmaMessage :=
  if kMessageTotalBytes ≤ buffer.length then
    match RdmaMessageType.ofCode (buffer.getD kTypeStartIndex 0) with
    | none => none
    | some type =>
      let nameSize := UInt16.ofNat (decodeLE (slice buffer kNameSizeStartIndex 2))
      if kNameStartIndex + nameSize.toNat ≤ buffer.length then
        some {
          type := type
          nameSize := nameSize
          name := slice buffer kNameStartIndex nameSize.toNat
          bufferSize := if type.carriesRegion then
            UInt64.ofNat (decodeLE (slice buffer kBufferSizeStartIndex 8)) else rm.bufferSize
          remoteAddr := if type.carriesRegion then
            UInt64.ofNat (decodeLE (slice buffer kRemoteAddrStartIndex 8)) else rm.remoteAddr
          rkey := if type.carriesRegion then
            UInt32.ofNat (decodeLE (slice buffer kRkeyStartIndex 4)) else rm.rkey
          stepId := if type.carriesStepId then
            (UInt64.ofNat (decodeLE (slice buffer kStepIdStartIndex 8))).toInt64 else rm.stepId
          isDead := if type.carriesTensor then
            buffer.getD kIsDeadStartIndex 0 != 0 else rm.isDead
          dataType := if type.carriesTensor then
            (UInt32.ofNat (decodeLE (slice buffer kDataTypeStartIndex 4))).toInt32 else rm.dataType
          tensorShape := if type.carriesTensor then
            TensorShape.ofBytes (slice buffer kTensorShapeStartIndex 24) else rm.tensorShape
          tensorBytes := if type.carriesTensor then
            UInt64.ofNat (decodeLE (slice buffer kTensorBytesStartIndex 8)) else rm.tensorBytes }
      else none
  else none

end RdmaMessage

end TensorFlowOnSpark.Rdma
