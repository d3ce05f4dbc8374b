import TensorFlowOnSpark.Framework.TensorProto
import TensorFlowOnSpark.Io.ProtoEncodeHelper
import TensorFlowOnSpark.Lib.Fallible

/-!
# Tensors as responses

`EncodeTensorToByteBuffer` of `distributed_runtime/rpc/grpc_tensor_coding.cc`, and the messages
that it encodes.
-/

namespace TensorFlowOnSpark.DistributedRuntime

open List Option

open Framework (DataType)
open Wire Io

/-- A tensor of a valid shape; `data` is its `tensor_data()`, or what `AsProtoTensorContent`
makes of its elements when they cannot be copied. -/
structure Tensor where
  dtype : DataType
  shape : List Nat
  data : List UInt8
  rank_le : shape.length ≤ 255
  dim_lt : ∀ d ∈ shape, d < 2 ^ 63

def dataTypeCanUseMemcpy : DataType → Bool
  | .float | .double | .int32 | .uint8 | .uint16 | .int16 | .int8 | .complex64 | .complex128
  | .int64 | .bool | .qint8 | .quint8 | .qint16 | .quint16 | .qint32 | .bfloat16 | .half => true
  | _ => false

structure TensorProto where
  dtype : Int
  tensorShape : List Int
  tensorContent : List UInt8
deriving DecidableEq

structure RecvTensorResponse where
  tensor : TensorProto
  isDead : Bool
  sendStartMicros : Int
deriving DecidableEq

def responseOf (isDead : Bool) (micros : Int64) (val : Tensor) : RecvTensorResponse where
  tensor := ⟨val.dtype.number, val.shape.map Int.ofNat, val.data⟩
  isDead := isDead
  sendStartMicros := micros.toInt

def int64Of (n : UInt64) : Int := n.toInt64.toInt

def int32Of (n : UInt64) : Int := (n.toNat : Int).bmod (2 ^ 32)

def mergeDim (size : Int) : Field → Int
  | ⟨1, .varint n⟩ => int64Of n
  | _ => size

def mergeTensorShape (dims : List Int) : Field → Option (List Int)
  | ⟨2, .delimited bytes⟩ =>
    (parseFields bytes).map fun fields => dims ++ [fields.foldl mergeDim 0]
  | _ => some dims

def mergeTensor (tensor : TensorProto) : Field → Option TensorProto
  | ⟨1, .varint n⟩ => some { tensor with dtype := int32Of n }
  | ⟨2, .delimited bytes⟩ => do
    let fields ← parseFields bytes
    let dims ← fields.foldlM mergeTensorShape tensor.tensorShape
    some { tensor with tensorShape := dims }
  | ⟨4, .delimited bytes⟩ => some { tensor with tensorContent := bytes }
  | _ => some tensor

def mergeResponse (response : RecvTensorResponse) : Field → Option RecvTensorResponse
  | ⟨1, .delimited bytes⟩ => do
    let fields ← parseFields bytes
    let tensor ← fields.foldlM mergeTensor response.tensor
    some { response with tensor := tensor }
  | ⟨2, .varint n⟩ => some { response with isDead := n ≠ 0 }
  | ⟨3, .varint n⟩ => some { response with sendStartMicros := int64Of n }
  | _ => some response

def parseResponse (bytes : List UInt8) : Option RecvTensorResponse := do
  let fields ← parseFields bytes
  fields.foldlM mergeResponse ⟨⟨0, [], []⟩, false, 0⟩

def headerFields (isDead : Bool) (micros : Int64) : List Field :=
  (if isDead then [⟨2, .varint 1⟩] else []) ++
    if micros = 0 then [] else [⟨3, .varint micros.toUInt64⟩]

/-- The fields of the message that `AsProtoTensorContent` fills. -/
def tensorFields (val : Tensor) : List Field :=
  (if val.dtype.number = 0 then [] else [⟨1, .varint (UInt64.ofNat val.dtype.number)⟩]) ++
    [⟨2, .delimited (writeFields (val.shape.map fun d =>
      ⟨2, .delimited (writeFields (if d = 0 then [] else [⟨1, .varint (UInt64.ofNat d)⟩]))⟩))⟩] ++
    if val.data = [] then [] else [⟨4, .delimited val.data⟩]

def encodeRecvTensorResponse (isDead : Bool) (micros : Int64) (val : Tensor) : List UInt8 :=
  writeFields (⟨1, .delimited (writeFields (tensorFields val))⟩ :: headerFields isDead micros)

def varLengthEncodingSize (tag : UInt32) (bytes : Nat) : Int :=
  ((varintLength (tag <<< 3).toUInt64 + varintLength (UInt64.ofNat bytes) + bytes : Nat) :
    Int).bmod (2 ^ 32)

def skeletonEncodingSizeUpperBound (val : Tensor) : Nat :=
  2 * 10 + val.shape.length * (4 * 10)

def dimVarlen (d : Nat) : Nat := 1 + varintLength (UInt64.ofNat d)

def tensorShapeBytes (val : Tensor) : Nat :=
  (val.shape.map fun d => 2 + 1 + varintLength (UInt64.ofNat d)).sum

def encodeDim (e : ProtoEncodeHelper) (d : Nat) : Except EncodeFailure ProtoEncodeHelper := do
  let e ← e.writeVarlengthBeginning 2 (UInt32.ofNat (dimVarlen d))
  e.writeUint64 1 (UInt64.ofNat d)

def encodeShape (val : Tensor) (e : ProtoEncodeHelper) :
    Except EncodeFailure ProtoEncodeHelper :=
  if 0 < tensorShapeBytes val then do
    let e ← e.writeVarlengthBeginning 2 (UInt32.ofNat (tensorShapeBytes val))
    val.shape.foldlM encodeDim e
  else .ok e

def encodeSkeleton (val : Tensor) (e : ProtoEncodeHelper) :
    Except EncodeFailure ProtoEncodeHelper := do
  let e ← e.writeUint64 1 (UInt64.ofNat val.dtype.number)
  encodeShape val e

def kLargeTensorBytes : Nat := 1024

section Sizes

variable (header skeleton : List UInt8) (val : Tensor)

def overallTensorProtoBytesize : UInt32 :=
  UInt32.ofNat ((skeleton.length + varLengthEncodingSize 4 val.data.length) % 2 ^ 32).toNat

def expectedSize : Nat :=
  ((header.length + varLengthEncodingSize 1 (overallTensorProtoBytesize skeleton val).toNat) %
    2 ^ 64).toNat

def encoderSize : Nat :=
  (((expectedSize header skeleton val : Int) - val.data.length) % 2 ^ 64).toNat

def encodeHead (e : ProtoEncodeHelper) : Except EncodeFailure ProtoEncodeHelper := do
  let e ← e.writeRawBytes header
  let e ← e.writeVarlengthBeginning 1 (overallTensorProtoBytesize skeleton val)
  let e ← e.writeRawBytes skeleton
  e.writeVarlengthBeginning 4 (UInt32.ofNat val.data.length)

def slicesOf (head : List UInt8) : List (List UInt8) :=
  if kLargeTensorBytes < val.data.length then [head, val.data, []] else [head ++ val.data]

end Sizes

/-- The slices of the buffer. -/
def encodeTensorToByteBuffer (isDead : Bool) (micros : Int64) (val : Tensor) :
    Except EncodeFailure (List (List UInt8)) :=
  if dataTypeCanUseMemcpy val.dtype = false then
    .ok [encodeRecvTensorResponse isDead micros val]
  else do
    let skeleton ← encodeSkeleton val ⟨skeletonEncodingSizeUpperBound val, []⟩
    let header := writeFields (headerFields isDead micros)
    let e ← encodeHead header skeleton.bytes val ⟨encoderSize header skeleton.bytes val, []⟩
    let slices := slicesOf val e.bytes
    if (slices.map List.length).sum = expectedSize header skeleton.bytes val then .ok slices
    else .error .check

open Wire Io Io.ProtoEncodeHelper Fallible

def dimField (d : Nat) : Field :=
  ⟨2, .delimited (writeFields [⟨1, .varint (UInt64.ofNat d)⟩])⟩

def shapeFields (val : Tensor) : List Field :=
  if val.shape = [] then [] else [⟨2, .delimited (writeFields (val.shape.map dimField))⟩]

def skeletonFields (val : Tensor) : List Field :=
  ⟨1, .varint (UInt64.ofNat val.dtype.number)⟩ :: shapeFields val

def encodedMessage (isDead : Bool) (micros : Int64) (val : Tensor) : List UInt8 :=
  writeFields (headerFields isDead micros ++
    [⟨1, .delimited (writeFields (skeletonFields val ++ [⟨4, .delimited val.data⟩]))⟩])

theorem length_varintBytes_le (room n : Nat) : (varintBytes room n).length ≤ room := by
  induction room generalizing n with
  | zero => exact Nat.le_refl 0
  | succ room ih =>
    rw [varintBytes]
    split
    · exact Nat.succ_le_succ (Nat.zero_le _)
    · exact Nat.succ_le_succ (ih _)

theorem length_writeVarint_le (n : Nat) : (writeVarint n).length ≤ 10 :=
  length_varintBytes_le 10 n

theorem length_writeVarint_of_lt {n : Nat} (h : n < 128) : (writeVarint n).length = 1 := by
  rw [writeVarint, varintBytes_of_lt h]
  rfl

theorem writeFields_singleton (field : Field) : writeFields [field] = field.write := by
  rw [writeFields, flatMap_singleton]

theorem length_key {field : Field} (h : field.number < 16) :
    (writeVarint field.key).length = 1 := by
  apply length_writeVarint_of_lt
  have hType := field.payload.wireType_lt
  rw [Field.key]
  omega

theorem length_delimited {number : Nat} (h : number < 16) (bytes : List UInt8) :
    (Field.write ⟨number, .delimited bytes⟩).length =
      1 + (writeVarint bytes.length).length + bytes.length := by
  rw [Field.write, length_append, length_key h, Payload.write, writeDelimited,
    length_append, Nat.add_assoc]

theorem length_sizeField (d : Nat) :
    (writeFields [⟨1, .varint (UInt64.ofNat d)⟩]).length = dimVarlen d := by
  rw [writeFields_singleton, Field.write, length_append, dimVarlen, varintLength_eq]
  rfl

theorem dimVarlen_le (d : Nat) : dimVarlen d ≤ 11 := by
  rw [dimVarlen, varintLength_eq]
  have := length_writeVarint_le (UInt64.ofNat d).toNat
  omega

theorem length_dimField (d : Nat) : (dimField d).write.length = 2 + dimVarlen d := by
  have hSize := length_sizeField d
  have hSmall := dimVarlen_le d
  rw [dimField, length_delimited (by decide), hSize,
    length_writeVarint_of_lt (Nat.lt_of_le_of_lt hSmall (by decide))]

theorem length_dims (shape : List Nat) :
    (writeFields (shape.map dimField)).length =
      (shape.map fun d => 2 + 1 + varintLength (UInt64.ofNat d)).sum := by
  induction shape with
  | nil => rfl
  | cons d rest ih =>
    rw [map_cons, map_cons, sum_cons, ← ih, writeFields, flatMap_cons,
      length_append, length_dimField, dimVarlen]
    rw [writeFields]
    omega

theorem tensorShapeBytes_le (shape : List Nat) :
    (shape.map fun d => 2 + 1 + varintLength (UInt64.ofNat d)).sum ≤ 13 * shape.length := by
  induction shape with
  | nil => exact Nat.le_refl 0
  | cons d rest ih =>
    have hSmall := dimVarlen_le d
    rw [dimVarlen] at hSmall
    rw [map_cons, sum_cons, length_cons]
    omega

theorem encodeDims_writes (shape : List Nat) :
    Writes (fun e => shape.foldlM encodeDim e) (writeFields (shape.map dimField)) := by
  induction shape with
  | nil => exact Writes.nil
  | cons d rest ih =>
    have hLen : (UInt32.ofNat (dimVarlen d)).toNat =
        (writeFields [⟨1, .varint (UInt64.ofNat d)⟩]).length := by
      rw [length_sizeField]
      have hSmall := dimVarlen_le d
      exact UInt32.toNat_ofNat_of_lt' (Nat.lt_of_le_of_lt hSmall (by decide))
    have hDim : Writes (fun e => encodeDim e d) (dimField d).write := by
      apply writeVarlength_writes 2 (by decide) hLen
      rw [writeFields_singleton]
      exact writeUint64_writes 1 (by decide) _
    have hBoth := hDim.bind ih
    exact hBoth

variable {val : Tensor}

theorem tensorShapeBytes_pos : 0 < tensorShapeBytes val ↔ val.shape ≠ [] := by
  rw [tensorShapeBytes]
  cases val.shape with
  | nil => simp
  | cons d rest =>
    simp

theorem encodeShape_writes (val : Tensor) :
    Writes (encodeShape val) (writeFields (shapeFields val)) := by
  have hFun : encodeShape val = fun e =>
      if val.shape = [] then .ok e
      else writeVarlengthBeginning 2 (UInt32.ofNat (tensorShapeBytes val)) e >>= fun e =>
        val.shape.foldlM encodeDim e := by
    funext e
    rw [encodeShape]
    by_cases hScalar : val.shape = []
    · rw [if_pos hScalar, if_neg (fun hPos => tensorShapeBytes_pos.mp hPos hScalar)]
    · rw [if_neg hScalar, if_pos (tensorShapeBytes_pos.mpr hScalar)]
  rw [hFun, shapeFields]
  by_cases hScalar : val.shape = []
  · simp only [if_pos hScalar]
    exact Writes.nil
  · simp only [if_neg hScalar, writeFields_singleton]
    have hLe := tensorShapeBytes_le val.shape
    have hRank := val.rank_le
    have hLen : (UInt32.ofNat (tensorShapeBytes val)).toNat =
        (writeFields (val.shape.map dimField)).length := by
      rw [length_dims]
      exact UInt32.toNat_ofNat_of_lt' (Nat.lt_of_le_of_lt hLe (by
        have : UInt32.size = 4294967296 := rfl
        omega))
    exact writeVarlength_writes 2 (by decide) hLen (encodeDims_writes val.shape)

theorem encodeSkeleton_writes (val : Tensor) :
    Writes (encodeSkeleton val) (writeFields (skeletonFields val)) :=
  (writeUint64_writes 1 (by decide) (UInt64.ofNat val.dtype.number)).bind
    (encodeShape_writes val)

theorem length_skeleton_le (val : Tensor) :
    (writeFields (skeletonFields val)).length ≤ skeletonEncodingSizeUpperBound val := by
  have hType := length_writeVarint_le (UInt64.ofNat val.dtype.number).toNat
  have hFirst : (Field.write ⟨1, .varint (UInt64.ofNat val.dtype.number)⟩).length ≤ 11 := by
    rw [Field.write, length_append, length_key (by simp), Payload.write]
    omega
  have hShape : (writeFields (shapeFields val)).length ≤ 11 * val.shape.length +
      13 * val.shape.length := by
    rw [shapeFields]
    split
    · exact Nat.zero_le _
    · rename_i hSome
      have hLe := tensorShapeBytes_le val.shape
      have hPos := length_pos_iff.mpr hSome
      have hVarint := length_writeVarint_le (writeFields (val.shape.map dimField)).length
      rw [writeFields_singleton, length_delimited (by decide)]
      rw [length_dims] at hVarint ⊢
      omega
  rw [skeletonFields, writeFields, flatMap_cons, length_append, skeletonEncodingSizeUpperBound]
  rw [writeFields] at hShape
  omega

theorem varLengthEncodingSize_eq {tag : UInt32} {number : Nat} (bytes : List UInt8)
    (hTag : tag.toNat = number) (hNumber : number < 16)
    (h : (Field.write ⟨number, .delimited bytes⟩).length < 2 ^ 31) :
    varLengthEncodingSize tag bytes.length =
      (Field.write ⟨number, .delimited bytes⟩).length := by
  have hLength := length_delimited hNumber bytes
  have hShift : (tag <<< 3).toUInt64.toNat = number * 2 ^ 3 % 2 ^ 32 := by
    have h3 : (3 : UInt32).toNat % 32 = 3 := rfl
    simp only [UInt32.toNat_toUInt64, UInt32.toNat_shiftLeft, h3, Nat.shiftLeft_eq, hTag]
  have hKey : varintLength (tag <<< 3).toUInt64 = 1 := by
    rw [varintLength_eq]
    exact length_writeVarint_of_lt (by omega)
  have hBytes : (UInt64.ofNat bytes.length).toNat = bytes.length := by
    apply UInt64.toNat_ofNat_of_lt'
    have : UInt64.size = 18446744073709551616 := rfl
    omega
  have hSum : varintLength (tag <<< 3).toUInt64 + varintLength (UInt64.ofNat bytes.length) +
      bytes.length = (Field.write ⟨number, .delimited bytes⟩).length := by
    rw [hKey, varintLength_eq, hBytes, hLength]
  unfold varLengthEncodingSize
  rw [hSum]
  exact Int.bmod_eq_of_le (by omega) (by omega)

section Sizes

variable (isDead : Bool) (micros : Int64) (val : Tensor)

def header : List UInt8 := writeFields (headerFields isDead micros)

def skeletonBytes : List UInt8 := writeFields (skeletonFields val)

def tensorBytes : List UInt8 := skeletonBytes val ++ Field.write ⟨4, .delimited val.data⟩

def head : List UInt8 :=
  header isDead micros ++ (Field.delimitedHead 1 (tensorBytes val).length ++
    (skeletonBytes val ++ Field.delimitedHead 4 val.data.length))

theorem tensorBytes_eq :
    tensorBytes val = writeFields (skeletonFields val ++ [⟨4, .delimited val.data⟩]) := by
  rw [writeFields_append, writeFields_singleton]
  rfl

theorem encodedMessage_eq : encodedMessage isDead micros val =
    header isDead micros ++ Field.write ⟨1, .delimited (tensorBytes val)⟩ := by
  rw [encodedMessage, writeFields_append, writeFields_singleton, tensorBytes_eq]
  rfl

theorem head_append_data :
    head isDead micros val ++ val.data = encodedMessage isDead micros val := by
  rw [encodedMessage_eq]
  simp only [head, tensorBytes, Field.write_delimited, append_assoc]

variable {isDead micros val}

variable (hSize : (encodedMessage isDead micros val).length < 2 ^ 31)
include hSize

theorem lengths :
    (header isDead micros).length + (Field.write ⟨1, .delimited (tensorBytes val)⟩).length <
      2 ^ 31 ∧
      (tensorBytes val).length ≤ (Field.write ⟨1, .delimited (tensorBytes val)⟩).length ∧
      (tensorBytes val).length = (skeletonBytes val).length +
        (Field.write ⟨4, .delimited val.data⟩).length ∧
      val.data.length ≤ (Field.write ⟨4, .delimited val.data⟩).length := by
  have hOuter := length_delimited (show 1 < 16 by decide) (tensorBytes val)
  have hInner := length_delimited (show 4 < 16 by decide) val.data
  rw [encodedMessage_eq, length_append] at hSize
  have hTensor : (tensorBytes val).length = (skeletonBytes val).length +
      (Field.write ⟨4, .delimited val.data⟩).length := by
    rw [tensorBytes, length_append]
  exact ⟨hSize, by omega, hTensor, by omega⟩

theorem overallTensorProtoBytesize_eq :
    (overallTensorProtoBytesize (skeletonBytes val) val).toNat = (tensorBytes val).length := by
  obtain ⟨hTotal, hOuter, hTensor, -⟩ := lengths hSize
  have hContent := varLengthEncodingSize_eq val.data (show (4 : UInt32).toNat = 4 from rfl)
    (by decide) (by omega)
  rw [overallTensorProtoBytesize, hContent, ← Int.natCast_add, ← hTensor]
  have hMod : (((tensorBytes val).length : Int) % 2 ^ 32).toNat = (tensorBytes val).length := by
    omega
  rw [hMod]
  apply UInt32.toNat_ofNat_of_lt'
  have : UInt32.size = 4294967296 := rfl
  omega

theorem expectedSize_eq :
    expectedSize (header isDead micros) (skeletonBytes val) val =
      (encodedMessage isDead micros val).length := by
  obtain ⟨hTotal, -⟩ := lengths hSize
  have hOuter := varLengthEncodingSize_eq (tensorBytes val)
    (show (1 : UInt32).toNat = 1 from rfl) (by decide) (by omega)
  rw [expectedSize, overallTensorProtoBytesize_eq hSize, encodedMessage_eq, length_append]
  omega

theorem encoderSize_eq :
    encoderSize (header isDead micros) (skeletonBytes val) val =
      (head isDead micros val).length := by
  have hSplit := congrArg List.length (head_append_data isDead micros val)
  rw [length_append] at hSplit
  rw [encoderSize, expectedSize_eq hSize]
  omega

theorem encodeHead_writes :
    Writes (encodeHead (header isDead micros) (skeletonBytes val) val)
      (head isDead micros val) := by
  obtain ⟨hTotal, hOuter, hTensor, hData⟩ := lengths hSize
  have hHeader : (header isDead micros).length < 2 ^ 31 := by omega
  have hSkeleton : (skeletonBytes val).length < 2 ^ 31 := by omega
  have hContent : (UInt32.ofNat val.data.length).toNat = val.data.length := by
    apply UInt32.toNat_ofNat_of_lt'
    have : UInt32.size = 4294967296 := rfl
    omega
  have hB := writeVarlengthBeginning_writes 1 (overallTensorProtoBytesize (skeletonBytes val) val)
    (by decide)
  have hD := writeVarlengthBeginning_writes 4 (UInt32.ofNat val.data.length) (by decide)
  rw [overallTensorProtoBytesize_eq hSize] at hB
  rw [hContent] at hD
  exact (encodeBytes_writes hHeader).bind (hB.bind ((encodeBytes_writes hSkeleton).bind hD))

end Sizes

theorem int32Of_number (dtype : DataType) : int32Of (UInt64.ofNat dtype.number) = dtype.number := by
  cases dtype <;> decide

variable {d number : Nat}

theorem int64Of_ofNat (h : d < 2 ^ 63) : int64Of (UInt64.ofNat d) = d := by
  exact Int64.toInt_ofNat_of_lt h

theorem int64Of_toUInt64 (micros : Int64) : int64Of micros.toUInt64 = micros.toInt := by
  rw [int64Of, Int64.toInt64_toUInt64]

theorem valid_varint (h : 0 < number ∧ number < 16) (n : UInt64) :
    Field.Valid ⟨number, .varint n⟩ :=
  ⟨⟨h.1, by simp only; omega⟩, trivial⟩

theorem valid_delimited (h : 0 < number ∧ number < 16) {bytes : List UInt8}
    (hLength : bytes.length < 2 ^ 32) : Field.Valid ⟨number, .delimited bytes⟩ :=
  ⟨⟨h.1, by simp only; omega⟩, hLength⟩

theorem valid_header (isDead : Bool) (micros : Int64) :
    ∀ field ∈ headerFields isDead micros, field.Valid := by
  intro field hMem
  rw [headerFields, mem_append] at hMem
  rcases hMem with hMem | hMem
  · split at hMem
    · obtain rfl := mem_singleton.mp hMem
      exact valid_varint (by decide) _
    · exact absurd hMem not_mem_nil
  · split at hMem
    · exact absurd hMem not_mem_nil
    · obtain rfl := mem_singleton.mp hMem
      exact valid_varint (by decide) _

theorem mergeResponse_header (isDead : Bool) (micros : Int64) (tensor : TensorProto) :
    (headerFields isDead micros).foldlM mergeResponse ⟨tensor, false, 0⟩ =
      some ⟨tensor, isDead, micros.toInt⟩ := by
  have hMicros : int64Of micros.toUInt64 = micros.toInt := int64Of_toUInt64 micros
  rw [headerFields]
  by_cases hZero : micros = 0
  · subst hZero
    cases isDead <;> rfl
  · rw [if_neg hZero]
    cases isDead <;> simp [mergeResponse, hMicros]

theorem mergeTensorShape_dims {shape : List Nat} (field : Nat → Field) (dims : List Int)
    (h : ∀ d ∈ shape, ∀ dims, mergeTensorShape dims (field d) = some (dims ++ [(d : Int)])) :
    (shape.map field).foldlM mergeTensorShape dims = some (dims ++ shape.map Int.ofNat) := by
  induction shape generalizing dims with
  | nil => simp
  | cons d rest ih =>
    rw [forall_mem_cons] at h
    rw [map_cons, foldlM_cons, h.1, bind_eq_bind, bind_some, ih _ h.2, append_assoc]
    rfl

theorem mergeTensorShape_dimField (h : d < 2 ^ 63) (dims : List Int) :
    mergeTensorShape dims (dimField d) = some (dims ++ [(d : Int)]) := by
  have hValid : ∀ field ∈ [(⟨1, .varint (UInt64.ofNat d)⟩ : Field)], field.Valid := by
    rw [forall_mem_singleton]
    exact valid_varint (by decide) _
  have hFields := parseFields_writeFields hValid
  rw [dimField, mergeTensorShape, hFields, map_some, foldl_cons, foldl_nil,
    mergeDim, int64Of_ofNat h]

theorem mergeTensor_shape {shape : List Nat} {field : Nat → Field}
    (hValid : ∀ d ∈ shape, (field d).Valid)
    (h : ∀ d ∈ shape, ∀ dims, mergeTensorShape dims (field d) = some (dims ++ [(d : Int)]))
    (dtype : Int) :
    mergeTensor ⟨dtype, [], []⟩ ⟨2, .delimited (writeFields (shape.map field))⟩ =
      some ⟨dtype, shape.map Int.ofNat, []⟩ := by
  have hFields : ∀ f ∈ shape.map field, f.Valid := by
    intro f hMem
    obtain ⟨d, hd, rfl⟩ := mem_map.mp hMem
    exact hValid d hd
  rw [mergeTensor, parseFields_writeFields hFields, bind_eq_bind, bind_some,
    mergeTensorShape_dims field [] h]
  rfl

theorem valid_dimField (d : Nat) : (dimField d).Valid := by
  apply valid_delimited (by decide)
  rw [length_sizeField]
  exact Nat.lt_of_le_of_lt (dimVarlen_le d) (by decide)

theorem mergeTensor_skeleton (val : Tensor) :
    (skeletonFields val).foldlM mergeTensor ⟨0, [], []⟩ =
      some ⟨val.dtype.number, val.shape.map Int.ofNat, []⟩ := by
  have hShape := mergeTensor_shape (fun d _ => valid_dimField d)
    (fun d hMem => mergeTensorShape_dimField (val.dim_lt d hMem)) val.dtype.number
  rw [skeletonFields, foldlM_cons, mergeTensor, int32Of_number, bind_eq_bind,
    bind_some, shapeFields]
  split
  · rename_i hScalar
    rw [hScalar]
    rfl
  · rw [foldlM_cons, hShape]
    rfl

theorem valid_tensor (val : Tensor) (hData : val.data.length < 2 ^ 32) :
    ∀ field ∈ skeletonFields val ++ [⟨4, .delimited val.data⟩], field.Valid := by
  have hRank := val.rank_le
  have hDims := tensorShapeBytes_le val.shape
  have hShape : (writeFields (val.shape.map dimField)).length < 2 ^ 32 := by
    rw [length_dims]
    omega
  rw [skeletonFields, shapeFields]
  intro field hMem
  rcases mem_append.mp hMem with hSkeleton | hContent
  · rcases mem_cons.mp hSkeleton with rfl | hMem
    · exact valid_varint (by decide) _
    · split at hMem
      · exact absurd hMem not_mem_nil
      · obtain rfl := mem_singleton.mp hMem
        exact valid_delimited (by decide) hShape
  · obtain rfl := mem_singleton.mp hContent
    exact valid_delimited (by decide) hData

theorem mergeResponse_tensor {fields : List Field} (hValid : ∀ field ∈ fields, field.Valid)
    {tensor : TensorProto} (hMerge : fields.foldlM mergeTensor ⟨0, [], []⟩ = some tensor)
    (isDead : Bool) (micros : Int) :
    mergeResponse ⟨⟨0, [], []⟩, isDead, micros⟩ ⟨1, .delimited (writeFields fields)⟩ =
      some ⟨tensor, isDead, micros⟩ := by
  rw [mergeResponse, parseFields_writeFields hValid, bind_eq_bind, bind_some, hMerge]
  rfl

theorem encodedMessage_parses {isDead : Bool} {micros : Int64}
    (hSize : (encodedMessage isDead micros val).length < 2 ^ 31) :
    parseResponse (encodedMessage isDead micros val) = some (responseOf isDead micros val) := by
  obtain ⟨hTotal, hOuter, hTensor, hData⟩ := lengths hSize
  have hMerge : (skeletonFields val ++ [(⟨4, .delimited val.data⟩ : Field)]).foldlM mergeTensor
      ⟨0, [], []⟩ = some ⟨val.dtype.number, val.shape.map Int.ofNat, val.data⟩ := by
    rw [foldlM_append, mergeTensor_skeleton]
    rfl
  have hValid : ∀ field ∈ headerFields isDead micros ++
      [⟨1, .delimited (writeFields (skeletonFields val ++ [⟨4, .delimited val.data⟩]))⟩],
      field.Valid := by
    intro field hMem
    rcases mem_append.mp hMem with hHeader | hLast
    · exact valid_header isDead micros field hHeader
    · obtain rfl := mem_singleton.mp hLast
      apply valid_delimited (by decide)
      rw [← tensorBytes_eq]
      omega
  rw [parseResponse, encodedMessage, parseFields_writeFields hValid, bind_eq_bind,
    bind_some, foldlM_append, mergeResponse_header, bind_eq_bind,
    bind_some, foldlM_cons,
    mergeResponse_tensor (valid_tensor val (by omega)) hMerge]
  rfl

def shortDimField (d : Nat) : Field :=
  ⟨2, .delimited (writeFields (if d = 0 then [] else [⟨1, .varint (UInt64.ofNat d)⟩]))⟩

def typeFields (val : Tensor) : List Field :=
  if val.dtype.number = 0 then [] else [⟨1, .varint (UInt64.ofNat val.dtype.number)⟩]

def contentFields (val : Tensor) : List Field :=
  if val.data = [] then [] else [⟨4, .delimited val.data⟩]

theorem tensorFields_eq (val : Tensor) : tensorFields val = typeFields val ++
    [⟨2, .delimited (writeFields (val.shape.map shortDimField))⟩] ++ contentFields val := rfl

theorem length_shortDim_le (d : Nat) :
    (writeFields (if d = 0 then [] else [⟨1, .varint (UInt64.ofNat d)⟩])).length ≤ 11 := by
  split
  · exact Nat.zero_le _
  · rw [length_sizeField]
    exact dimVarlen_le d

theorem length_shortDimField_le (d : Nat) : (shortDimField d).write.length ≤ 13 := by
  have hSmall := length_shortDim_le d
  rw [shortDimField, length_delimited (by decide),
    length_writeVarint_of_lt (Nat.lt_of_le_of_lt hSmall (by decide))]
  omega

theorem length_shortDims_le (shape : List Nat) :
    (writeFields (shape.map shortDimField)).length ≤ 13 * shape.length := by
  induction shape with
  | nil => exact Nat.le_refl 0
  | cons d rest ih =>
    have hFirst := length_shortDimField_le d
    rw [writeFields] at ih ⊢
    rw [map_cons, flatMap_cons, length_append, length_cons]
    omega

theorem mergeTensorShape_shortDimField (h : d < 2 ^ 63) (dims : List Int) :
    mergeTensorShape dims (shortDimField d) = some (dims ++ [(d : Int)]) := by
  by_cases hZero : d = 0
  · subst hZero
    rfl
  · have hDim := mergeTensorShape_dimField h dims
    rw [shortDimField, if_neg hZero]
    exact hDim

theorem mergeTensor_fields (val : Tensor) :
    (tensorFields val).foldlM mergeTensor ⟨0, [], []⟩ =
      some ⟨val.dtype.number, val.shape.map Int.ofNat, val.data⟩ := by
  have hType : (typeFields val).foldlM mergeTensor ⟨0, [], []⟩ =
      some ⟨val.dtype.number, [], []⟩ := by
    rw [typeFields]
    split
    · rename_i hZero
      rw [hZero]
      rfl
    · rw [foldlM_cons, mergeTensor, int32Of_number]
      rfl
  have hValid : ∀ d ∈ val.shape, (shortDimField d).Valid := by
    intro d _
    exact valid_delimited (by decide) (Nat.lt_of_le_of_lt (length_shortDim_le d) (by decide))
  have hShape := mergeTensor_shape hValid
    (fun d hMem => mergeTensorShape_shortDimField (val.dim_lt d hMem)) val.dtype.number
  have hContent : (contentFields val).foldlM mergeTensor
      ⟨val.dtype.number, val.shape.map Int.ofNat, []⟩ =
        some ⟨val.dtype.number, val.shape.map Int.ofNat, val.data⟩ := by
    rw [contentFields]
    split
    · rename_i hEmpty
      rw [hEmpty]
      rfl
    · rfl
  rw [tensorFields_eq, foldlM_append, foldlM_append, hType, bind_eq_bind,
    bind_some, foldlM_cons, hShape]
  exact hContent

theorem length_varintField_le (h : number < 16) (n : UInt64) :
    (Field.write ⟨number, .varint n⟩).length ≤ 11 := by
  have hValue := length_writeVarint_le n.toNat
  rw [Field.write, length_append, length_key h, Payload.write]
  omega

theorem length_delimited_le (h : number < 16) (bytes : List UInt8) :
    (Field.write ⟨number, .delimited bytes⟩).length ≤ 11 + bytes.length := by
  have hValue := length_writeVarint_le bytes.length
  rw [length_delimited h]
  omega

theorem length_tensorFields_le (val : Tensor) :
    (writeFields (tensorFields val)).length ≤ 33 + 13 * 255 + val.data.length := by
  have hRank := val.rank_le
  have hDims := length_shortDims_le val.shape
  have hType : (writeFields (typeFields val)).length ≤ 11 := by
    rw [typeFields]
    split
    · exact Nat.zero_le _
    · rw [writeFields_singleton]
      exact length_varintField_le (by decide) _
  have hShape := length_delimited_le (show 2 < 16 by decide)
    (writeFields (val.shape.map shortDimField))
  have hContent : (writeFields (contentFields val)).length ≤ 11 + val.data.length := by
    rw [contentFields]
    split
    · exact Nat.zero_le _
    · rw [writeFields_singleton]
      exact length_delimited_le (by decide) _
  simp only [tensorFields_eq, writeFields_append, length_append, writeFields_singleton]
  omega

theorem valid_tensorFields (val : Tensor) (hData : val.data.length < 2 ^ 32) :
    ∀ field ∈ tensorFields val, field.Valid := by
  have hRank := val.rank_le
  have hDims := length_shortDims_le val.shape
  intro field hMem
  rw [tensorFields_eq, mem_append, mem_append, typeFields, contentFields] at hMem
  rcases hMem with (hType | hShape) | hContent
  · split at hType
    · exact absurd hType not_mem_nil
    · obtain rfl := mem_singleton.mp hType
      exact valid_varint (by decide) _
  · obtain rfl := mem_singleton.mp hShape
    exact valid_delimited (by decide) (by omega)
  · split at hContent
    · exact absurd hContent not_mem_nil
    · obtain rfl := mem_singleton.mp hContent
      exact valid_delimited (by decide) hData

theorem encodeRecvTensorResponse_parses (isDead : Bool) (micros : Int64)
    (hData : val.data.length < 2 ^ 31) :
    parseResponse (encodeRecvTensorResponse isDead micros val) =
      some (responseOf isDead micros val) := by
  have hLength := length_tensorFields_le val
  have hFields : ∀ field ∈
      ⟨1, .delimited (writeFields (tensorFields val))⟩ :: headerFields isDead micros,
      field.Valid := by
    intro field hMem
    rcases mem_cons.mp hMem with rfl | hHeader
    · exact valid_delimited (by decide) (by omega)
    · exact valid_header isDead micros field hHeader
  rw [parseResponse, encodeRecvTensorResponse, parseFields_writeFields hFields,
    bind_eq_bind, bind_some, foldlM_cons,
    mergeResponse_tensor (valid_tensorFields val (by omega)) (mergeTensor_fields val),
    bind_eq_bind, bind_some, mergeResponse_header]
  rfl

/-- The buffer that is written by hand is the message of the same fields; what is written has
the size that was computed for it. -/
theorem encodeTensorToByteBuffer_parses (isDead : Bool) (micros : Int64) (val : Tensor)
    (hMemcpy : dataTypeCanUseMemcpy val.dtype = true)
    (hSize : (encodedMessage isDead micros val).length < 2 ^ 31) :
    ∃ skeleton e slices,
      encodeSkeleton val ⟨skeletonEncodingSizeUpperBound val, []⟩ = .ok skeleton ∧
      skeleton.size ≤ skeletonEncodingSizeUpperBound val ∧
      encodeHead (writeFields (headerFields isDead micros)) skeleton.bytes val
        ⟨encoderSize (writeFields (headerFields isDead micros)) skeleton.bytes val, []⟩ = .ok e ∧
      e.size = encoderSize (writeFields (headerFields isDead micros)) skeleton.bytes val ∧
      encodeTensorToByteBuffer isDead micros val = .ok slices ∧
      (slices.map List.length).sum =
        expectedSize (writeFields (headerFields isDead micros)) skeleton.bytes val ∧
      parseResponse slices.flatten =
        parseResponse (encodeRecvTensorResponse isDead micros val) ∧
      parseResponse slices.flatten = some (responseOf isDead micros val) := by
  obtain ⟨hTotal, hOuter, hTensor, hData⟩ := lengths hSize
  have hSkeleton : encodeSkeleton val ⟨skeletonEncodingSizeUpperBound val, []⟩ =
      .ok ⟨skeletonEncodingSizeUpperBound val, skeletonBytes val⟩ :=
    encodeSkeleton_writes val ⟨skeletonEncodingSizeUpperBound val, []⟩ (by
      simpa [size] using length_skeleton_le val)
  have hHead : encodeHead (header isDead micros) (skeletonBytes val) val
      ⟨encoderSize (header isDead micros) (skeletonBytes val) val, []⟩ =
        .ok ⟨encoderSize (header isDead micros) (skeletonBytes val) val,
          head isDead micros val⟩ :=
    encodeHead_writes hSize ⟨encoderSize (header isDead micros) (skeletonBytes val) val, []⟩ (by
      simp [size, encoderSize_eq hSize])
  have hFlatten : (slicesOf val (head isDead micros val)).flatten =
      encodedMessage isDead micros val := by
    rw [slicesOf, ← head_append_data]
    split <;> simp
  have hSum : ((slicesOf val (head isDead micros val)).map List.length).sum =
      expectedSize (header isDead micros) (skeletonBytes val) val := by
    rw [← length_flatten, hFlatten, expectedSize_eq hSize]
  have hBuffer : encodeTensorToByteBuffer isDead micros val =
      .ok (slicesOf val (head isDead micros val)) := by
    rw [encodeTensorToByteBuffer, if_neg (by simp [hMemcpy]), hSkeleton, ← header]
    simp only [hHead, ok_bind]
    rw [if_pos hSum]
  have hParses := encodedMessage_parses hSize
  have hShort : val.data.length < 2 ^ 31 := by omega
  have hFields := encodeRecvTensorResponse_parses isDead micros hShort
  refine ⟨_, _, _, hSkeleton, length_skeleton_le val, hHead, (encoderSize_eq hSize).symm, hBuffer,
    hSum, ?_, ?_⟩
  · rw [hFlatten, hParses, hFields]
  · rw [hFlatten, hParses]

def twoFloats : Tensor where
  dtype := .float
  shape := [2]
  data := [0, 0, 128, 63, 0, 0, 0, 64]
  rank_le := by decide
  dim_lt := by decide

/-- A tensor whose data is too large to be copied. -/
def manyBytes : Tensor where
  dtype := .uint8
  shape := [1025]
  data := replicate 1025 7
  rank_le := by decide
  dim_lt := by decide

theorem encodeTensorToByteBuffer_parses_copied_and_shared :
    (∃ slices, encodeTensorToByteBuffer true 5 twoFloats = .ok slices ∧ slices.length = 1 ∧
      parseResponse slices.flatten =
        some ⟨⟨1, [2], [0, 0, 128, 63, 0, 0, 0, 64]⟩, true, 5⟩) ∧
    ∃ slices, encodeTensorToByteBuffer false 0 manyBytes = .ok slices ∧ slices.length = 3 ∧
      parseResponse slices.flatten = some ⟨⟨4, [1025], replicate 1025 7⟩, false, 0⟩ := by
  constructor
  · obtain ⟨_, _, slices, _, _, _, _, hBuffer, _, _, hParses⟩ :=
      encodeTensorToByteBuffer_parses true 5 twoFloats (by decide) (by decide)
    have hOne : (encodeTensorToByteBuffer true 5 twoFloats).map length = .ok 1 := by
      decide +kernel
    rw [hBuffer] at hOne
    exact ⟨slices, hBuffer, Except.ok.inj hOne, hParses⟩
  · obtain ⟨_, _, slices, _, _, _, _, hBuffer, _, _, hParses⟩ :=
      encodeTensorToByteBuffer_parses false 0 manyBytes (by decide) (by decide +kernel)
    have hThree : (encodeTensorToByteBuffer false 0 manyBytes).map length = .ok 3 := by
      decide +kernel
    rw [hBuffer] at hThree
    exact ⟨slices, hBuffer, Except.ok.inj hThree, hParses⟩

end TensorFlowOnSpark.DistributedRuntime
