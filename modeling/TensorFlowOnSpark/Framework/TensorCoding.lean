import TensorFlowOnSpark.Lib.Layout
import TensorFlowOnSpark.Framework.TensorProto
import TensorFlowOnSpark.Framework.TensorShape
import TensorFlowOnSpark.Io.ProtoEncodeHelper

/-!
# Tensors as messages

`Tensor::FromProto`, `AsProtoField` and `AsProtoTensorContent` of `framework/tensor.cc`,
with the lists of strings of `platform/tensor_coding.cc`.
-/

namespace TensorFlowOnSpark.Framework.TensorCoding

open Wire Io List
open TensorShape (maxElements maxDimensions)

/-- How a call goes wrong: its behaviour is undefined, or a `CHECK` fails. -/
inductive Failure where
  | undefined
  | check
deriving DecidableEq

def fits : Int64 → List Int64 → Bool
  | _, [] => true
  | numElements, size :: rest =>
    if size < 0 then false
    else if maxElements < numElements * size then false
    else fits (numElements * size) rest

def isValid (sizes : List Int64) : Bool := sizes.length ≤ maxDimensions && fits 1 sizes

/-- `AddDim` for each size. -/
def addDims : Int64 → List Int64 → Option Int64
  | numElements, [] => some numElements
  | numElements, size :: rest =>
    if 0 ≤ size ∧ 0 ≤ numElements * size ∧ numElements * size ≤ maxElements then
      addDims (numElements * size) rest
    else none

structure Shape where
  dims : List Int64
  numElements : Int64
  rank_le : dims.length ≤ maxDimensions
  added : addDims 1 dims = some numElements

def Shape.ofProto (sizes : List Int64) : Except Failure Shape :=
  match h : addDims 1 sizes with
  | none => .error .check
  | some numElements =>
    if hRank : sizes.length ≤ maxDimensions then .ok ⟨sizes, numElements, hRank, h⟩
    else .error .check

def Shape.count (shape : Shape) : Nat := shape.numElements.toInt.toNat

/-- The generated class of `ResourceHandle`: a handle that is serialized is found again. -/
structure HandleMessages (ρ : Type) where
  empty : ρ
  serialize : ρ → List UInt8
  parse : List UInt8 → Option ρ
  length_lt : ∀ handle, (serialize handle).length < 2 ^ 31
  parse_serialize : ∀ handle, parse (serialize handle) = some handle

inductive TypeCode where
  | ofType (dtype : DataType)
  | other (number : Int)

def dataTypes : List DataType :=
  [.invalid, .float, .double, .int32, .uint8, .int16, .int8, .string, .complex64, .int64, .bool,
    .qint8, .quint8, .qint32, .bfloat16, .qint16, .quint16, .uint16, .complex128, .half, .resource]

namespace TypeCode

def ofNumber (number : Int) : TypeCode :=
  match dataTypes.find? fun dtype => (dtype.number : Int) == number with
  | some dtype => ofType dtype
  | none => other number

def number : TypeCode → Int
  | ofType dtype => dtype.number
  | other number => number

/-- The type of the elements. -/
def Elem (ρ : Type) : TypeCode → Type
  | ofType .float => UInt32
  | ofType .double => UInt64
  | ofType .int32 | ofType .qint32 => Int32
  | ofType .uint8 | ofType .quint8 => UInt8
  | ofType .uint16 | ofType .quint16 | ofType .bfloat16 | ofType .half => UInt16
  | ofType .int16 | ofType .qint16 => Int16
  | ofType .int8 | ofType .qint8 => Int8
  | ofType .int64 => Int64
  | ofType .bool => Bool
  | ofType .complex64 => UInt32 × UInt32
  | ofType .complex128 => UInt64 × UInt64
  | ofType .string => List UInt8
  | ofType .resource => ρ
  | ofType .invalid | other _ => Empty

end TypeCode

structure TensorProto (ρ : Type) where
  dtype : Int
  tensorShape : List Int64
  tensorContent : List UInt8
  halfVal : List Int32
  floatVal : List UInt32
  doubleVal : List UInt64
  intVal : List Int32
  stringVal : List (List UInt8)
  scomplexVal : List UInt32
  int64Val : List Int64
  boolVal : List Bool
  dcomplexVal : List UInt64
  resourceHandleVal : List ρ

def TensorProto.clear {ρ : Type} : TensorProto ρ :=
  ⟨0, [], [], [], [], [], [], [], [], [], [], [], []⟩

structure Tensor (ρ : Type) where
  dtype : TypeCode
  shape : Shape
  buf : Option (List.Vector (dtype.Elem ρ) shape.count)

variable {ρ T F : Type}

structure Helper (T : Type) where
  encode : List T → Except Failure (List UInt8)
  decode : Bool → List UInt8 → (n : Nat) → Except Failure (Option (List.Vector T n))

/-- A type that is copied; `allocated` says whether the allocator returns a buffer. -/
def simpleHelper (layout : Layout T) : Helper T where
  encode data := .ok (layout.writeAll data)
  decode allocated content n :=
    if content.length ≠ layout.size * n then .ok none
    else if allocated then .ok (some (layout.readAll n content))
    else .ok none

/-- `EncodeStringList`; the loops count with an `int`. -/
def encodeStringList (strings : List (List UInt8)) : Except Failure (List UInt8) :=
  if strings.length < 2 ^ 31 then
    .ok (strings.flatMap (fun s => encodeVarint32 (UInt32.ofNat s.length)) ++ strings.flatten)
  else .error .undefined

def getVarint32 (input : List UInt8) : Option (UInt32 × List UInt8) :=
  (varint 5 input).map fun (n, rest) => (UInt32.ofNat n, rest)

def getSizes : (n : Nat) → List UInt8 → Option (List.Vector UInt32 n × List UInt8)
  | 0, reader => some (Vector.nil, reader)
  | n + 1, reader => do
    let (size, reader) ← getVarint32 reader
    let (sizes, reader) ← getSizes n reader
    return (Vector.cons size sizes, reader)

def total {n : Nat} (sizes : List.Vector UInt32 n) : Int :=
  ((sizes.toList.map UInt32.toNat).sum : Int).bmod (2 ^ 64)

def assignStrings : (n : Nat) → List.Vector UInt32 n → List UInt8 →
    Option (List.Vector (List UInt8) n)
  | 0, _, _ => some Vector.nil
  | n + 1, sizes, reader =>
    if reader.length < sizes.head.toNat then none
    else
      (assignStrings n sizes.tail (reader.drop sizes.head.toNat)).map
        (Vector.cons (reader.take sizes.head.toNat))

def decodeStringList (src : List UInt8) (n : Nat) : Option (List.Vector (List UInt8) n) := do
  let (sizes, reader) ← getSizes n src
  if total sizes ≠ reader.length then none else assignStrings n sizes reader

def stringHelper : Helper (List UInt8) where
  encode := encodeStringList
  decode allocated content n := .ok (if allocated then decodeStringList content n else none)

section Handles

variable (handles : HandleMessages ρ)

def encodeResourceHandleList (p : List ρ) : Except Failure (List UInt8) :=
  encodeStringList (p.map handles.serialize)

def parseHandles : (n : Nat) → List.Vector UInt32 n → List UInt8 →
    Except Failure (Option (List.Vector ρ n))
  | 0, _, _ => .ok (some Vector.nil)
  | n + 1, sizes, reader =>
    if reader.length < sizes.head.toNat ∨ 2 ^ 31 ≤ sizes.head.toNat then .error .undefined
    else
      match handles.parse (reader.take sizes.head.toNat) with
      | none => .ok none
      | some handle =>
        (parseHandles n sizes.tail (reader.drop sizes.head.toNat)).map
          (Option.map (Vector.cons handle))

def decodeResourceHandleList (src : List UInt8) (n : Nat) :
    Except Failure (Option (List.Vector ρ n)) :=
  match getSizes n src with
  | none => .ok none
  | some (sizes, reader) =>
    if total sizes ≠ reader.length then .ok none
    else if n < 2 ^ 31 then parseHandles handles n sizes reader
    else .error .undefined

def resourceHelper : Helper ρ where
  encode := encodeResourceHandleList handles
  decode allocated content n :=
    if allocated then decodeResourceHandleList handles content n else .ok none

end Handles

/-- `begin` is what can be read from `Begin` on. -/
structure ProtoHelper (ρ T : Type) where
  begin : TensorProto ρ → Except Failure (List T)
  numElements : TensorProto ρ → Nat
  fill : List T → TensorProto ρ → Except Failure (TensorProto ρ)

structure SameHead (proto proto' : TensorProto ρ) : Prop where
  dtype : proto'.dtype = proto.dtype
  tensorShape : proto'.tensorShape = proto.tensorShape
  tensorContent : proto'.tensorContent = proto.tensorContent

structure RepeatedField (ρ F : Type) where
  val : TensorProto ρ → List F
  setVal : TensorProto ρ → List F → TensorProto ρ
  val_setVal : ∀ proto xs, val (setVal proto xs) = xs
  head : ∀ proto xs, SameHead proto (setVal proto xs)

namespace RepeatedField

def half : RepeatedField ρ Int32 where
  val := TensorProto.halfVal
  setVal proto val := { proto with halfVal := val }
  val_setVal _ _ := rfl
  head _ _ := ⟨rfl, rfl, rfl⟩

def float : RepeatedField ρ UInt32 where
  val := TensorProto.floatVal
  setVal proto val := { proto with floatVal := val }
  val_setVal _ _ := rfl
  head _ _ := ⟨rfl, rfl, rfl⟩

def double : RepeatedField ρ UInt64 where
  val := TensorProto.doubleVal
  setVal proto val := { proto with doubleVal := val }
  val_setVal _ _ := rfl
  head _ _ := ⟨rfl, rfl, rfl⟩

def int : RepeatedField ρ Int32 where
  val := TensorProto.intVal
  setVal proto val := { proto with intVal := val }
  val_setVal _ _ := rfl
  head _ _ := ⟨rfl, rfl, rfl⟩

def string : RepeatedField ρ (List UInt8) where
  val := TensorProto.stringVal
  setVal proto val := { proto with stringVal := val }
  val_setVal _ _ := rfl
  head _ _ := ⟨rfl, rfl, rfl⟩

def scomplex : RepeatedField ρ UInt32 where
  val := TensorProto.scomplexVal
  setVal proto val := { proto with scomplexVal := val }
  val_setVal _ _ := rfl
  head _ _ := ⟨rfl, rfl, rfl⟩

def int64 : RepeatedField ρ Int64 where
  val := TensorProto.int64Val
  setVal proto val := { proto with int64Val := val }
  val_setVal _ _ := rfl
  head _ _ := ⟨rfl, rfl, rfl⟩

def bool : RepeatedField ρ Bool where
  val := TensorProto.boolVal
  setVal proto val := { proto with boolVal := val }
  val_setVal _ _ := rfl
  head _ _ := ⟨rfl, rfl, rfl⟩

def dcomplex : RepeatedField ρ UInt64 where
  val := TensorProto.dcomplexVal
  setVal proto val := { proto with dcomplexVal := val }
  val_setVal _ _ := rfl
  head _ _ := ⟨rfl, rfl, rfl⟩

def resourceHandle : RepeatedField ρ ρ where
  val := TensorProto.resourceHandleVal
  setVal proto val := { proto with resourceHandleVal := val }
  val_setVal _ _ := rfl
  head _ _ := ⟨rfl, rfl, rfl⟩

/-- A repeated field counts its elements with an `int`. -/
def swap (field : RepeatedField ρ F) (copy : List F) (proto : TensorProto ρ) :
    Except Failure (TensorProto ρ) :=
  if copy.length < 2 ^ 31 then .ok (field.setVal proto copy) else .error .undefined

end RepeatedField

def protoTraits (field : RepeatedField ρ F) (toField : T → F) (ofField : F → T) :
    ProtoHelper ρ T where
  begin proto := .ok ((field.val proto).map ofField)
  numElements proto := (field.val proto).length
  fill data := field.swap (data.map toField)

def floatProto : ProtoHelper ρ UInt32 := protoTraits .float id id

def doubleProto : ProtoHelper ρ UInt64 := protoTraits .double id id

def int32Proto : ProtoHelper ρ Int32 := protoTraits .int id id

def uint8Proto : ProtoHelper ρ UInt8 :=
  protoTraits .int (fun x => x.toUInt32.toInt32) fun x => x.toUInt32.toUInt8

def uint16Proto : ProtoHelper ρ UInt16 :=
  protoTraits .int (fun x => x.toUInt32.toInt32) fun x => x.toUInt32.toUInt16

def int16Proto : ProtoHelper ρ Int16 := protoTraits .int Int16.toInt32 Int32.toInt16

def int8Proto : ProtoHelper ρ Int8 := protoTraits .int Int8.toInt32 Int32.toInt8

def boolProto : ProtoHelper ρ Bool := protoTraits .bool id id

def stringProto : ProtoHelper ρ (List UInt8) := protoTraits .string id id

def qint8Proto : ProtoHelper ρ Int8 := protoTraits .int Int8.toInt32 Int32.toInt8

def quint8Proto : ProtoHelper ρ UInt8 :=
  protoTraits .int (fun x => x.toUInt32.toInt32) fun x => x.toUInt32.toUInt8

def qint16Proto : ProtoHelper ρ Int16 := protoTraits .int Int16.toInt32 Int32.toInt16

def quint16Proto : ProtoHelper ρ UInt16 :=
  protoTraits .int (fun x => x.toUInt32.toInt32) fun x => x.toUInt32.toUInt16

def int64Proto : ProtoHelper ρ Int64 := protoTraits .int64 id id

def qint32Proto : ProtoHelper ρ Int32 := protoTraits .int id id

def halfProto : ProtoHelper ρ UInt16 :=
  protoTraits .half (fun x => x.toUInt32.toInt32) fun x => x.toUInt32.toUInt16

/-- The handles of a repeated field are apart in memory; only the first is where `Begin` points,
which reads it to find its address. -/
def resourceProto : ProtoHelper ρ ρ where
  begin proto :=
    match proto.resourceHandleVal with
    | [] => .error .undefined
    | handle :: _ => .ok [handle]
  numElements proto := proto.resourceHandleVal.length
  fill data := RepeatedField.resourceHandle.swap data

def pairs : List F → List (F × F)
  | x :: y :: rest => (x, y) :: pairs rest
  | _ => []

def complexTraits (field : RepeatedField ρ F) : ProtoHelper ρ (F × F) where
  begin proto := .ok (pairs (field.val proto))
  numElements proto := (field.val proto).length / 2
  fill data := field.swap (data.flatMap fun x => [x.1, x.2])

def complex64Proto : ProtoHelper ρ (UInt32 × UInt32) := complexTraits .scomplex

def complex128Proto : ProtoHelper ρ (UInt64 × UInt64) := complexTraits .dcomplex

/-- `Begin` takes the `int32` array for one of `bfloat16`. -/
def bfloat16Proto : ProtoHelper ρ UInt16 where
  begin proto := .ok (proto.intVal.flatMap fun (x : Int32) =>
    [x.toUInt32.toUInt16, (x.toUInt32 >>> 16).toUInt16])
  numElements proto := proto.intVal.length
  fill data := RepeatedField.int.swap (data.map fun x => x.toUInt32.toInt32)

def copyN (begin : List T) (n : Nat) : Except Failure (List.Vector T n) :=
  if h : n ≤ begin.length then .ok ⟨begin.take n, length_take_of_le h⟩
  else .error .undefined

def fromProtoField (helper : ProtoHelper ρ T) (default : T) (allocated : Bool)
    (proto : TensorProto ρ) (n : Nat) : Except Failure (Option (List.Vector T n)) :=
  if n = 0 then .error .check
  else if allocated = false then .ok none
  else do
    let begin ← helper.begin proto
    if h : n ≤ helper.numElements proto then
      return some (← copyN begin n)
    else if 0 < helper.numElements proto then
      let data ← copyN begin (helper.numElements proto)
      let last := data.toList.getD (helper.numElements proto - 1) default
      return some ⟨data.toList ++ replicate (n - helper.numElements proto) last, by
        rw [length_append, Vector.toList_length, length_replicate]
        omega⟩
    else return some (List.Vector.replicate n default)

structure Case (ρ T : Type) where
  default : T
  helper : Helper T
  proto : ProtoHelper ρ T

section Tensors

open TypeCode

variable (handles : HandleMessages ρ)

/-- `CASES`; `none` is a `LOG(FATAL)`. -/
def cases : (type : TypeCode) → Option (Case ρ (type.Elem ρ))
  | ofType .float => some ⟨(0 : UInt32), simpleHelper .uint32, floatProto⟩
  | ofType .double => some ⟨(0 : UInt64), simpleHelper .uint64, doubleProto⟩
  | ofType .int32 => some ⟨(0 : Int32), simpleHelper .int32, int32Proto⟩
  | ofType .uint8 => some ⟨(0 : UInt8), simpleHelper .uint8, uint8Proto⟩
  | ofType .uint16 => some ⟨(0 : UInt16), simpleHelper .uint16, uint16Proto⟩
  | ofType .int16 => some ⟨(0 : Int16), simpleHelper .int16, int16Proto⟩
  | ofType .int8 => some ⟨(0 : Int8), simpleHelper .int8, int8Proto⟩
  | ofType .string => some ⟨([] : List UInt8), stringHelper, stringProto⟩
  | ofType .complex64 =>
    some ⟨((0, 0) : UInt32 × UInt32), simpleHelper (.pair .uint32), complex64Proto⟩
  | ofType .complex128 =>
    some ⟨((0, 0) : UInt64 × UInt64), simpleHelper (.pair .uint64), complex128Proto⟩
  | ofType .int64 => some ⟨(0 : Int64), simpleHelper .int64, int64Proto⟩
  | ofType .bool => some ⟨false, simpleHelper .bool, boolProto⟩
  | ofType .qint32 => some ⟨(0 : Int32), simpleHelper .int32, qint32Proto⟩
  | ofType .quint8 => some ⟨(0 : UInt8), simpleHelper .uint8, quint8Proto⟩
  | ofType .qint8 => some ⟨(0 : Int8), simpleHelper .int8, qint8Proto⟩
  | ofType .quint16 => some ⟨(0 : UInt16), simpleHelper .uint16, quint16Proto⟩
  | ofType .qint16 => some ⟨(0 : Int16), simpleHelper .int16, qint16Proto⟩
  | ofType .bfloat16 => some ⟨(0 : UInt16), simpleHelper .uint16, bfloat16Proto⟩
  | ofType .half => some ⟨(0 : UInt16), simpleHelper .uint16, halfProto⟩
  | ofType .resource => some ⟨handles.empty, resourceHelper handles, resourceProto⟩
  | ofType .invalid | other _ => none

abbrev Allocator := TypeCode → Nat → Bool

/-- `FromProto`; the `uint8` in a shape that holds the type holds the number of any type that
`CASES` knows. -/
def fromProto (a : Allocator) (proto : TensorProto ρ) (t : Tensor ρ) :
    Except Failure (Bool × Tensor ρ) :=
  if isValid proto.tensorShape = false then .ok (false, t)
  else if proto.dtype = 0 then .ok (false, t)
  else do
    let shape ← Shape.ofProto proto.tensorShape
    if 0 < shape.count then
      let type := ofNumber proto.dtype
      match cases handles type with
      | none => .error .check
      | some c =>
        let p ←
          if proto.tensorContent ≠ [] then
            c.helper.decode (a type shape.count) proto.tensorContent shape.count
          else fromProtoField c.proto c.default (a type shape.count) proto shape.count
        match p with
        | none => return (false, t)
        | some buf => return (true, ⟨type, shape, some buf⟩)
    else return (true, ⟨ofNumber (proto.dtype % 256), shape, none⟩)

def asProtoField (t : Tensor ρ) : Except Failure (TensorProto ρ) :=
  let proto := { TensorProto.clear with tensorShape := t.shape.dims, dtype := t.dtype.number }
  match t.buf with
  | none => .ok proto
  | some buf =>
    match cases handles t.dtype with
    | none => .error .check
    | some c => c.proto.fill buf.toList proto

def asProtoTensorContent (t : Tensor ρ) : Except Failure (TensorProto ρ) :=
  let proto := { TensorProto.clear with tensorShape := t.shape.dims, dtype := t.dtype.number }
  match t.buf with
  | none => .ok proto
  | some buf =>
    match cases handles t.dtype with
    | none => .error .check
    | some c => do
      let content ← c.helper.encode buf.toList
      return { proto with tensorContent := content }

end Tensors

namespace Tensor

def isInitialized (t : Tensor ρ) : Bool := t.buf.isSome || t.shape.count == 0

end Tensor

end TensorFlowOnSpark.Framework.TensorCoding
