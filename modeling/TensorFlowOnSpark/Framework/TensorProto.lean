import Mathlib.Algebra.GroupWithZero.Nat

/-!
# Tensors as far as their encoded size depends on them

`Tensor::AsProtoTensorContent` fills a `TensorProto` with the type, the shape and one byte
string.
-/

namespace TensorFlowOnSpark.Framework

/-- `types.proto`, without the reference types that no tensor value has. -/
inductive DataType where
  | invalid | float | double | int32 | uint8 | int16 | int8 | string | complex64 | int64 | bool
  | qint8 | quint8 | qint32 | bfloat16 | qint16 | quint16 | uint16 | complex128 | half | resource
  deriving DecidableEq, Repr

def DataType.number : DataType → Nat
  | .invalid => 0 | .float => 1 | .double => 2 | .int32 => 3 | .uint8 => 4 | .int16 => 5
  | .int8 => 6 | .string => 7 | .complex64 => 8 | .int64 => 9 | .bool => 10 | .qint8 => 11
  | .quint8 => 12 | .qint32 => 13 | .bfloat16 => 14 | .qint16 => 15 | .quint16 => 16
  | .uint16 => 17 | .complex128 => 18 | .half => 19 | .resource => 20

/-- A tensor, with the length of the bytes that `Helper<T>::Encode` makes of its elements. -/
structure Tensor where
  dtype : DataType
  shape : List Nat
  contentBytes : Nat
  deriving DecidableEq, Repr

/-- `Tensor::Tensor()`: type `DT_FLOAT`, shape `{0}`, no buffer. -/
def Tensor.empty : Tensor := ⟨.float, [0], 0⟩

def varintSize (n : Nat) : Nat := n.log2 / 7 + 1

def delimitedSize (length : Nat) : Nat := 1 + varintSize length + length

def dimByteSize (size : Nat) : Nat := if size = 0 then 0 else 1 + varintSize size

def shapeByteSize (shape : List Nat) : Nat := (shape.map fun d => delimitedSize (dimByteSize d)).sum

/-- `proto.ByteSize()` after `AsProtoTensorContent(&proto)`. -/
def Tensor.byteSize (t : Tensor) : Nat :=
  (if t.dtype.number = 0 then 0 else 1 + varintSize t.dtype.number) +
    delimitedSize (shapeByteSize t.shape) +
    (if t.contentBytes = 0 then 0 else delimitedSize t.contentBytes)

end TensorFlowOnSpark.Framework
