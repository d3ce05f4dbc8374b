import TensorFlowOnSpark.Lib.Bytes

/-!
# `TensorShape` as an object in memory

A shape is 16 bytes and the number of elements.
-/

namespace TensorFlowOnSpark.Framework

open Bytes List

abbrev Heap := UInt64 → Option (List Int64)

structure TensorShape where
  buf : List UInt8
  numElements : Int64
  buf_length : buf.length = 16
  deriving DecidableEq

namespace TensorShape

def rep16 : UInt8 := 0
def rep32 : UInt8 := 1
def repOutOfLine : UInt8 := 2

def maxRep16 : Int64 := 32768
def maxRep32 : Int64 := 2147483647
def maxElements : Int64 := 1099511627776
def maxDimensions : Nat := 255

def tag (s : TensorShape) : UInt8 := s.buf.getD 15 0

def ndims (s : TensorShape) : Nat := (s.buf.getD 14 0).toNat

def pointer (s : TensorShape) : UInt64 := UInt64.ofNat (decodeLE (slice s.buf 0 8))

def load (s : TensorShape) (start width : Nat) : Int64 :=
  Int64.ofInt (BitVec.ofNat (8 * width) (decodeLE (slice s.buf start width))).toInt

def as16 (s : TensorShape) (d : Nat) : Int64 := s.load (2 * d) 2

def as32 (s : TensorShape) (d : Nat) : Int64 := s.load (4 * d) 4

def write (s : TensorShape) (start : Nat) (src : List UInt8) (h : start + src.length ≤ 16) :
    TensorShape where
  buf := writeAt s.buf start src
  numElements := s.numElements
  buf_length := by rw [length_writeAt (by rw [s.buf_length]; exact h), s.buf_length]

def setTag (s : TensorShape) (t : UInt8) : TensorShape := s.write 15 [t] (by simp)

def setNdims (s : TensorShape) (n : Nat) : TensorShape := s.write 14 [UInt8.ofNat n] (by simp)

def bytesOf (width : Nat) (x : Int64) : List UInt8 := encodeLE width x.toBitVec.toNat

@[simp] theorem length_bytesOf (width : Nat) (x : Int64) : (bytesOf width x).length = width :=
  length_encodeLE _ _

def toBytes (s : TensorShape) : List UInt8 := s.buf ++ encodeLE 8 s.numElements.toUInt64.toNat

def ofBytes (bytes : List UInt8) : TensorShape where
  buf := (bytes ++ replicate 16 0).take 16
  numElements := (UInt64.ofNat (decodeLE (slice bytes 16 8))).toInt64
  buf_length := by simp

@[simp] theorem length_toBytes (s : TensorShape) : s.toBytes.length = 24 := by
  simp [toBytes, s.buf_length]

theorem ofBytes_toBytes (s : TensorShape) : ofBytes s.toBytes = s := by
  have hBuf : (s.toBytes ++ replicate 16 0).take 16 = s.buf := by
    rw [toBytes, append_assoc, take_append_of_le_length (by rw [s.buf_length]),
      take_of_length_le (by rw [s.buf_length])]
  have hSlice : slice s.toBytes 16 8 = encodeLE 8 s.numElements.toUInt64.toNat := by
    rw [slice, toBytes, drop_append_of_le_length (by rw [s.buf_length]),
      drop_of_length_le (by rw [s.buf_length]), nil_append,
      take_of_length_le (by simp)]
  have hNum : (UInt64.ofNat (decodeLE (slice s.toBytes 16 8))).toInt64 = s.numElements := by
    rw [hSlice, ofNat_decodeLE_uint64, Int64.toInt64_toUInt64]
  cases s
  simp only [ofBytes, mk.injEq]
  exact ⟨hBuf, hNum⟩

/-- What the iterators and `dim_size` read; `none` when there is no vector at the address. -/
def dimSizes (heap : Heap) (s : TensorShape) : Option (List Int64) :=
  if s.tag = rep16 then some ((range s.ndims).map s.as16)
  else if s.tag = rep32 then some ((range s.ndims).map s.as32)
  else
    match heap s.pointer with
    | some vals => if s.ndims ≤ vals.length then some (vals.take s.ndims) else none
    | none => none

/-- `TensorShape()`; the bytes that it leaves unset are those of `raw`. -/
def empty (raw : TensorShape) : TensorShape :=
  { (((raw.setTag rep16).setNdims 0).write 13 [0] (by simp)) with numElements := 1 }

def changeRep (fresh : UInt64) (heap : Heap) (s : TensorShape) (vals : List Int64) :
    Heap × TensorShape :=
  if h : vals.length ≤ 3 ∧ vals.all fun v => v < maxRep32 then
    (heap, (s.setTag rep32).write 0 (vals.flatMap (bytesOf 4)) (by
      have hLength : (vals.flatMap (bytesOf 4)).length = vals.length * 4 := by
        simp [length_flatMap]
      omega))
  else
    (Function.update heap fresh (some vals),
      (s.setTag repOutOfLine).write 0 (encodeLE 8 fresh.toNat) (by simp))

/-- Stores the dimension; `fresh` is the address that `new` would return. -/
def pushDim (fresh : UInt64) (heap : Heap) (s : TensorShape) (size : Int64) :
    Option (Heap × TensorShape) :=
  if h : s.tag = rep16 ∧ s.ndims < 6 ∧ size < maxRep16 then
    some (heap, s.write (2 * s.ndims) (bytesOf 2 size) (by simp; omega))
  else if h : s.tag = rep32 ∧ s.ndims < 3 ∧ size < maxRep32 then
    some (heap, s.write (4 * s.ndims) (bytesOf 4 size) (by simp; omega))
  else if s.tag = repOutOfLine then
    match heap s.pointer with
    | some vals => some (Function.update heap s.pointer (some (vals ++ [size])), s)
    | none => none
  else
    match s.dimSizes heap with
    | some old => some (changeRep fresh heap s (old ++ [size]))
    | none => none

/-- `none` is a failed `CHECK`, or a vector that is not there. -/
def addDim (fresh : UInt64) (heap : Heap) (s : TensorShape) (size : Int64) :
    Option (Heap × TensorShape) :=
  if 0 ≤ size ∧ s.ndims < maxDimensions then
    match pushDim fresh heap s size with
    | none => none
    | some (heap', s') =>
      let product := s'.numElements * size
      if 0 ≤ product ∧ product ≤ maxElements then
        some (heap', { s'.setNdims (s.ndims + 1) with numElements := product })
      else none
  else none

def addDims (fresh : UInt64) (heap : Heap) (s : TensorShape) :
    List Int64 → Option (Heap × TensorShape)
  | [] => some (heap, s)
  | size :: rest =>
    match addDim fresh heap s size with
    | none => none
    | some (heap', s') => addDims fresh heap' s' rest

end TensorShape

end TensorFlowOnSpark.Framework
