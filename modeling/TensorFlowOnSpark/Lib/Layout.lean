import TensorFlowOnSpark.Lib.Bytes
import Mathlib.Data.Vector.Defs

/-!
# Arrays of values of one size

How values of a type lie in memory, and arrays of them: a value that is written can be read back,
so an array can.
-/

namespace TensorFlowOnSpark

open Nat

universe u

open List

structure Layout (T : Type u) where
  size : Nat
  write : T → List UInt8
  read : List UInt8 → T
  size_pos : 0 < size
  length_write : ∀ x, (write x).length = size
  read_write : ∀ x, read (write x) = x

namespace Layout

open Bytes

variable {S T : Type u} (layout : Layout T)

def writeAll (xs : List T) : List UInt8 := xs.flatMap layout.write

def readAll : (n : Nat) → List UInt8 → List.Vector T n
  | 0, _ => Vector.nil
  | n + 1, bytes =>
    Vector.cons (layout.read (bytes.take layout.size)) (readAll n (bytes.drop layout.size))

theorem length_writeAll (xs : List T) : (layout.writeAll xs).length = layout.size * xs.length := by
  rw [writeAll]
  induction xs with
  | nil => rfl
  | cons x xs ih =>
    rw [flatMap_cons, length_append, ih, layout.length_write, length_cons,
      mul_succ, add_comm]

theorem writeAll_ne_nil {xs : List T} (h : xs ≠ []) : layout.writeAll xs ≠ [] := by
  have hSize := layout.size_pos
  have hXs := length_pos_iff.mpr h
  have hLength := layout.length_writeAll xs
  apply length_pos_iff.mp
  rw [hLength]
  exact mul_pos hSize hXs

theorem toList_readAll_writeAll (xs : List T) :
    (layout.readAll xs.length (layout.writeAll xs)).toList = xs := by
  rw [writeAll]
  induction xs with
  | nil => rfl
  | cons x xs ih =>
    have hLength := layout.length_write x
    rw [flatMap_cons, length_cons, readAll, Vector.toList_cons,
      take_left' hLength, drop_left' hLength, layout.read_write, ih]

theorem readAll_writeAll {n : Nat} (xs : List.Vector T n) :
    layout.readAll n (layout.writeAll xs.toList) = xs := by
  apply Subtype.ext
  have h := layout.toList_readAll_writeAll xs.toList
  rwa [Vector.toList_length] at h

def uint8 : Layout UInt8 where
  size := 1
  write x := [x]
  read bytes := bytes.getD 0 0
  size_pos := by decide
  length_write _ := rfl
  read_write _ := rfl

def uint16 : Layout UInt16 where
  size := 2
  write x := encodeLE 2 x.toNat
  read bytes := UInt16.ofNat (decodeLE bytes)
  size_pos := by decide
  length_write x := length_encodeLE 2 x.toNat
  read_write := ofNat_decodeLE_uint16

def uint32 : Layout UInt32 where
  size := 4
  write x := encodeLE 4 x.toNat
  read bytes := UInt32.ofNat (decodeLE bytes)
  size_pos := by decide
  length_write x := length_encodeLE 4 x.toNat
  read_write := ofNat_decodeLE_uint32

def uint64 : Layout UInt64 where
  size := 8
  write x := encodeLE 8 x.toNat
  read bytes := UInt64.ofNat (decodeLE bytes)
  size_pos := by decide
  length_write x := length_encodeLE 8 x.toNat
  read_write := ofNat_decodeLE_uint64

def via (toStored : T → S) (ofStored : S → T) (h : ∀ x, ofStored (toStored x) = x)
    (stored : Layout S) : Layout T where
  size := stored.size
  write x := stored.write (toStored x)
  read bytes := ofStored (stored.read bytes)
  size_pos := stored.size_pos
  length_write x := stored.length_write (toStored x)
  read_write x := by rw [stored.read_write, h]

def int8 : Layout Int8 := via Int8.toUInt8 UInt8.toInt8 Int8.toInt8_toUInt8 uint8

def int16 : Layout Int16 := via Int16.toUInt16 UInt16.toInt16 Int16.toInt16_toUInt16 uint16

def int32 : Layout Int32 := via Int32.toUInt32 UInt32.toInt32 Int32.toInt32_toUInt32 uint32

def int64 : Layout Int64 := via Int64.toUInt64 UInt64.toInt64 Int64.toInt64_toUInt64 uint64

def bool : Layout Bool := via (fun x => bif x then 1 else 0) (fun b => b != 0) (by decide) uint8

def pair : Layout (T × T) where
  size := layout.size + layout.size
  write x := layout.write x.1 ++ layout.write x.2
  read bytes := (layout.read (bytes.take layout.size), layout.read (bytes.drop layout.size))
  size_pos := Nat.add_pos_left layout.size_pos _
  length_write x := by rw [length_append, layout.length_write, layout.length_write]
  read_write x := by
    have hLength := layout.length_write x.1
    rw [take_left' hLength, drop_left' hLength, layout.read_write, layout.read_write]

end Layout

end TensorFlowOnSpark
