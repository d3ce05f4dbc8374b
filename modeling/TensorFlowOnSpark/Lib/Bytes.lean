import Mathlib.Data.List.Basic
import Mathlib.Tactic.Ring

/-!
# Byte memory

Raw memory is a list of bytes.
-/

namespace TensorFlowOnSpark.Bytes

open List Nat

def encodeLE : Nat → Nat → List UInt8
  | 0, _ => []
  | width + 1, n => UInt8.ofNat n :: encodeLE width (n / 256)

def decodeLE : List UInt8 → Nat
  | [] => 0
  | b :: rest => b.toNat + 256 * decodeLE rest

@[simp] theorem length_encodeLE (width n : Nat) : (encodeLE width n).length = width := by
  induction width generalizing n with
  | zero => rfl
  | succ width ih => simp [encodeLE, ih]

theorem decodeLE_encodeLE {width n : Nat} (h : n < 256 ^ width) :
    decodeLE (encodeLE width n) = n := by
  induction width generalizing n with
  | zero =>
    simp only [pow_zero, lt_one_iff] at h
    simp [encodeLE, decodeLE, h]
  | succ width ih =>
    have hDiv : n / 256 < 256 ^ width := by
      rw [div_lt_iff_lt_mul (by decide)]
      rwa [pow_succ] at h
    simp only [encodeLE, decodeLE, ih hDiv]
    exact mod_add_div n 256

@[simp] theorem ofNat_decodeLE_uint16 (x : UInt16) :
    UInt16.ofNat (decodeLE (encodeLE 2 x.toNat)) = x := by
  rw [decodeLE_encodeLE x.toNat_lt, UInt16.ofNat_toNat]

@[simp] theorem ofNat_decodeLE_uint32 (x : UInt32) :
    UInt32.ofNat (decodeLE (encodeLE 4 x.toNat)) = x := by
  rw [decodeLE_encodeLE x.toNat_lt, UInt32.ofNat_toNat]

@[simp] theorem ofNat_decodeLE_uint64 (x : UInt64) :
    UInt64.ofNat (decodeLE (encodeLE 8 x.toNat)) = x := by
  rw [decodeLE_encodeLE x.toNat_lt, UInt64.ofNat_toNat]

def slice (mem : List UInt8) (start length : Nat) : List UInt8 := (mem.drop start).take length

theorem getElem?_slice (mem : List UInt8) (start length i : Nat) :
    (slice mem start length)[i]? = if i < length then mem[start + i]? else none := by
  simp only [slice, getElem?_take, getElem?_drop]

def writeAt (mem : List UInt8) (start : Nat) (src : List UInt8) : List UInt8 :=
  mem.take start ++ src ++ mem.drop (start + src.length)

variable {mem src out : List UInt8} {start : Nat} {writes : List (Nat × List UInt8)}

section

variable (h : start + src.length ≤ mem.length)

include h

theorem length_writeAt :
    (writeAt mem start src).length = mem.length := by
  simp only [writeAt, length_append, length_take, length_drop]
  omega

theorem getElem?_writeAt (i : Nat) :
    (writeAt mem start src)[i]? =
      if start ≤ i ∧ i < start + src.length then src[i - start]? else mem[i]? := by
  have hTake : (mem.take start).length = start := by
    rw [length_take]
    omega
  rw [writeAt, append_assoc, getElem?_append, hTake]
  split
  · rename_i hi
    rw [getElem?_take, if_pos hi, if_neg (by omega)]
  · rename_i hi
    rw [getElem?_append]
    split
    · rename_i hSrc
      rw [if_pos (by omega)]
    · rename_i hSrc
      rw [getElem?_drop, if_neg (by omega)]
      congr 1
      omega

theorem slice_writeAt_same :
    slice (writeAt mem start src) start src.length = src := by
  apply ext_getElem?
  intro i
  rw [getElem?_slice]
  split
  · rename_i hi
    rw [getElem?_writeAt h, if_pos (by omega)]
    congr 1
    omega
  · rename_i hi
    exact (getElem?_eq_none (by omega)).symm

end

theorem slice_writeAt_within {at' length : Nat} (h : start + src.length ≤ mem.length)
    (hStart : start ≤ at') (hEnd : at' + length ≤ start + src.length) :
    slice (writeAt mem start src) at' length = slice src (at' - start) length := by
  apply ext_getElem?
  intro i
  rw [getElem?_slice, getElem?_slice]
  split
  · rename_i hi
    rw [getElem?_writeAt h, if_pos (by omega)]
    congr 1
    omega
  · rfl

theorem slice_flatMap {α : Type} {f : α → List UInt8} {width : Nat}
    (hWidth : ∀ x, (f x).length = width) (xs : List α) (i : Nat) (h : i < xs.length) :
    slice (xs.flatMap f) (width * i) width = f xs[i] := by
  induction xs generalizing i with
  | nil => cases h
  | cons x xs ih =>
    rw [flatMap_cons]
    cases i with
    | zero =>
      rw [slice, mul_zero, drop_zero, take_append_of_le_length (hWidth x).ge,
        take_of_length_le (hWidth x).le, getElem_cons_zero]
    | succ i =>
      have hSplit : width * (i + 1) = (f x).length + width * i := by
        rw [hWidth, mul_succ, add_comm]
      rw [slice, hSplit, drop_append, drop_of_length_le (by omega), Nat.add_sub_cancel_left]
      exact ih i (by simpa using h)

theorem slice_writeAt_disjoint {at' length : Nat} (h : start + src.length ≤ mem.length)
    (hDisjoint : at' + length ≤ start ∨ start + src.length ≤ at') :
    slice (writeAt mem start src) at' length = slice mem at' length := by
  apply ext_getElem?
  intro i
  rw [getElem?_slice, getElem?_slice]
  split
  · rename_i hi
    rw [getElem?_writeAt h, if_neg (by omega)]
  · rfl

/-- A sequence of `memcpy` calls into one array; `none` as soon as one runs past its end. -/
def writeAll (mem : List UInt8) : List (Nat × List UInt8) → Option (List UInt8)
  | [] => some mem
  | (start, src) :: rest =>
    if start + src.length ≤ mem.length then writeAll (writeAt mem start src) rest else none

theorem writeAll_append {first rest : List (Nat × List UInt8)} :
    writeAll mem (first ++ rest) = some out ↔
      ∃ mid, writeAll mem first = some mid ∧ writeAll mid rest = some out := by
  induction first generalizing mem with
  | nil => simp [writeAll]
  | cons w first ih =>
    simp only [cons_append, writeAll]
    split
    · exact ih
    · simp

theorem length_of_writeAll (h : writeAll mem writes = some out) : out.length = mem.length := by
  induction writes generalizing mem with
  | nil =>
    cases h
    rfl
  | cons w writes ih =>
    rw [writeAll] at h
    split at h
    · rename_i hFits
      rw [ih h, length_writeAt hFits]
    · cases h

theorem writeAll_isSome
    (h : ∀ w ∈ writes, w.1 + w.2.length ≤ mem.length) : ∃ out, writeAll mem writes = some out := by
  induction writes generalizing mem with
  | nil => exact ⟨mem, rfl⟩
  | cons w writes ih =>
    obtain ⟨start, src⟩ := w
    have hFits := h (start, src) mem_cons_self
    rw [writeAll, if_pos hFits]
    apply ih
    intro w hw
    rw [length_writeAt hFits]
    exact h w (mem_cons_of_mem _ hw)

theorem getElem?_writeAll_of_uncovered {i : Nat} (h : writeAll mem writes = some out)
    (hUncovered : ∀ w ∈ writes, i < w.1 ∨ w.1 + w.2.length ≤ i) : out[i]? = mem[i]? := by
  induction writes generalizing mem with
  | nil =>
    cases h
    rfl
  | cons w writes ih =>
    obtain ⟨start, src⟩ := w
    rw [writeAll] at h
    split at h
    · rename_i hFits
      have hHead := hUncovered (start, src) mem_cons_self
      rw [ih h fun w hw => hUncovered w (mem_cons_of_mem _ hw), getElem?_writeAt hFits,
        if_neg (by simp only at hHead; omega)]
    · cases h

variable {w : Nat × List UInt8}

theorem getElem?_writeAll_of_mem (h : writeAll mem writes = some out)
    (hDisjoint : writes.Pairwise fun w w' => w.1 + w.2.length ≤ w'.1 ∨ w'.1 + w'.2.length ≤ w.1)
    (hw : w ∈ writes) {j : Nat} (hj : j < w.2.length) :
    out[w.1 + j]? = w.2[j]? := by
  induction writes generalizing mem with
  | nil => cases hw
  | cons first writes ih =>
    rw [pairwise_cons] at hDisjoint
    obtain ⟨start, src⟩ := first
    rw [writeAll] at h
    split at h
    · rename_i hFits
      rcases mem_cons.mp hw with rfl | hw
      · rw [getElem?_writeAll_of_uncovered h, getElem?_writeAt hFits,
          if_pos (by simp only at hj; omega)]
        · congr 1
          omega
        · intro w' hw'
          have := hDisjoint.1 w' hw'
          omega
      · exact ih h hDisjoint.2 hw
    · cases h

theorem slice_writeAll_of_mem (h : writeAll mem writes = some out)
    (hDisjoint : writes.Pairwise fun w w' => w.1 + w.2.length ≤ w'.1 ∨ w'.1 + w'.2.length ≤ w.1)
    (hw : w ∈ writes) : slice out w.1 w.2.length = w.2 := by
  apply ext_getElem?
  intro i
  rw [getElem?_slice]
  split
  · rename_i hi
    exact getElem?_writeAll_of_mem h hDisjoint hw hi
  · rename_i hi
    exact (getElem?_eq_none (by omega)).symm

end TensorFlowOnSpark.Bytes
