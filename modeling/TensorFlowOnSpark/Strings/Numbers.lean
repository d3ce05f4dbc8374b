import Mathlib.Data.List.Basic
import TensorFlowOnSpark.Lib.Numeral

/-!
# Numbers in strings

What `lib/strings/numbers.cc` writes and reads, and the functions of
`lib/strings/str_util.cc` that take numbers and parts from a string.
-/

namespace TensorFlowOnSpark.Strings

open Numeral List Nat

def digitChar (d : Nat) : Char := Char.ofNat (48 + d)

def isDigit (c : Char) : Bool := '0' ≤ c ∧ c ≤ '9'

def digitValue (c : Char) : Nat := c.toNat - 48

def reversedDigits (i : Nat) : List Char :=
  digitChar (i % 10) :: if 0 < i / 10 then reversedDigits (i / 10) else []

def fastUInt32ToBufferLeft (i : UInt32) : List Char := (reversedDigits i.toNat).reverse

def fastUInt64ToBufferLeft (i : UInt64) : List Char := (reversedDigits i.toNat).reverse

def fastInt32ToBufferLeft (i : Int32) : List Char :=
  let u := i.toUInt32
  if i < 0 then '-' :: fastUInt32ToBufferLeft (0 - u) else fastUInt32ToBufferLeft u

def fastInt64ToBufferLeft (i : Int64) : List Char :=
  let u := i.toUInt64
  if i < 0 then '-' :: fastUInt64ToBufferLeft (0 - u) else fastUInt64ToBufferLeft u

def hexdigits : List Char := "0123456789abcdef".toList

def hexDigit (d : Nat) : Char := hexdigits.getD d '0'

/-- The loop of `Uint64ToHexString`, from the last place of the buffer to the first. -/
def hexLoop : Nat → UInt64 → List Char → List Char
  | 0, _, buf => buf
  | i + 1, v, buf => hexLoop i (v >>> 4) (hexDigit (v &&& 0xf).toNat :: buf)

def uint64ToHexString (v : UInt64) : List Char := hexLoop 16 v []

def hexValue? (c : Char) : Option Nat :=
  if '0' ≤ c ∧ c ≤ '9' then some (c.toNat - 48)
  else if 'a' ≤ c ∧ c ≤ 'f' then some (10 + (c.toNat - 97))
  else if 'A' ≤ c ∧ c ≤ 'F' then some (10 + (c.toNat - 65))
  else none

def hexStringLoop (v : UInt64) : List Char → Option UInt64
  | [] => some v
  | c :: rest =>
    match hexValue? c with
    | some d => hexStringLoop ((v <<< 4) + UInt64.ofNat d) rest
    | none => none

def hexStringToUint64 (s : List Char) : Option UInt64 :=
  if s = [] then none else hexStringLoop 0 s

/-- `isspace` in the C locale. -/
def isSpace (c : Char) : Bool := c ∈ [' ', '\t', '\n', '\x0b', '\x0c', '\r']

def skipSpaces (s : List Char) : List Char := s.dropWhile isSpace

def kint64max : Int := 2 ^ 63 - 1

def kint64min : Int := -2 ^ 63

/-- The loop of `safe_strto64` without a sign. -/
def strto64Positive (result : Int) : List Char → Option (Int × List Char)
  | [] => some (result, [])
  | c :: rest =>
    if isDigit c then
      let digit : Int := digitValue c
      if (kint64max - digit).tdiv 10 < result then none
      else strto64Positive (result * 10 + digit) rest
    else some (result, c :: rest)

def strto64Negative (result : Int) : List Char → Option (Int × List Char)
  | [] => some (result, [])
  | c :: rest =>
    if isDigit c then
      let digit : Int := digitValue c
      if (kint64min + digit).tdiv 10 > result then none
      else strto64Negative (result * 10 - digit) rest
    else some (result, c :: rest)

def safeStrto64 (str : List Char) : Option Int64 :=
  let str := skipSpaces str
  let (negative, str) := match str with
    | '-' :: rest => (true, rest)
    | _ => (false, str)
  if !(str.head?.any isDigit) then none
  else
    match if negative then strto64Negative 0 str else strto64Positive 0 str with
    | none => none
    | some (result, rest) => if skipSpaces rest = [] then some (Int64.ofInt result) else none

/-- The loop of `ConsumeLeadingDigits`, with what is left of the string. -/
def digitsLoop (v : UInt64) : List Char → Option (UInt64 × List Char)
  | [] => some (v, [])
  | c :: rest =>
    if isDigit c then
      let newV := v * 10 + UInt64.ofNat (digitValue c)
      if newV / 8 < v then none else digitsLoop newV rest
    else some (v, c :: rest)

def consumeLeadingDigits (s : List Char) : Option (UInt64 × List Char) :=
  match digitsLoop 0 s with
  | none => none
  | some (v, rest) => if rest.length < s.length then some (v, rest) else none

def consumePrefix (expected : String) (s : List Char) : Option (List Char) :=
  expected.toList.isPrefixOf? s

def split (text : List Char) (delim : Char) : List (List Char) :=
  if text = [] then [] else text.splitOn delim

def join (parts : List (List Char)) (sep : String) : List Char := sep.toList.intercalate parts

variable {d : Nat}

theorem isDigit_digitChar (h : d < 10) : isDigit (digitChar d) := by
  revert d
  decide

theorem digitValue_digitChar (h : d < 10) : digitValue (digitChar d) = d := by
  revert d
  decide

theorem hexValue?_hexDigit (h : d < 16) : hexValue? (hexDigit d) = some d := by
  revert d
  decide

theorem reversedDigits_reverse (i : Nat) : (reversedDigits i).reverse = numeral 10 digitChar i := by
  induction i using Nat.strong_induction_on with
  | _ i ih =>
    rw [reversedDigits, numeral, reverse_cons]
    split
    · rw [ih (i / 10) (by omega), if_pos (by omega)]
    · rw [if_neg (by omega), reverse_nil, nil_append]

theorem fastUInt64ToBufferLeft_eq (i : UInt64) :
    fastUInt64ToBufferLeft i = numeral 10 digitChar i.toNat := reversedDigits_reverse i.toNat

theorem fastInt32ToBufferLeft_eq {i : Int32} (h : 0 ≤ i) :
    fastInt32ToBufferLeft i = numeral 10 digitChar i.toUInt32.toNat := by
  rw [fastInt32ToBufferLeft, if_neg (Int32.not_lt.mpr h)]
  exact reversedDigits_reverse _

theorem hexLoop_eq (width : Nat) (v : UInt64) (buf : List Char) :
    hexLoop width v buf = fixed 16 hexDigit width v.toNat ++ buf := by
  induction width generalizing v buf with
  | zero => rfl
  | succ width ih =>
    have hShift : (v >>> 4).toNat = v.toNat / 16 := by
      exact shiftRight_eq_div_pow _ 4
    have hLow : (v &&& 0xf).toNat = v.toNat % 16 := by
      exact and_two_pow_sub_one_eq_mod v.toNat 4
    rw [hexLoop, ih, hShift, hLow, fixed, append_assoc, singleton_append]

theorem takes_hexStringLoop (limit : Nat) :
    TakesDigits 16 hexDigit limit fun v s => hexStringLoop (UInt64.ofNat v) s := by
  intro v d tail hd _
  have hNext : (UInt64.ofNat v <<< 4) + UInt64.ofNat d = UInt64.ofNat (v * 16 + d) := by
    apply UInt64.toNat_inj.mp
    change ((v % 2 ^ 64) <<< 4 % 2 ^ 64 + d % 2 ^ 64) % 2 ^ 64 = (v * 16 + d) % 2 ^ 64
    omega
  change hexStringLoop (UInt64.ofNat v) (hexDigit d :: tail) = _
  rw [hexStringLoop, hexValue?_hexDigit hd]
  simp only [hNext]

theorem hexStringToUint64_hexString (v : UInt64) :
    hexStringToUint64 (uint64ToHexString v) = some v := by
  have hBits : v.toNat < 16 ^ 16 := v.toNat_lt
  have hRead := read_fixed (by decide) (takes_hexStringLoop v.toNat) hBits (le_refl _) []
  rw [uint64ToHexString, hexLoop_eq, hexStringToUint64, if_neg]
  · rw [UInt64.ofNat_toNat] at hRead
    exact hRead
  · intro hNil
    have hLength := congrArg length hNil
    rw [append_nil, length_fixed] at hLength
    cases hLength

theorem takes_digitsLoop :
    TakesDigits 10 digitChar (2 ^ 64 - 1) fun v s => digitsLoop (UInt64.ofNat v) s := by
  intro v d tail hd hLimit
  have hNext : UInt64.ofNat v * 10 + UInt64.ofNat d = UInt64.ofNat (v * 10 + d) := by
    rw [UInt64.ofNat_add, UInt64.ofNat_mul]
    rfl
  have hNot : ¬UInt64.ofNat (v * 10 + d) / 8 < UInt64.ofNat v := by
    change ¬(v * 10 + d) % 2 ^ 64 / 8 < v % 2 ^ 64
    rw [mod_eq_of_lt (by omega), mod_eq_of_lt (by omega)]
    omega
  change digitsLoop (UInt64.ofNat v) (digitChar d :: tail) = _
  rw [digitsLoop, if_pos (isDigit_digitChar hd), digitValue_digitChar hd]
  simp only [hNext]
  rw [if_neg hNot]

def Stops (rest : List Char) : Prop := rest.head?.any isDigit = false

theorem digitsLoop_stops (v : UInt64) {rest : List Char} (h : Stops rest) :
    digitsLoop v rest = some (v, rest) := by
  cases rest with
  | nil => rfl
  | cons c rest => rw [digitsLoop, if_neg (show ¬isDigit c from ne_true_of_eq_false h)]

theorem consumeLeadingDigits_numeral {n : Nat} (hFits : n < 2 ^ 64) {rest : List Char}
    (h : Stops rest) : consumeLeadingDigits (numeral 10 digitChar n ++ rest) =
      some (UInt64.ofNat n, rest) := by
  have hRead := read_numeral (by decide) takes_digitsLoop (le_sub_one_of_lt hFits) rest
  have hLength := length_pos_of_ne_nil (numeral_ne_nil 10 digitChar n)
  rw [digitsLoop_stops _ h] at hRead
  rw [consumeLeadingDigits, show (0 : UInt64) = UInt64.ofNat 0 from rfl, hRead]
  simp only [length_append]
  rw [if_pos (by omega)]

theorem digitChar_ne (h : d < 10) {c : Char} (hc : isDigit c = false) :
    digitChar d ≠ c := by
  rintro rfl
  exact absurd (isDigit_digitChar h) (ne_true_of_eq_false hc)

theorem toInt_cases (i : Int64) : i.toInt =
    if i < 0 then -((0 - i.toUInt64).toNat : Int) else (i.toUInt64.toNat : Int) := by
  have hBits : i.toInt = if 2 * i.toUInt64.toNat < 2 ^ 64 then (i.toUInt64.toNat : Int)
      else (i.toUInt64.toNat : Int) - (2 ^ 64 : Nat) := BitVec.toInt_eq_toNat_cond _
  have hFits := i.toUInt64.toNat_lt
  have hZero : (0 - i.toUInt64).toNat = (2 ^ 64 - i.toUInt64.toNat) % 2 ^ 64 := by
    change (2 ^ 64 - i.toUInt64.toNat + 0) % 2 ^ 64 = _
    rw [add_zero]
  have hSign : i < 0 ↔ i.toInt < 0 := Int64.lt_iff_toInt_lt
  rw [hZero]
  by_cases hSmall : 2 * i.toUInt64.toNat < 2 ^ 64
  · rw [if_pos hSmall] at hBits
    rw [if_neg (hSign.not.mpr (by omega)), hBits]
  · rw [if_pos (hSign.mpr (by omega))]
    omega

end TensorFlowOnSpark.Strings
