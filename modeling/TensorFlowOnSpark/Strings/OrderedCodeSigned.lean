import Mathlib.Tactic.IntervalCases
import TensorFlowOnSpark.Strings.OrderedCode

/-!
# Signed numbers as ordered codes

A number that is written in `length` bytes has `length` header bits, which are ones when
it is not negative and zeros when it is, then a bit that ends them, and its low bits.
-/

namespace TensorFlowOnSpark.Strings.OrderedCode

open OrderPreserving BigEndian List Nat

/-- What `WriteSignedNumIncreasing` writes as a number of bytes, `m` being the number, or its
complement when it is negative. -/
def signedNumber (negative : Bool) (length m : Nat) : Nat :=
  if negative then 2 ^ (7 * length) - 1 - m else 2 ^ (7 * length) * (2 ^ length - 1) + m

structure LengthOf (length m : Nat) : Prop where
  pos : 1 ≤ length
  le : length ≤ 10
  fits : m < 2 ^ (7 * length - 1)
  least : 1 < length → 2 ^ (7 * (length - 1) - 1) ≤ m

theorem kBitsToLength_spec : ∀ bits < 64, 1 ≤ kBitsToLength.getD bits 0 ∧
    kBitsToLength.getD bits 0 ≤ 10 ∧ bits ≤ 7 * kBitsToLength.getD bits 0 - 1 ∧
      (1 < kBitsToLength.getD bits 0 → 7 * (kBitsToLength.getD bits 0 - 1) ≤ bits) := by
  decide

theorem signedEncodingLength_spec {x : BitVec 64} (h : x.toNat < 2 ^ 63) :
    LengthOf (signedEncodingLength x) x.toNat := by
  have hSign : x.slt 0 = false := by
    rw [BitVec.slt, BitVec.toInt_eq_toNat_of_lt (by omega)]
    simp
  rw [signedEncodingLength, hSign, if_neg Bool.false_ne_true, log2Floor64]
  split
  · rename_i hZero
    subst hZero
    exact ⟨by decide, by decide, by decide, by decide⟩
  · rename_i hNonzero
    have hNe : x.toNat ≠ 0 := fun hx => hNonzero (BitVec.eq_of_toNat_eq hx)
    have hLog : x.toNat.log2 < 63 := (log2_lt hNe).mpr h
    obtain ⟨hPos, hLe, hFits, hLeast⟩ := kBitsToLength_spec (x.toNat.log2 + 1) (by omega)
    have hIndex : ((x.toNat.log2 : Int) + 1).toNat = x.toNat.log2 + 1 := by omega
    rw [hIndex]
    refine ⟨hPos, hLe, ?_, fun hMore => ?_⟩
    · exact lt_log2_self.trans_le (Nat.pow_le_pow_right (by decide) hFits)
    · refine (Nat.pow_le_pow_right (by decide) ?_).trans (log2_self_le hNe)
      omega

theorem storeBigEndian64_eq (v : BitVec 64) : storeBigEndian64 v = bigEndian 8 v.toNat := by
  have hByte : ∀ k, lowByte ((v >>> k) &&& 0xff) = UInt8.ofNat (v.toNat / 2 ^ k) := by
    intro k
    apply UInt8.toNat_inj.mp
    have hAnd : ((v >>> k) &&& 0xff).toNat = (v >>> k).toNat % 256 :=
      (BitVec.toNat_and _ 0xff).trans (and_two_pow_sub_one_eq_mod _ 8)
    rw [lowByte, hAnd, BitVec.toNat_ushiftRight, shiftRight_eq_div_pow]
    exact mod_mod _ _
  rw [storeBigEndian64]
  simp only [hByte]
  rfl

def headerBits (length : Nat) : Nat := 2 ^ (7 * length) * (2 ^ length - 1)

theorem bigEndian_headerBits : ∀ length ≤ 10, 2 ≤ length →
    bigEndian length (headerBits length) =
      (kLengthToHeaderBits.getD length (0, 0)).1 :: (kLengthToHeaderBits.getD length (0, 0)).2 ::
        replicate (length - 2) 0 := by
  decide +kernel

theorem zipWith_xor_zero (bytes : List UInt8) :
    zipWith (· ^^^ ·) bytes (replicate bytes.length 0) = bytes := by
  induction bytes with
  | nil => rfl
  | cons b bytes ih =>
    rw [length_cons, replicate_succ, zipWith_cons_cons, ih, UInt8.xor_zero]

variable {length m : Nat} {negative : Bool}

theorem xorHeader_eq (h : 2 ≤ length) (hLe : length ≤ 10) (n : Nat) :
    xorHeader (kLengthToHeaderBits.getD length (0, 0)) (bigEndian length n) =
      bigEndian length (n ^^^ headerBits length) := by
  rw [bigEndian_xor, bigEndian_headerBits length hLe h]
  obtain ⟨more, rfl⟩ := Nat.exists_eq_add_of_le' h
  rw [bigEndian, bigEndian, xorHeader]
  congr 2
  have hZero := zipWith_xor_zero (bigEndian more n)
  rw [length_bigEndian] at hZero
  exact hZero.symm

structure SignOf (val : BitVec 64) (negative : Bool) (m : Nat) : Prop where
  slt : val.slt 0 = negative
  fits : m < 2 ^ 63
  toInt : val.toInt = if negative then -1 - (m : Int) else m
  toNat : val.toNat = if negative then 2 ^ 64 - 1 - m else m
  complement : (if negative then ~~~val else val).toNat = m

theorem signOf (val : BitVec 64) : ∃ negative m, SignOf val negative m := by
  have hInt := BitVec.toInt_eq_toNat_cond val
  rcases lt_or_ge val.toNat (2 ^ 63) with hPos | hNeg
  · rw [if_pos (by omega)] at hInt
    refine ⟨false, val.toNat, ?_, hPos, hInt, rfl, rfl⟩
    rw [BitVec.slt, hInt]
    simp
  · refine ⟨true, 2 ^ 64 - 1 - val.toNat, ?_, by omega, ?_, ?_, ?_⟩
    · rw [BitVec.slt, decide_eq_true_eq]
      simp only [BitVec.toInt_zero, BitVec.ofNat_eq_ofNat]
      omega
    · rw [if_pos rfl]
      omega
    · rw [if_pos rfl]
      omega
    · rw [if_pos rfl, BitVec.toNat_not]

def extended (negative : Bool) (length m : Nat) : Nat :=
  if negative then 2 ^ (8 * length) - 1 - m else m

section

variable (h : LengthOf length m)

include h

theorem LengthOf.lt :
    m < 2 ^ (7 * length) ∧ 2 ^ (8 * length) = 2 ^ (7 * length) * 2 ^ length := by
  refine ⟨h.fits.trans_le (Nat.pow_le_pow_right (by decide) (by omega)), ?_⟩
  rw [← pow_add]
  congr 1
  omega

theorem extended_split :
    extended negative length m = 2 ^ (7 * length) * (if negative then 2 ^ length - 1 else 0) +
      if negative then 2 ^ (7 * length) - 1 - m else m := by
  obtain ⟨hLt, hPow⟩ := h.lt
  have hOne : 0 < 2 ^ length := Nat.two_pow_pos length
  cases negative with
  | false => simp [extended]
  | true =>
    simp only [extended, if_true, Nat.mul_sub]
    have hLe : 2 ^ (7 * length) ≤ 2 ^ (7 * length) * 2 ^ length := Nat.le_mul_of_pos_right _ hOne
    omega

theorem extended_xor :
    extended negative length m ^^^ headerBits length = signedNumber negative length m := by
  have hLt := h.lt.1
  rw [extended_split h, headerBits, xor_high _ _ _ _ (by cases negative <;> simp <;> omega)]
  cases negative with
  | false => simp [signedNumber]
  | true => simp [signedNumber]

theorem extended_mod :
    extended negative 10 m % 256 ^ length = extended negative length m := by
  obtain ⟨hLt, hPow⟩ := h.lt
  have h256 : 256 ^ length = 2 ^ (8 * length) := by rw [Nat.pow_mul]
  have hLe : 2 ^ (7 * length) ≤ 2 ^ (8 * length) := Nat.pow_le_pow_right (by decide) (by omega)
  rw [h256]
  cases negative with
  | false => exact mod_eq_of_lt (hLt.trans_le hLe)
  | true =>
    have hAll : 2 ^ (8 * 10) = 2 ^ (8 * length) * 2 ^ (80 - 8 * length) := by
      rw [← pow_add]
      congr 1
      have := h.le
      omega
    have hOne : 0 < 2 ^ (80 - 8 * length) := Nat.two_pow_pos _
    have hSplit : 2 ^ (8 * 10) - 1 - m =
        2 ^ (8 * length) * (2 ^ (80 - 8 * length) - 1) + (2 ^ (8 * length) - 1 - m) := by
      rw [Nat.mul_sub]
      have := Nat.le_mul_of_pos_right (2 ^ (8 * length)) hOne
      omega
    rw [extended, extended, if_pos rfl, if_pos rfl, hSplit, mul_add_mod, mod_eq_of_lt]
    omega

end

theorem signBytes_eq {val : BitVec 64} (h : SignOf val negative m) :
    (if negative then 0xff else 0) :: (if negative then 0xff else 0) :: storeBigEndian64 val =
      bigEndian 10 (extended negative 10 m) := by
  have hFits := h.fits
  have hLow : extended negative 10 m % 256 ^ 8 = val.toNat := by
    rw [h.toNat]
    cases negative with
    | false =>
      refine mod_eq_of_lt ?_
      change m < _
      omega
    | true =>
      simp only [extended, if_true]
      omega
  have hHigh : extended negative 10 m / 256 ^ 8 = if negative then 65535 else 0 := by
    cases negative with
    | false =>
      refine div_eq_of_lt ?_
      change m < _
      omega
    | true =>
      simp only [extended, if_true]
      omega
  rw [bigEndian_add 2 8, hHigh, ← bigEndian_mod 8 _ le_rfl, hLow, storeBigEndian64_eq]
  cases negative <;> rfl

/-- What `WriteSignedNumIncreasing` writes. -/
theorem writeSignedNumIncreasing_eq {val : BitVec 64} (h : SignOf val negative m) :
    ∃ length, LengthOf length m ∧ ∀ dest, writeSignedNumIncreasing dest val =
      dest ++ bigEndian length (signedNumber negative length m) := by
  have hNumber := h.complement
  have hFits := h.fits
  have hLength := signedEncodingLength_spec (x := if negative then ~~~val else val) (by omega)
  rw [hNumber] at hLength
  generalize hx : (if negative then ~~~val else val) = x at *
  refine ⟨signedEncodingLength x, hLength, fun dest => ?_⟩
  rw [writeSignedNumIncreasing, h.slt]
  simp only [hx]
  have hTwo : 2 ≤ signedEncodingLength x ∨ signedEncodingLength x = 1 ∧ m < 64 := by
    rcases hLength.pos.lt_or_eq with hMore | hOne
    · exact .inl hMore
    · have hOneFits := hLength.fits
      rw [← hOne] at hOneFits
      exact .inr ⟨hOne.symm, hOneFits⟩
  have hSmall : x < 64 ↔ m < 64 := by
    rw [BitVec.lt_def, hNumber]
    rfl
  split
  · rename_i hLess
    have hOne : signedEncodingLength x = 1 := by
      refine (hTwo.resolve_left fun hMore => ?_).1
      have hLeast := hLength.least hMore
      have hPow : 2 ^ 6 ≤ 2 ^ (7 * (signedEncodingLength x - 1) - 1) :=
        Nat.pow_le_pow_right (by decide) (by omega)
      have hm := hSmall.mp hLess
      omega
    have hByte : lowByte val = UInt8.ofNat (extended negative 1 m) := by
      have hVal := h.toNat
      apply UInt8.toNat_inj.mp
      rw [lowByte, UInt8.toNat_ofNat', UInt8.toNat_ofNat', hVal, extended]
      cases negative with
      | false => rfl
      | true =>
        simp only [if_true]
        omega
    rw [hOne] at hLength ⊢
    rw [← extended_xor hLength, bigEndian, pow_zero, Nat.div_one, UInt8.ofNat_xor, ← hByte,
      UInt8.xor_comm]
    rfl
  · rename_i hLarge
    have hMore : 2 ≤ signedEncodingLength x :=
      hTwo.resolve_right fun hOne => hLarge (hSmall.mpr hOne.2)
    rw [signBytes_eq h, length_bigEndian, drop_bigEndian hLength.le,
      ← bigEndian_mod (signedEncodingLength x) (extended negative 10 m) le_rfl,
      extended_mod hLength, xorHeader_eq hMore hLength.le, extended_xor hLength]

section Order

variable {negative : Bool} {length length' m m' : Nat}

theorem pow_256 (n : Nat) : 256 ^ n = 2 ^ (8 * n) := by
  rw [Nat.pow_mul]

theorem LengthOf.mono (h : LengthOf length m) (h' : LengthOf length' m') (hLe : m ≤ m') :
    length ≤ length' := by
  by_contra hMore
  have hPow : 2 ^ (7 * length' - 1) ≤ 2 ^ (7 * (length - 1) - 1) :=
    Nat.pow_le_pow_right (by decide) (by omega)
  have hPos := h'.pos
  have hLeast := h.least (by omega)
  have hFits := h'.fits
  omega

theorem signedNumber_pos (h : LengthOf length m) :
    2 ^ (8 * length) - 2 ^ (7 * length) ≤ signedNumber false length m ∧
      signedNumber false length m + 1 ≤ 2 ^ (8 * length) - 2 ^ (7 * length - 1) := by
  obtain ⟨hLt, hPow⟩ := h.lt
  have hHalf : 2 ^ (7 * length) = 2 * 2 ^ (7 * length - 1) := by
    rw [← pow_succ']
    congr 1
    have := h.pos
    omega
  have hFits := h.fits
  have hOne : 2 ^ (7 * length) * 1 ≤ 2 ^ (7 * length) * 2 ^ length :=
    mul_le_mul_left _ (Nat.two_pow_pos length)
  rw [signedNumber, if_neg Bool.false_ne_true, Nat.mul_sub]
  omega

theorem signedNumber_neg (h : LengthOf length m) :
    2 ^ (7 * length - 1) ≤ signedNumber true length m ∧
      signedNumber true length m < 2 ^ (7 * length) := by
  have hHalf : 2 ^ (7 * length) = 2 * 2 ^ (7 * length - 1) := by
    rw [← pow_succ']
    congr 1
    have := h.pos
    omega
  have hFits := h.fits
  rw [signedNumber, if_pos rfl]
  omega

variable (negative) in
section

variable (h : LengthOf length m)
include h

theorem signedNumber_fits : signedNumber negative length m < 256 ^ length := by
  rw [pow_256]
  cases negative with
  | false =>
    have hNumber := (signedNumber_pos h).2
    have hHalf := Nat.two_pow_pos (7 * length - 1)
    omega
  | true =>
    exact (signedNumber_neg h).2.trans_le (Nat.pow_le_pow_right (by decide) (by omega))

theorem first_byte_negative : signedNumber true length m / 256 ^ (length - 1) < 128 := by
  rw [pow_256, div_lt_iff_lt_mul (Nat.two_pow_pos _)]
  refine (signedNumber_neg h).2.trans_le ?_
  have hPow : 128 * 2 ^ (8 * (length - 1)) = 2 ^ (7 + 8 * (length - 1)) := by
    rw [Nat.pow_add]
  rw [hPow]
  exact Nat.pow_le_pow_right (by decide) (by omega)

theorem first_byte_nonneg : 128 ≤ signedNumber false length m / 256 ^ (length - 1) := by
  have hPos := h.pos
  rw [pow_256, le_div_iff_mul_le (Nat.two_pow_pos _)]
  refine le_trans ?_ (signedNumber_pos h).1
  have hPow : 128 * 2 ^ (8 * (length - 1)) = 2 ^ (7 + 8 * (length - 1)) := by
    rw [Nat.pow_add]
  have hLe : 2 ^ (7 * length) ≤ 2 ^ (7 + 8 * (length - 1)) :=
    Nat.pow_le_pow_right (by decide) (by omega)
  have hDouble : 2 ^ (8 * length) = 2 * 2 ^ (7 + 8 * (length - 1)) := by
    rw [← pow_succ']
    congr 1
    omega
  omega

theorem below_signs (h' : LengthOf length' m') :
    Below (bigEndian length (signedNumber true length m))
      (bigEndian length' (signedNumber false length' m')) := by
  refine bigEndian_below h.pos h'.pos (signedNumber_fits _ h') ?_
  exact (first_byte_negative h).trans_le (first_byte_nonneg h')

theorem below_nonneg (h' : LengthOf length' m') (hLess : m < m') :
    Below (bigEndian length (signedNumber false length m))
      (bigEndian length' (signedNumber false length' m')) := by
  rcases (h.mono h' hLess.le).lt_or_eq with hShorter | rfl
  · refine bigEndian_below le_rfl hShorter.le (signedNumber_fits _ h') ?_
    have hNumber := (signedNumber_pos h).2
    rw [Nat.sub_self, pow_zero, Nat.div_one, ← add_one_le_iff, pow_256,
      le_div_iff_mul_le (Nat.two_pow_pos _)]
    calc (signedNumber false length m + 1) * 2 ^ (8 * (length' - length))
        ≤ (2 ^ (8 * length) - 2 ^ (7 * length - 1)) * 2 ^ (8 * (length' - length)) :=
          mul_le_mul_right _ hNumber
      _ = 2 ^ (8 * length') - 2 ^ (7 * length - 1 + 8 * (length' - length)) := by
          rw [Nat.sub_mul, ← pow_add, ← pow_add]
          congr 2
          omega
      _ ≤ 2 ^ (8 * length') - 2 ^ (7 * length') :=
          Nat.sub_le_sub_left (Nat.pow_le_pow_right (by decide) (by omega)) _
      _ ≤ signedNumber false length' m' := (signedNumber_pos h').1
  · refine bigEndian_below_same ?_ (signedNumber_fits _ h')
    rw [signedNumber, signedNumber, if_neg Bool.false_ne_true, if_neg Bool.false_ne_true]
    omega

theorem below_negative (h' : LengthOf length' m') (hLess : m' < m) :
    Below (bigEndian length (signedNumber true length m))
      (bigEndian length' (signedNumber true length' m')) := by
  rcases (h'.mono h hLess.le).lt_or_eq with hShorter | rfl
  · refine bigEndian_below hShorter.le le_rfl (signedNumber_fits _ h') ?_
    rw [Nat.sub_self, pow_zero, Nat.div_one, pow_256, div_lt_iff_lt_mul (Nat.two_pow_pos _)]
    calc signedNumber true length m < 2 ^ (7 * length) := (signedNumber_neg h).2
      _ ≤ 2 ^ (7 * length' - 1 + 8 * (length - length')) :=
          Nat.pow_le_pow_right (by decide) (by omega)
      _ = 2 ^ (7 * length' - 1) * 2 ^ (8 * (length - length')) := pow_add _ _ _
      _ ≤ signedNumber true length' m' * 2 ^ (8 * (length - length')) :=
          mul_le_mul_right _ (signedNumber_neg h').1
  · refine bigEndian_below_same ?_ (signedNumber_fits _ h')
    have hLt := h.lt.1
    rw [signedNumber, signedNumber, if_pos rfl, if_pos rfl]
    omega

end

def encodedSigned (val : BitVec 64) : List UInt8 := writeSignedNumIncreasing [] val

theorem encodedSigned_below {x y : BitVec 64} (h : x.toInt < y.toInt) :
    Below (encodedSigned x) (encodedSigned y) := by
  obtain ⟨negative, m, hx⟩ := signOf x
  obtain ⟨negative', m', hy⟩ := signOf y
  obtain ⟨length, hLength, hEq⟩ := writeSignedNumIncreasing_eq hx
  obtain ⟨length', hLength', hEq'⟩ := writeSignedNumIncreasing_eq hy
  rw [encodedSigned, encodedSigned, hEq, hEq']
  rw [hx.toInt, hy.toInt] at h
  cases negative with
  | false =>
    cases negative' with
    | false => exact below_nonneg hLength hLength' (by simpa using h)
    | true =>
      simp only [Bool.false_eq_true, if_false, if_true] at h
      omega
  | true =>
    cases negative' with
    | false => exact below_signs hLength hLength'
    | true =>
      simp only [if_true] at h
      exact below_negative hLength hLength' (by omega)

end Order

section Reading

variable {negative : Bool} {length m : Nat}

def maskOf (negative : Bool) : UInt8 := if negative then 0xff else 0

theorem signedNumber_complement (h : LengthOf length m) :
    256 ^ length - 1 - signedNumber true length m = signedNumber false length m := by
  obtain ⟨hLt, hPow⟩ := h.lt
  have hOne : 2 ^ (7 * length) * 1 ≤ 2 ^ (7 * length) * 2 ^ length :=
    mul_le_mul_left _ (Nat.two_pow_pos length)
  rw [pow_256, signedNumber, signedNumber, if_pos rfl, if_neg Bool.false_ne_true, Nat.mul_sub]
  omega

variable (negative) in
theorem masked_bytes (h : LengthOf length m) :
    (bigEndian length (signedNumber negative length m)).map (· ^^^ maskOf negative) =
      bigEndian length (signedNumber false length m) := by
  cases negative with
  | false => simp [maskOf]
  | true =>
    rw [← signedNumber_complement h, bigEndian_complement (signedNumber_fits _ h)]
    exact map_congr_left fun b _ => UInt8.xor_neg_one

theorem getD_masked {bytes rest masked : List UInt8} {mask : UInt8} {i : Nat}
    (h : bytes.map (· ^^^ mask) = masked) (hi : i < masked.length) :
    (bytes ++ rest).getD i 0 ^^^ mask = masked.getD i 0 := by
  subst h
  rw [length_map] at hi
  rw [getD_append _ _ _ _ hi, getD_eq_getElem _ _ hi,
    getD_eq_getElem _ _ (by rw [length_map]; exact hi), getElem_map]

theorem getD_bigEndian {length i : Nat} (h : i < length) (n : Nat) :
    ((bigEndian length n).getD i 0).toNat = n / 256 ^ (length - 1 - i) % 256 := by
  induction length generalizing i with
  | zero => omega
  | succ length ih =>
    rw [bigEndian]
    cases i with
    | zero =>
      rw [getD_cons_zero, UInt8.toNat_ofNat', Nat.add_sub_cancel, Nat.sub_zero]
    | succ i =>
      rw [getD_cons_succ, ih (by omega)]
      congr 3
      omega

theorem first_byte_short (h : LengthOf length m) (hShort : length ≤ 7) :
    signedNumber false length m / 256 ^ (length - 1) < 255 ∧
      2 ^ (7 - length) ≤ 255 - signedNumber false length m / 256 ^ (length - 1) ∧
      255 - signedNumber false length m / 256 ^ (length - 1) < 2 ^ (7 - length + 1) := by
  have hFits := h.fits
  interval_cases length
  all_goals
    simp only [signedNumber, Bool.false_eq_true, if_false] at *
    omega

theorem first_byte_long (h : LengthOf length m) (hLong : 8 ≤ length) :
    signedNumber false length m / 256 ^ (length - 1) % 256 = 255 := by
  have hLe := h.le
  have hFits := h.fits
  interval_cases length
  all_goals
    simp only [signedNumber, Bool.false_eq_true, if_false] at *
    omega

theorem second_byte (h : LengthOf length m) (hSigned : m < 2 ^ 63) (hLong : 8 ≤ length) :
    length = 8 ∧ signedNumber false length m / 256 ^ (length - 1 - 1) % 256 < 128 ∨
      length = 9 ∧ 128 ≤ signedNumber false length m / 256 ^ (length - 1 - 1) % 256 ∧
        signedNumber false length m / 256 ^ (length - 1 - 1) % 256 < 192 ∨
      length = 10 ∧ signedNumber false length m / 256 ^ (length - 1 - 1) % 256 = 192 ∧
        signedNumber false length m / 256 ^ (length - 1 - 2) % 256 < 128 := by
  have hLe := h.le
  have hFits := h.fits
  interval_cases length
  all_goals
    simp only [signedNumber, Bool.false_eq_true, if_false, true_and] at *
    omega

theorem log2Floor64_eq {n k : Nat} (hLe : 2 ^ k ≤ n) (hLt : n < 2 ^ (k + 1)) (hFits : n < 2 ^ 64) :
    log2Floor64 (BitVec.ofNat 64 n) = k := by
  have hPos : n ≠ 0 := by
    omega
  have hNat : (BitVec.ofNat 64 n).toNat = n := by
    rw [BitVec.toNat_ofNat, mod_eq_of_lt hFits]
  have hNe : BitVec.ofNat 64 n ≠ 0 := by
    intro hZero
    rw [hZero] at hNat
    exact hPos hNat.symm
  rw [log2Floor64, if_neg hNe, hNat, (log2_eq_iff hPos).mpr ⟨hLe, hLt⟩]

variable (negative) in
/-- The length is found from the first bytes. -/
theorem signedLength_eq (h : LengthOf length m) (hFits : m < 2 ^ 63) (rest : List UInt8) :
    signedLength (maskOf negative)
      (bigEndian length (signedNumber negative length m) ++ rest) = some length := by
  have hMasked := masked_bytes negative h
  have hByte : ∀ i < length,
      ((bigEndian length (signedNumber negative length m) ++ rest).getD i 0 ^^^
        maskOf negative).toNat = signedNumber false length m / 256 ^ (length - 1 - i) % 256 := by
    intro i hi
    rw [getD_masked hMasked (by rw [length_bigEndian]; exact hi), getD_bigEndian hi]
  have hLong : length ≤ (bigEndian length (signedNumber negative length m) ++ rest).length := by
    rw [length_append, length_bigEndian]
    exact Nat.le_add_right _ _
  generalize bigEndian length (signedNumber negative length m) ++ rest = src at *
  have hFirst := hByte 0 h.pos
  rw [Nat.sub_zero] at hFirst
  generalize hb : src.getD 0 0 ^^^ maskOf negative = firstByte at *
  rcases Nat.lt_or_ge 7 length with hMore | hShort
  · rw [first_byte_long h hMore] at hFirst
    have hAll : firstByte = 0xff := UInt8.toNat_inj.mp hFirst
    have hSecond := hByte 1 (by omega)
    have hThird := hByte 2 (by omega)
    rw [signedLength, hb]
    simp only [hAll, ne_eq, not_true_eq_false, if_false]
    generalize src.getD 1 0 ^^^ maskOf negative = secondByte at *
    generalize src.getD 2 0 ^^^ maskOf negative = thirdByte at *
    rw [if_neg (by omega)]
    simp only [UInt8.le_iff_toNat_le, UInt8.lt_iff_toNat_lt, ← UInt8.toNat_inj, hSecond, hThird,
      UInt8.reduceToNat]
    rcases second_byte h hFits hMore with ⟨rfl, hLow⟩ | ⟨rfl, hGe, hLt⟩ | ⟨rfl, hEq, hLt⟩
    · rw [if_neg (by omega)]
    · rw [if_pos hGe, if_pos hLt, if_neg (by omega)]
    · rw [if_pos (by omega), if_neg (by omega), if_pos ⟨hEq, hLt⟩, if_neg (by omega)]
  · obtain ⟨hLess, hGe, hLt⟩ := first_byte_short h hShort
    rw [mod_eq_of_lt (by omega)] at hFirst
    have hNot : firstByte ≠ 0xff := by
      intro hAll
      rw [hAll] at hFirst
      simp only [UInt8.reduceToNat] at hFirst
      omega
    have hComplement : (firstByte ^^^ 0xff).toNat =
        255 - signedNumber false length m / 256 ^ (length - 1) := by
      have hXor : firstByte ^^^ 0xff = ~~~firstByte := UInt8.xor_neg_one
      rw [hXor, UInt8.toNat_not, hFirst]
      rfl
    rw [signedLength, hb]
    simp only [ne_eq, hNot, not_false_eq_true, if_true]
    rw [hComplement, log2Floor64_eq hGe hLt (by omega)]
    have hLength : ((7 : Int) - ((7 - length : Nat) : Int)).toNat = length := by omega
    rw [hLength, if_neg (by omega)]

theorem pred_mul (q w : Nat) (hq : 0 < q) (hw : 0 < w) : q * (w - 1) + (q - 1) = q * w - 1 := by
  have hLe : q * 1 ≤ q * w := mul_le_mul_left _ hw
  rw [Nat.mul_sub]
  omega

theorem complement_mod (n w m : Nat) (hn : 0 < n) (h : m < w) :
    (n * w - 1 - m) % w = w - 1 - m := by
  have hSplit : n * w - 1 - m = w * (n - 1) + (w - 1 - m) := by
    have hLe : w * 1 ≤ w * n := mul_le_mul_left _ hn
    rw [Nat.mul_sub, mul_comm n]
    omega
  rw [hSplit, mul_add_mod, mod_eq_of_lt (by omega)]

theorem unmask (h : LengthOf length m) :
    (256 ^ length * (if negative then 2 ^ 64 - 1 else 0) + signedNumber negative length m) ^^^
        headerBits length =
      if negative then 2 ^ (8 * length + 64) - 1 - m else m := by
  obtain ⟨hLt, hPow⟩ := h.lt
  have hOne : 0 < 2 ^ length := Nat.two_pow_pos length
  cases negative with
  | false =>
    rw [← extended_xor h, Nat.xor_comm]
    simp [extended, Nat.xor_comm m]
  | true =>
    have hSplit : 256 ^ length * (2 ^ 64 - 1) + signedNumber true length m =
        2 ^ (7 * length) * (2 ^ length * (2 ^ 64 - 1)) + (2 ^ (7 * length) - 1 - m) := by
      rw [pow_256, hPow, mul_assoc, signedNumber, if_pos rfl]
    have hXor : (2 ^ length * (2 ^ 64 - 1)) ^^^ (2 ^ length - 1) = 2 ^ length * 2 ^ 64 - 1 := by
      have hHigh := xor_high length 0 (2 ^ length - 1) (2 ^ 64 - 1) (by omega)
      rw [mul_zero, zero_add, zero_xor] at hHigh
      rw [Nat.xor_comm, hHigh]
      exact pred_mul _ _ hOne (by decide)
    have hAll : 2 ^ (8 * length + 64) = 2 ^ (7 * length) * (2 ^ length * 2 ^ 64) := by
      rw [pow_add, hPow, mul_assoc]
    have hMore : 0 < 2 ^ length * 2 ^ 64 := mul_pos hOne (by decide)
    have hPred := pred_mul (2 ^ (7 * length)) _ (Nat.two_pow_pos _) hMore
    simp only [if_true]
    rw [hSplit, headerBits, xor_high _ _ _ _ (by omega), hXor, hAll, ← hPred, Nat.add_sub_assoc]
    omega

theorem kLengthToMask_eq : ∀ length ≤ 10, 1 ≤ length →
    (kLengthToMask.getD length 0).toNat = headerBits length % 2 ^ 64 := by
  decide +kernel

theorem loadBigEndian64_eq (number : Nat) (rest : List UInt8) :
    loadBigEndian64 (bigEndian 8 number ++ rest) = (bigEndian 8 number).foldl shiftIn 0 := by
  obtain ⟨b₀, b₁, b₂, b₃, b₄, b₅, b₆, b₇, hBytes⟩ :
      ∃ b₀ b₁ b₂ b₃ b₄ b₅ b₆ b₇, bigEndian 8 number = [b₀, b₁, b₂, b₃, b₄, b₅, b₆, b₇] :=
    ⟨_, _, _, _, _, _, _, _, rfl⟩
  rw [hBytes, loadBigEndian64]
  simp only [range, range.loop, foldl_cons, cons_append, getD_cons_zero, getD_cons_succ,
    shiftIn, BitVec.shiftLeft_or_distrib]
  simp

variable (negative) in
theorem readSigned_number (h : LengthOf length m) (rest : List UInt8) :
    (if (bigEndian length (signedNumber negative length m) ++ rest).getD 0 0 ^^^ maskOf negative ≠
        0xff then
        ((bigEndian length (signedNumber negative length m) ++ rest).take length).foldl shiftIn
          (if negative then BitVec.allOnes 64 else 0)
      else
        loadBigEndian64 ((bigEndian length (signedNumber negative length m) ++ rest).drop
          (length - 8))).toNat =
      (256 ^ length * (if negative then 2 ^ 64 - 1 else 0) + signedNumber negative length m) %
        2 ^ 64 := by
  have hFits := signedNumber_fits negative h
  have hPositive : 0 < (bigEndian length (signedNumber false length m)).length := by
    rw [length_bigEndian]
    exact h.pos
  have hFirst := @getD_masked _ rest _ _ 0 (masked_bytes negative h) hPositive
  have hByte := getD_bigEndian h.pos (signedNumber false length m)
  rw [Nat.sub_zero, ← hFirst] at hByte
  split
  · rw [take_left' (length_bigEndian _ _), foldl_shiftIn_toNat, foldl_bigEndian, mod_eq_of_lt hFits]
    cases negative with
    | false => rfl
    | true => rfl
  · rename_i hLong
    rw [ne_eq, not_not] at hLong
    rw [hLong] at hByte
    have hEight : 8 ≤ length := by
      by_contra hShort
      have hLess := (first_byte_short h (by omega)).1
      rw [mod_eq_of_lt (by omega)] at hByte
      exact hLess.ne hByte.symm
    obtain ⟨more, rfl⟩ := Nat.exists_eq_add_of_le' hEight
    rw [Nat.add_sub_cancel, bigEndian_add, append_assoc, drop_left' (length_bigEndian _ _),
      loadBigEndian64_eq, foldl_shiftIn_toNat, foldl_bigEndian, Nat.pow_add]
    simp only [BitVec.toNat_zero, BitVec.ofNat_eq_ofNat, Nat.mul_zero, Nat.zero_add]
    have hPow : (256 : Nat) ^ 8 = 2 ^ 64 := by decide
    rw [hPow, mod_mod, Nat.mul_comm (256 ^ more), Nat.mul_assoc, mul_add_mod]

theorem sign_bit (b : UInt8) : b &&& 0x80 = 0 ↔ b.toNat < 128 := by
  have hAll : ∀ i < 256, (UInt8.ofNat i &&& 0x80 = 0 ↔ i < 128) := by decide +kernel
  have hByte := hAll b.toNat b.toNat_lt
  rw [UInt8.ofNat_toNat] at hByte
  exact hByte

variable (negative) in
theorem sign_bit_iff (h : LengthOf length m) (rest : List UInt8) :
    (bigEndian length (signedNumber negative length m) ++ rest).getD 0 0 &&& 0x80 = 0 ↔
      negative = true := by
  have hFits := signedNumber_fits negative h
  have hByte := getD_bigEndian h.pos (signedNumber negative length m)
  have hLess : signedNumber negative length m / 256 ^ (length - 1) < 256 := by
    have hPow : 256 ^ length = 256 * 256 ^ (length - 1) := by
      rw [← Nat.pow_succ', succ_eq_add_one, Nat.sub_add_cancel h.pos]
    rw [Nat.div_lt_iff_lt_mul (Nat.pow_pos (by decide)), ← hPow]
    exact hFits
  rw [Nat.sub_zero, mod_eq_of_lt hLess] at hByte
  rw [sign_bit, getD_append _ _ _ _ (by rw [length_bigEndian]; exact h.pos), hByte]
  cases negative with
  | false =>
    have hGe := first_byte_nonneg h
    simp only [Bool.false_eq_true, iff_false]
    omega
  | true => exact iff_of_true (first_byte_negative h) rfl

theorem readSignedNumIncreasing_write (val : BitVec 64) (rest : List UInt8) :
    readSignedNumIncreasing (encodedSigned val ++ rest) = some (val, rest) := by
  obtain ⟨negative, m, hSign⟩ := signOf val
  obtain ⟨length, hLength, hEq⟩ := writeSignedNumIncreasing_eq hSign
  have hFound := signedLength_eq negative hLength hSign.fits rest
  have hNumber := readSigned_number negative hLength rest
  have hPos := hLength.pos
  have hFirst := sign_bit_iff negative hLength rest
  have hSome : (bigEndian length (signedNumber negative length m) ++ rest).isEmpty = false := by
    rw [isEmpty_eq_false_iff, ← length_pos_iff, length_append, length_bigEndian]
    omega
  have hDrop : (bigEndian length (signedNumber negative length m) ++ rest).drop length = rest :=
    drop_left' (length_bigEndian _ _)
  rw [encodedSigned, hEq, nil_append]
  rw [readSignedNumIncreasing, hSome, if_neg Bool.false_ne_true]
  simp only [hFirst]
  rw [← maskOf, hFound]
  simp only [hDrop]
  congr 2
  apply BitVec.eq_of_toNat_eq
  rw [BitVec.toNat_xor, hNumber, kLengthToMask_eq length hLength.le hPos, ← xor_mod_two_pow,
    unmask hLength, hSign.toNat]
  have hFits := hSign.fits
  cases negative with
  | false =>
    simp only [Bool.false_eq_true, if_false]
    exact mod_eq_of_lt (hFits.trans (by decide))
  | true =>
    have hPow : 2 ^ (8 * length + 64) = 2 ^ (8 * length) * 2 ^ 64 := pow_add _ _ _
    rw [hPow]
    exact complement_mod _ _ _ (Nat.two_pow_pos _) (hFits.trans (by decide))

end Reading

def signedCode : Code (BitVec 64) UInt8 where
  lt x y := x.toInt < y.toInt
  write := encodedSigned
  read := readSignedNumIncreasing
  trichotomous x y :=
    (Int.lt_trichotomy x.toInt y.toInt).imp id (.imp BitVec.eq_of_toInt_eq id)
  read_write := readSignedNumIncreasing_write
  below _ _ := encodedSigned_below

def Field.code : (field : Field) → Code field.Value UInt8
  | .string => stringCode
  | .uint64 => numCode
  | .int64 => signedCode

theorem write_eq (dest : List UInt8) (field : Field) (value : field.Value) :
    write dest field value = dest ++ field.code.write value := by
  cases field with
  | string => exact writeString_eq dest value
  | uint64 => rfl
  | int64 =>
    obtain ⟨negative, m, hSign⟩ := signOf value
    obtain ⟨length, -, hEq⟩ := writeSignedNumIncreasing_eq hSign
    exact (hEq dest).trans (congrArg _ (hEq []).symm)

theorem writeTuple_eq (fields : List Field) (x : fields.TProd Field.Value) (dest : List UInt8) :
    writeTuple fields x dest = dest ++ (Code.tuple Field.code fields).write x := by
  induction fields generalizing dest with
  | nil => exact (append_nil dest).symm
  | cons field fields ih =>
    rw [writeTuple, ih, write_eq, append_assoc]
    rfl

theorem readTuple_eq (fields : List Field) (src : List UInt8) :
    readTuple fields src = (Code.tuple Field.code fields).read src := by
  induction fields generalizing src with
  | nil => rfl
  | cons field fields ih =>
    have hRead : read src field = field.code.read src := by
      cases field <;> rfl
    rw [readTuple, hRead, Code.tuple, Code.pair]
    simp only
    cases field.code.read src with
    | none => rfl
    | some first =>
      obtain ⟨value, rest⟩ := first
      simp only [Option.bind_some, ih]
      cases (Code.tuple Field.code fields).read rest with
      | none => rfl
      | some second => rfl

theorem tupleLt_eq (fields : List Field) (x y : fields.TProd Field.Value) :
    tupleLt fields x y ↔ (Code.tuple Field.code fields).lt x y := by
  induction fields with
  | nil => exact Iff.rfl
  | cons field fields ih =>
    have hLt : field.lt x.1 y.1 ↔ field.code.lt x.1 y.1 := by
      cases field <;> exact Iff.rfl
    rw [tupleLt, ih, hLt]
    exact Iff.rfl

def encode (fields : List Field) (x : fields.TProd Field.Value) : List UInt8 :=
  writeTuple fields x []

/-- Tuples are read back, their encodings are ordered as they are, and no encoding is the beginning
of another one. -/
theorem ordered_code (fields : List Field) (x y : fields.TProd Field.Value) :
    (∀ rest, readTuple fields (encode fields x ++ rest) = some (x, rest)) ∧
      (encode fields x < encode fields y ↔ tupleLt fields x y) ∧
        (encode fields x <+: encode fields y → x = y) := by
  have hWrite : ∀ z, encode fields z = (Code.tuple Field.code fields).write z := fun z =>
    writeTuple_eq fields z []
  rw [hWrite, hWrite, tupleLt_eq]
  refine ⟨fun rest => ?_, Code.write_lt_write _, Code.prefix_free _⟩
  rw [readTuple_eq]
  exact Code.read_write _ x rest

end TensorFlowOnSpark.Strings.OrderedCode
