import Mathlib.Data.Nat.Bitwise
import Mathlib.Tactic.Ring
import TensorFlowOnSpark.Lib.OrderPreserving

/-!
# Numbers with the high byte first

Of two numbers in bytes, high byte first, the one whose first bytes are the greater number comes
later. Exclusive or goes byte by byte.
-/

namespace TensorFlowOnSpark.BigEndian

open OrderPreserving List Nat

/-- The low bytes of a number, as many as `length`. -/
def bigEndian : Nat → Nat → List UInt8
  | 0, _ => []
  | length + 1, n => UInt8.ofNat (n / 256 ^ length) :: bigEndian length n

@[simp] theorem length_bigEndian (length n : Nat) : (bigEndian length n).length = length := by
  induction length with
  | zero => rfl
  | succ length ih => rw [bigEndian, length_cons, ih]

theorem bigEndian_mod (length n : Nat) {m : Nat} (h : length ≤ m) :
    bigEndian length (n % 256 ^ m) = bigEndian length n := by
  induction length with
  | zero => rfl
  | succ length ih =>
    rw [bigEndian, ih (by omega)]
    congr 1
    obtain ⟨more, rfl⟩ := Nat.exists_eq_add_of_le h
    apply UInt8.toNat_inj.mp
    rw [add_assoc, pow_add, mod_mul_right_div_self, add_comm 1, pow_succ,
      mul_comm _ 256]
    exact mod_mul_right_mod _ _ _

theorem bigEndian_add (first last n : Nat) :
    bigEndian (first + last) n = bigEndian first (n / 256 ^ last) ++ bigEndian last n := by
  induction first with
  | zero => rw [zero_add]; rfl
  | succ first ih =>
    rw [succ_add, bigEndian, ih, bigEndian, cons_append, Nat.div_div_eq_div_mul,
      ← pow_add, add_comm last]

theorem drop_bigEndian {length last : Nat} (h : last ≤ length) (n : Nat) :
    (bigEndian length n).drop (length - last) = bigEndian last n := by
  obtain ⟨first, rfl⟩ := Nat.exists_eq_add_of_le' h
  rw [Nat.add_sub_cancel, bigEndian_add]
  exact drop_left' (length_bigEndian _ _)

theorem bigEndian_below_same {length n n' : Nat} (h : n < n') (hFits : n' < 256 ^ length) :
    Below (bigEndian length n) (bigEndian length n') := by
  induction length generalizing n n' with
  | zero =>
    omega
  | succ length ih =>
    have hPos : 0 < 256 ^ length := Nat.pow_pos (by decide)
    have hByte : n' / 256 ^ length < 256 := by
      rw [div_lt_iff_lt_mul hPos, mul_comm]
      exact hFits
    have hLe := Nat.div_le_div_right (c := 256 ^ length) h.le
    rw [bigEndian]
    rcases hLe.lt_or_eq with hLess | hSame
    · refine .head _ _ ?_
      rw [UInt8.lt_iff_toNat_lt, UInt8.toNat_ofNat', UInt8.toNat_ofNat', mod_eq_of_lt hByte,
        mod_eq_of_lt (hLess.trans hByte)]
      exact hLess
    · rw [hSame]
      refine .cons _ ?_
      rw [← bigEndian_mod length n le_rfl, ← bigEndian_mod length n' le_rfl]
      refine ih ?_ (mod_lt _ hPos)
      have hn := div_add_mod n (256 ^ length)
      have hn' := div_add_mod n' (256 ^ length)
      rw [hSame] at hn
      omega

theorem bigEndian_below {length length' n n' k : Nat} (hk : k ≤ length) (hk' : k ≤ length')
    (hFits : n' < 256 ^ length') (h : n / 256 ^ (length - k) < n' / 256 ^ (length' - k)) :
    Below (bigEndian length n) (bigEndian length' n') := by
  have hFits' : n' / 256 ^ (length' - k) < 256 ^ k := by
    rw [div_lt_iff_lt_mul (Nat.pow_pos (by decide)), ← pow_add, Nat.add_sub_cancel' hk']
    exact hFits
  rw [← Nat.add_sub_cancel' hk, ← Nat.add_sub_cancel' hk', bigEndian_add, bigEndian_add]
  exact (bigEndian_below_same h hFits').append _ _

theorem bigEndian_xor (length n m : Nat) :
    bigEndian length (n ^^^ m) =
      zipWith (· ^^^ ·) (bigEndian length n) (bigEndian length m) := by
  induction length with
  | zero => rfl
  | succ length ih =>
    have hPow : 256 ^ length = 2 ^ (8 * length) := by
      rw [Nat.pow_mul]
    rw [bigEndian, bigEndian, bigEndian, zipWith_cons_cons, ih, hPow, xor_div_two_pow,
      UInt8.ofNat_xor]

theorem bigEndian_complement {length n : Nat} (h : n < 256 ^ length) :
    bigEndian length (256 ^ length - 1 - n) = (bigEndian length n).map (~~~ ·) := by
  induction length generalizing n with
  | zero => rfl
  | succ length ih =>
    have hPos : 0 < 256 ^ length := Nat.pow_pos (by decide)
    have hMod := mod_lt n hPos
    have hSplit := div_add_mod n (256 ^ length)
    have hByte : n / 256 ^ length < 256 := by
      rw [div_lt_iff_lt_mul hPos, mul_comm]
      exact h
    generalize n / 256 ^ length = q at *
    generalize n % 256 ^ length = r at *
    subst hSplit
    have hMore : 256 ^ length * q + 256 ^ length * (255 - q) = 256 ^ length * 255 := by
      rw [← mul_add, Nat.add_sub_cancel' (by omega)]
    have hAll : 256 ^ (length + 1) - 1 - (256 ^ length * q + r) =
        (256 ^ length - 1 - r) + 256 ^ length * (255 - q) := by
      omega
    have hLess : 256 ^ length - 1 - r < 256 ^ length := by omega
    rw [hAll, bigEndian, bigEndian, ← bigEndian_mod length _ le_rfl,
      ← bigEndian_mod length (256 ^ length * q + r) le_rfl, add_mul_mod_self_left,
      mod_eq_of_lt hLess, ih hMod, mul_add_mod, mod_eq_of_lt hMod, add_mul_div_left _ _ hPos,
      div_eq_of_lt hLess, mul_add_div hPos, div_eq_of_lt hMod]
    congr 1
    apply UInt8.toNat_inj.mp
    rw [UInt8.toNat_not, UInt8.toNat_ofNat', UInt8.toNat_ofNat', UInt8.size]
    omega

theorem xor_high (i a b c : Nat) (h : b < 2 ^ i) :
    (2 ^ i * a + b) ^^^ (2 ^ i * c) = 2 ^ i * (a ^^^ c) + b := by
  have hDiv : ((2 ^ i * a + b) ^^^ (2 ^ i * c)) / 2 ^ i = a ^^^ c := by
    rw [xor_div_two_pow, mul_add_div (Nat.two_pow_pos i), div_eq_of_lt h, add_zero,
      Nat.mul_div_cancel_left _ (Nat.two_pow_pos i)]
  have hMod : ((2 ^ i * a + b) ^^^ (2 ^ i * c)) % 2 ^ i = b := by
    rw [xor_mod_two_pow, mul_add_mod, mod_eq_of_lt h, mul_mod_right, xor_zero]
  have hSplit := div_add_mod ((2 ^ i * a + b) ^^^ (2 ^ i * c)) (2 ^ i)
  rw [hDiv, hMod] at hSplit
  exact hSplit.symm

def fromBytes (bytes : List UInt8) : Nat := bytes.foldl (fun n b => 256 * n + b.toNat) 0

theorem foldl_bigEndian (length n start : Nat) :
    (bigEndian length n).foldl (fun n b => 256 * n + b.toNat) start =
      256 ^ length * start + n % 256 ^ length := by
  induction length generalizing start with
  | zero =>
    rw [bigEndian, foldl_nil]
    omega
  | succ length ih =>
    have hByte : (UInt8.ofNat (n / 256 ^ length)).toNat = n / 256 ^ length % 256 :=
      UInt8.toNat_ofNat'
    have hMod : n % 256 ^ (length + 1) =
        n % 256 ^ length + 256 ^ length * (n / 256 ^ length % 256) := by
      rw [pow_succ, mod_mul]
    rw [bigEndian, foldl_cons, ih, hByte, hMod]
    ring

theorem fromBytes_bigEndian {length n : Nat} (h : n < 256 ^ length) :
    fromBytes (bigEndian length n) = n := by
  rw [fromBytes, foldl_bigEndian, mod_eq_of_lt h, mul_zero, zero_add]

end TensorFlowOnSpark.BigEndian
