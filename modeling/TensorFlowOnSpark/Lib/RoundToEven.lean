import Mathlib.Tactic.Ring

/-!
# Rounding to a number of significant bits

The nearest number with that many bits, and of two that are equally near the even one.
-/

namespace TensorFlowOnSpark.RoundToEven

open Nat

variable {bits n : Nat}

/-- The distance between the numbers around `n` that have so many bits. -/
def ulp (bits n : Nat) : Nat := 2 ^ (n.log2 + 1 - bits)

def roundToEven (bits n : Nat) : Nat :=
  let q := n / ulp bits n
  let r := n % ulp bits n
  if 2 * r < ulp bits n ∨ 2 * r = ulp bits n ∧ q % 2 = 0 then q * ulp bits n
  else (q + 1) * ulp bits n

theorem roundToEven_near (bits n : Nat) :
    2 * roundToEven bits n ≤ 2 * n + ulp bits n ∧ 2 * n ≤ 2 * roundToEven bits n + ulp bits n := by
  have hParts := div_add_mod' n (ulp bits n)
  have hLess : n % ulp bits n < ulp bits n := mod_lt _ (Nat.two_pow_pos _)
  rw [roundToEven]
  split
  · omega
  · simp only [add_one_mul]
    omega

theorem ulp_of_lt (hBits : bits ≠ 0) (h : n < 2 ^ bits) : ulp bits n = 1 := by
  have hLog : n.log2 < bits := by
    by_cases hZero : n = 0
    · rw [hZero, log2_zero]
      exact pos_of_ne_zero hBits
    · exact (log2_lt hZero).mpr h
  rw [ulp, Nat.sub_eq_zero_of_le hLog, pow_zero]

theorem ulp_le (h : 2 ^ bits ≤ n) : 2 ^ bits * ulp bits n ≤ 2 * n := by
  have hPos : n ≠ 0 := ne_of_gt (lt_of_lt_of_le (Nat.two_pow_pos _) h)
  have hLog : bits ≤ n.log2 := (le_log2 hPos).mpr h
  calc 2 ^ bits * ulp bits n = 2 * 2 ^ n.log2 := by
        rw [ulp, ← pow_add, ← Nat.pow_succ']
        congr 1
        omega
    _ ≤ 2 * n := Nat.mul_le_mul_left _ (log2_self_le hPos)

/-- The relative error is at most one half of the last bit. -/
theorem roundToEven_bounds {bits : Nat} (hBits : bits ≠ 0) (n : Nat) :
    2 ^ bits * roundToEven bits n ≤ 2 ^ bits * n + n ∧
      2 ^ bits * n ≤ 2 ^ bits * roundToEven bits n + n := by
  obtain ⟨hHigh, hLow⟩ := roundToEven_near bits n
  rcases lt_or_ge n (2 ^ bits) with hSmall | hLarge
  · rw [ulp_of_lt hBits hSmall] at hHigh hLow
    obtain hExact : roundToEven bits n = n := by omega
    rw [hExact]
    exact ⟨le_add_right _ _, le_add_right _ _⟩
  · have hUlp := ulp_le hLarge
    have hHigh' := Nat.mul_le_mul_left (2 ^ bits) hHigh
    have hLow' := Nat.mul_le_mul_left (2 ^ bits) hLow
    simp only [mul_add, Nat.mul_left_comm _ 2] at hHigh' hLow'
    omega

end TensorFlowOnSpark.RoundToEven
