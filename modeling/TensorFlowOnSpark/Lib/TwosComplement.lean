import Mathlib.Algebra.Ring.Int.Defs
import Mathlib.Algebra.GroupWithZero.Nat

/-!
# Arithmetic in 64 bits

Sums and products of 64-bit integers wrap around.
-/

namespace TensorFlowOnSpark.TwosComplement

open List Int

theorem bmod_of_lt {x : Int} (hLow : -2 ^ 63 ≤ x) (hHigh : x < 2 ^ 63) : x.bmod (2 ^ 64) = x :=
  bmod_eq_of_le (by omega) (by omega)

theorem bmod_cases (x : Int) :
    (x % 2 ^ 64 < 2 ^ 63 ∧ x.bmod (2 ^ 64) = x % 2 ^ 64) ∨
      (2 ^ 63 ≤ x % 2 ^ 64 ∧ x.bmod (2 ^ 64) = x % 2 ^ 64 - 2 ^ 64) := by
  rw [bmod_def]
  split <;> omega

theorem bmod_nonneg_iff {x : Int} : 0 ≤ x.bmod (2 ^ 64) ↔ x % 2 ^ 64 < 2 ^ 63 := by
  rcases bmod_cases x with ⟨hLess, hEq⟩ | ⟨hLess, hEq⟩ <;> omega

theorem toInt_nonneg {x : Int64} (h : 0 ≤ x) : 0 ≤ x.toInt := Int64.le_iff_toInt_le.mp h

theorem toInt_lt (x : Int64) : x.toInt < 2 ^ 63 := x.toInt_lt

variable {x y : Int64}

theorem toInt_add_of_lt (hx : 0 ≤ x.toInt) (hy : 0 ≤ y.toInt) (h : x.toInt + y.toInt < 2 ^ 63)
    : (x + y).toInt = x.toInt + y.toInt := by
  rw [Int64.toInt_add, bmod_of_lt (by omega) h]

theorem toInt_add_of_le (h : 2 ^ 63 ≤ x.toInt + y.toInt) :
    (x + y).toInt = x.toInt + y.toInt - 2 ^ 64 := by
  have hx := toInt_lt x
  have hy := toInt_lt y
  rw [Int64.toInt_add]
  rcases bmod_cases (x.toInt + y.toInt) with ⟨hLess, hEq⟩ | ⟨hLess, hEq⟩ <;> omega

theorem toInt_sub_of_nonneg (hx : 0 ≤ x.toInt) (hy : 0 ≤ y.toInt) :
    (x - y).toInt = x.toInt - y.toInt := by
  have hLess := toInt_lt x
  have hLess' := toInt_lt y
  rw [Int64.toInt_sub, bmod_of_lt (by omega) (by omega)]

theorem toInt_div_of_pos (hy : 0 < y.toInt) :
    (x / y).toInt = x.toInt.tdiv y.toInt := by
  apply Int64.toInt_div_of_ne_right
  rintro rfl
  exact absurd hy (by decide)

theorem tdiv_nonneg_iff {x y : Int} (hy : 0 < y) : 0 ≤ x.tdiv y ↔ -y < x := by
  obtain hx | hx := Int.le_total 0 x
  · have hNonneg := Int.tdiv_nonneg hx (Int.le_of_lt hy)
    exact iff_of_true hNonneg (by omega)
  · have hEq : x.tdiv y = -((-x) / y) := by
      rw [← tdiv_eq_ediv_of_nonneg (by omega), Int.neg_tdiv, neg_neg]
    have hLess : -x < y ↔ (-x) / y < 1 := by
      rw [Int.ediv_lt_iff_lt_mul hy, one_mul]
    omega

theorem prod_nonneg {sizes : List Int64} (h : ∀ size ∈ sizes, 0 ≤ size) :
    0 ≤ (sizes.map Int64.toInt).prod := by
  induction sizes with
  | nil => decide
  | cons size sizes ih =>
    rw [forall_mem_cons] at h
    exact Int.mul_nonneg (toInt_nonneg h.1) (ih h.2)

theorem toInt_foldl_mul (start : Int64) (sizes : List Int64) :
    (sizes.foldl (· * ·) start).toInt =
      (start.toInt * (sizes.map Int64.toInt).prod).bmod (2 ^ 64) := by
  induction sizes generalizing start with
  | nil =>
    rw [foldl_nil, map_nil, prod_nil, mul_one, bmod_of_lt start.le_toInt start.toInt_lt]
  | cons size sizes ih =>
    rw [foldl_cons, ih, map_cons, prod_cons, Int64.toInt_mul, bmod_mul_bmod, mul_assoc]

end TensorFlowOnSpark.TwosComplement
