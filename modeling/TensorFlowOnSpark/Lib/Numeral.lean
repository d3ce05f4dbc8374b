import Mathlib.Data.Nat.ModEq
import Mathlib.Tactic.Ring

/-!
# Writing and reading numerals

A numeral is written with its last digit last, either with as many digits as the number
has or with a fixed number of them.
-/

namespace TensorFlowOnSpark.Numeral

open Nat

universe u v

open List

variable {σ : Type u} {γ : Type v} {base : Nat} {digit : Nat → σ}

def numeral (base : Nat) (digit : Nat → σ) (n : Nat) : List σ :=
  if 2 ≤ base ∧ base ≤ n then numeral base digit (n / base) ++ [digit (n % base)]
  else [digit (n % base)]
termination_by n
decreasing_by exact div_lt_self (by omega) (by omega)

/-- The last digits of a number, as many as `width`. -/
def fixed (base : Nat) (digit : Nat → σ) : Nat → Nat → List σ
  | 0, _ => []
  | width + 1, n => fixed base digit width (n / base) ++ [digit (n % base)]

def TakesDigits (base : Nat) (digit : Nat → σ) (limit : Nat) (read : Nat → List σ → γ) : Prop :=
  ∀ v d tail, d < base → v * base + d ≤ limit → read v (digit d :: tail) = read (v * base + d) tail

variable {limit : Nat} {read : Nat → List σ → γ}

theorem numeral_ne_nil (base : Nat) (digit : Nat → σ) (n : Nat) : numeral base digit n ≠ [] := by
  rw [numeral]
  split
  · exact append_ne_nil_of_right_ne_nil _ (cons_ne_nil _ _)
  · exact cons_ne_nil _ _

theorem mem_numeral (hBase : 2 ≤ base) {n : Nat} {c : σ} (h : c ∈ numeral base digit n) :
    ∃ d < base, c = digit d := by
  induction n using Nat.strong_induction_on with
  | _ n ih =>
    have hLast : n % base < base := mod_lt n (by omega)
    rw [numeral] at h
    split at h
    · rcases mem_append.mp h with hFirst | hSelf
      · exact ih (n / base) (div_lt_self (by omega) (by omega)) hFirst
      · exact ⟨n % base, hLast, mem_singleton.mp hSelf⟩
    · exact ⟨n % base, hLast, mem_singleton.mp h⟩

theorem exists_numeral_eq_cons (digit : Nat → σ) (hBase : 2 ≤ base) (n : Nat) :
    ∃ d < base, ∃ rest, numeral base digit n = digit d :: rest := by
  obtain ⟨c, rest, hCons⟩ := exists_cons_of_ne_nil (numeral_ne_nil base digit n)
  obtain ⟨d, hd, rfl⟩ := mem_numeral hBase (hCons ▸ mem_cons_self)
  exact ⟨d, hd, rest, hCons⟩

theorem read_numeral (hBase : 2 ≤ base) (hRead : TakesDigits base digit limit read) {n : Nat}
    (hLimit : n ≤ limit) (tail : List σ) : read 0 (numeral base digit n ++ tail) = read n tail := by
  induction n using Nat.strong_induction_on generalizing tail with
  | _ n ih =>
    have hLast : n % base < base := mod_lt n (by omega)
    have hSplit : n / base * base + n % base = n := div_add_mod' n base
    rw [numeral]
    split
    · have hFirst : n / base < n := div_lt_self (by omega) (by omega)
      rw [append_assoc, singleton_append, ih (n / base) hFirst (by omega),
        hRead _ _ _ hLast (by omega), hSplit]
    · have hSmall : n % base = n := mod_eq_of_lt (by omega)
      have hZero := hRead 0 n tail (by omega) (by omega)
      rw [hSmall, singleton_append, hZero, zero_mul, zero_add]

theorem length_fixed (width n : Nat) : (fixed base digit width n).length = width := by
  induction width generalizing n with
  | zero => rfl
  | succ width ih => rw [fixed, length_append, ih, length_singleton]

theorem mem_fixed (hBase : 0 < base) {width n : Nat} {c : σ}
    (h : c ∈ fixed base digit width n) : ∃ d < base, c = digit d := by
  induction width generalizing n with
  | zero => cases h
  | succ width ih =>
    rcases mem_append.mp h with hFirst | hSelf
    · exact ih hFirst
    · exact ⟨n % base, mod_lt n hBase, mem_singleton.mp hSelf⟩

theorem read_fixed (hBase : 0 < base) (hRead : TakesDigits base digit limit read)
    {width n : Nat} (hFits : n < base ^ width) (hLimit : n ≤ limit) (tail : List σ) :
    read 0 (fixed base digit width n ++ tail) = read n tail := by
  induction width generalizing n tail with
  | zero =>
    rw [pow_zero, lt_one_iff] at hFits
    rw [hFits]
    rfl
  | succ width ih =>
    have hSplit : n / base * base + n % base = n := div_add_mod' n base
    have hFirst : n / base < base ^ width := by
      rw [div_lt_iff_lt_mul hBase]
      exact hFits
    have hLe : n / base ≤ n := div_le_self n base
    rw [fixed, append_assoc, singleton_append, ih hFirst (by omega),
      hRead _ _ _ (mod_lt n hBase) (by omega), hSplit]

end TensorFlowOnSpark.Numeral
