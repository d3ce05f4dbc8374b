import Mathlib.Algebra.BigOperators.Group.List.Basic

/-!
# Row-major arrays

The elements of an array with several dimensions, in row-major order, and the elements that a
slice with a begin and a stride in each dimension picks.
-/

namespace TensorFlowOnSpark.RowMajor

open Nat

universe u

open List

variable {α : Type u}

def indices : List Nat → List (List Nat)
  | [] => [[]]
  | n :: dims => (range n).flatMap fun i => (indices dims).map (i :: ·)

def InBounds : List Nat → List Int → Prop
  | [], [] => True
  | n :: dims, i :: index => (0 ≤ i ∧ i < n) ∧ InBounds dims index
  | _, _ => False

instance InBounds.decidable :
    (dims : List Nat) → (index : List Int) → Decidable (InBounds dims index)
  | [], [] => inferInstanceAs (Decidable True)
  | n :: dims, i :: index =>
    have := InBounds.decidable dims index
    inferInstanceAs (Decidable ((0 ≤ i ∧ i < n) ∧ InBounds dims index))
  | [], _ :: _ => inferInstanceAs (Decidable False)
  | _ :: _, [] => inferInstanceAs (Decidable False)

def offset : List Nat → List Int → Nat
  | _ :: dims, i :: index => i.toNat * dims.prod + offset dims index
  | _, _ => 0

def at? (dims : List Nat) (data : List α) (index : List Int) : Option α :=
  if InBounds dims index then data[offset dims index]? else none

def place : List Int → List Int → List Nat → List Int
  | b :: begins, s :: strides, k :: index => (b + k * s) :: place begins strides index
  | _, _, _ => []

def sliced (dims : List Nat) (data : List α) (begins strides : List Int) (sizes : List Nat) :
    List (Option α) :=
  (indices sizes).map fun k => at? dims data (place begins strides k)

theorem length_indices (dims : List Nat) : (indices dims).length = dims.prod := by
  induction dims with
  | nil => rfl
  | cons n dims ih => simp [indices, ih]

variable {dims : List Nat}

theorem indices_eq_nil (h : dims.prod = 0) : indices dims = [] := by
  rw [← length_eq_zero_iff, length_indices, h]

theorem mem_indices {k : List Nat} :
    k ∈ indices dims ↔ Forall₂ (· < ·) k dims := by
  induction dims generalizing k with
  | nil => simp [indices]
  | cons n dims ih =>
    simp only [indices, mem_flatMap, mem_range, mem_map, forall₂_cons_right_iff, ih]
    constructor
    · rintro ⟨i, hi, rest, hRest, rfl⟩
      exact ⟨i, rest, hi, hRest, rfl⟩
    · rintro ⟨i, rest, hi, hRest, rfl⟩
      exact ⟨i, hi, rest, hRest, rfl⟩

theorem at?_cons {n : Nat} {i : Int} (dims : List Nat) (data : List α) (index : List Int)
    (h : 0 ≤ i ∧ i < n) :
    at? (n :: dims) data (i :: index) = at? dims (data.drop (i.toNat * dims.prod)) index := by
  simp only [at?, InBounds, h, true_and, offset, getElem?_drop]

theorem offset_lt {index : List Int} (h : InBounds dims index) :
    offset dims index < dims.prod := by
  induction dims generalizing index with
  | nil =>
    cases index with
    | nil => exact Nat.zero_lt_one
    | cons i index => exact h.elim
  | cons n dims ih =>
    cases index with
    | nil => exact h.elim
    | cons i index =>
      obtain ⟨⟨hLow, hHigh⟩, hRest⟩ := h
      have hi : i.toNat + 1 ≤ n := by omega
      calc offset (n :: dims) (i :: index) < i.toNat * dims.prod + dims.prod :=
            Nat.add_lt_add_left (ih hRest) _
        _ = (i.toNat + 1) * dims.prod := (succ_mul _ _).symm
        _ ≤ n * dims.prod := mul_le_mul_right _ hi
        _ = (n :: dims).prod := prod_cons.symm

theorem at?_isSome {data : List α} {index : List Int} (h : InBounds dims index)
    (hLength : dims.prod ≤ data.length) : (at? dims data index).isSome := by
  rw [at?, if_pos h, getElem?_eq_getElem (Nat.lt_of_lt_of_le (offset_lt h) hLength)]
  rfl

theorem sliced_cons {n m : Nat} {b s : Int} (dims : List Nat) (data : List α)
    (begins strides : List Int) (sizes : List Nat)
    (h : ∀ k : Nat, k < m → 0 ≤ b + k * s ∧ b + k * s < n) :
    sliced (n :: dims) data (b :: begins) (s :: strides) (m :: sizes) =
      (range m).flatMap fun k : Nat =>
        sliced dims (data.drop ((b + k * s).toNat * dims.prod)) begins strides sizes := by
  simp only [sliced, indices, map_flatMap, map_map]
  apply flatMap_congr
  intro k hk
  apply map_congr_left
  intro index _
  exact at?_cons dims data _ (h k (mem_range.mp hk))

theorem flatMap_blocks (data : List α) (m size : Nat) :
    (range m).flatMap (fun k => (data.drop (k * size)).take size) = data.take (m * size) := by
  induction m with
  | zero => simp
  | succ m ih => rw [range_succ, flatMap_append, ih, succ_mul, take_add]; simp

theorem sliced_block {n m : Nat} {b : Int} (dims : List Nat) (data : List α) (hb : 0 ≤ b)
    (hm : b + m ≤ n) (hData : n * dims.prod ≤ data.length)
    (hAll : ∀ data : List α, dims.prod ≤ data.length →
      sliced dims data (replicate dims.length 0) (replicate dims.length 1) dims =
        (data.take dims.prod).map some) :
    sliced (n :: dims) data (b :: replicate dims.length 0)
        (1 :: replicate dims.length 1) (m :: dims) =
      ((data.drop (b.toNat * dims.prod)).take (m * dims.prod)).map some := by
  have hRange : ∀ k : Nat, k < m → 0 ≤ b + k * 1 ∧ b + k * 1 < n := by
    intro k hk
    omega
  rw [sliced_cons _ _ _ _ _ hRange, ← flatMap_blocks, map_flatMap]
  apply flatMap_congr
  intro k hk
  have hkm := mem_range.mp hk
  have hSplit : (b + (k : Int) * 1).toNat * dims.prod = b.toNat * dims.prod + k * dims.prod := by
    rw [← Nat.add_mul]
    congr 1
    omega
  have hRoom : (b.toNat + k + 1) * dims.prod ≤ n * dims.prod :=
    mul_le_mul_right _ (by omega)
  rw [hSplit, hAll, drop_drop]
  rw [length_drop]
  rw [succ_mul, Nat.add_mul] at hRoom
  omega

theorem sliced_all (dims : List Nat) (data : List α) (hData : dims.prod ≤ data.length) :
    sliced dims data (replicate dims.length 0) (replicate dims.length 1) dims =
      (data.take dims.prod).map some := by
  induction dims generalizing data with
  | nil =>
    cases data with
    | nil => cases hData
    | cons x data => rfl
  | cons n dims ih =>
    have hBlock := sliced_block (b := 0) (m := n) dims data (Int.le_refl 0) (by omega) hData ih
    rw [length_cons, replicate_succ, replicate_succ, hBlock]
    simp

theorem sliced_rows {n₀ n₁ b₀ b₁ rows n : Nat} (data : List α) (hData : n₀ * n₁ ≤ data.length)
    (h₀ : b₀ + rows ≤ n₀) (h₁ : b₁ + n ≤ n₁) :
    sliced [n₀, n₁] data [(b₀ : Int), (b₁ : Int)] [1, 1] [rows, n] =
      ((range rows).flatMap fun k => (data.drop ((b₀ + k) * n₁ + b₁)).take n).map some := by
  have hRange : ∀ k : Nat, k < rows → 0 ≤ (b₀ : Int) + k * 1 ∧ (b₀ : Int) + k * 1 < n₀ := by
    intro k hk
    omega
  rw [sliced_cons _ _ _ _ _ hRange, map_flatMap]
  apply flatMap_congr
  intro k hk
  have hkRows := mem_range.mp hk
  have hRoom : (b₀ + k + 1) * n₁ ≤ n₀ * n₁ := mul_le_mul_right _ (by omega)
  have hOffset : ((b₀ : Int) + k * 1).toNat * [n₁].prod = (b₀ + k) * n₁ := by
    rw [prod_singleton]
    congr 1
    omega
  have hRow := sliced_block (n := n₁) (m := n) (b := b₁) [] (data.drop ((b₀ + k) * n₁))
    (Int.natCast_nonneg b₁) (by omega)
    (by rw [prod_nil, length_drop]; rw [succ_mul] at hRoom; omega)
    (sliced_all [])
  rw [hOffset]
  simpa [drop_drop] using hRow

end TensorFlowOnSpark.RowMajor
