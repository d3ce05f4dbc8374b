import Mathlib.Algebra.Group.Int.Defs
import Mathlib.Algebra.Group.Nat.Defs
import TensorFlowOnSpark.Lib.EditDistance

/-!
# Levenshtein distance

`LevenshteinDistance` of `lib/gtl/edit_distance.h`.
-/

namespace TensorFlowOnSpark.Gtl

open EditDistance List Nat

variable {α : Type*}

section Source

variable (cmp : α → α → Bool)

/-- The value kept when `x` is stored in an `int`. -/
def int (x : Int) : Int := x.bmod (2 ^ 32)

/-- The inner loop of a row; the cells behind the current one are already in the result. -/
def innerLoop (x : α) : List α → List Int → Int → Int → List Int
  | y :: t, cell :: scratch, substitutionBaseCost, insertionCost =>
    let replacementCost : Int := if cmp x y then 0 else 1
    let substitutionCost := int (substitutionBaseCost + replacementCost)
    let deletionCost := int (cell + 1)
    let cheapest := min deletionCost (min insertionCost substitutionCost)
    cheapest :: innerLoop x t scratch (int cell) (int (cheapest + 1))
  | _, scratch, _, _ => scratch

def outerLoop (t : List α) : List α → Nat → List Int → List Int
  | [], _, scratch => scratch
  | x :: s, i, scratch =>
    outerLoop t s (i + 1) (innerLoop cmp x t scratch (int (i - 1 : Nat)) (int (i + 1 : Nat)))

/-- The loop over `j < t_size` leaves the last cell at the zero of its construction. -/
def initialScratch (tSize : Nat) : List Int :=
  (range tSize).map fun k => if k + 1 < tSize then k + 1 else 0

def distanceFromLonger [BEq α] (s t : List α) : Int :=
  if t.length = 0 then s.length
  else if s == t then 0
  else (outerLoop cmp t s 1 (initialScratch t.length)).getD (t.length - 1) 0

def levenshteinDistance [BEq α] (s t : List α) : Int :=
  if t.length > s.length then distanceFromLonger cmp t s else distanceFromLonger cmp s t

end Source

variable {cmp : α → α → Bool} {p q s t : List α} {x : α}

theorem int_eq {x : Int} (hNonneg : 0 ≤ x) (hLess : x < 2 ^ 31) : int x = x := by
  rw [int, Int.bmod_eq_of_le (by omega) (by omega)]

theorem cheapest_eq {above left base : Nat} {y : α} (hAbove : above < 2 ^ 30)
    (hBase : base < 2 ^ 30) :
    min (int (above + 1)) (min ((left + 1 : Nat) : Int) (int (base + if cmp x y then 0 else 1))) =
      (min (above + 1) (min (left + 1) (base + cost cmp x y)) : Nat) := by
  rw [cost, int_eq (by omega) (by omega)]
  split
  · rw [int_eq (by omega) (by omega)]
    omega
  · rw [int_eq (by omega) (by omega)]
    omega

/-- The cells of `t` behind the columns `p`, in the row of `q`; prefixes stand reversed. The last
cell started at zero, so it is exact only up to the row's number. -/
def row (cmp : α → α → Bool) (q : List α) : List α → List α → List Int
  | _, [] => []
  | p, b :: t =>
    let cost := dist cmp q (b :: p)
    (if t.isEmpty then min cost q.length else cost : Nat) :: row cmp q (b :: p) t

theorem innerLoop_row (hRow : q.length + 1 < 2 ^ 30) (hColumns : p.length + t.length < 2 ^ 30) :
    innerLoop cmp x t (row cmp q p t) (dist cmp q p : Nat) (dist cmp (x :: q) p + 1 : Nat) =
      row cmp (x :: q) p t := by
  induction t generalizing p with
  | nil => rfl
  | cons b t ih =>
    rw [length_cons] at hColumns
    have hLength (u v : List α) : dist cmp u v ≤ max u.length v.length := dist_le_length u v
    have hBase := hLength q p
    have hAbove := hLength q (b :: p)
    have hNext := hLength (x :: q) (b :: p)
    have hCell := @dist_cons_cons _ cmp q p x b
    simp only [length_cons] at hAbove hNext
    rw [row, row, innerLoop]
    cases t with
    | nil =>
      simp only [isEmpty_nil, if_true]
      rw [cheapest_eq (by omega) (by omega), length_cons]
      congr 2
      omega
    | cons c t =>
      have hRest := ih (p := b :: p) (by rw [length_cons]; omega)
      simp only [isEmpty_cons, Bool.false_eq_true, if_false]
      rw [cheapest_eq (by omega) (by omega), ← hCell, int_eq (by omega) (by omega),
        int_eq (by omega) (by omega)]
      exact congrArg _ hRest

theorem outerLoop_row (hRows : s.length + q.length < 2 ^ 30) (hColumns : t.length < 2 ^ 30) :
    outerLoop cmp t s (q.length + 1) (row cmp q [] t) = row cmp (s.reverse ++ q) [] t := by
  induction s generalizing q with
  | nil => rfl
  | cons x s ih =>
    rw [length_cons] at hRows
    have hInner := @innerLoop_row _ cmp [] q t x (by omega) (by rw [length_nil]; omega)
    rw [dist_nil_right, dist_nil_right, length_cons] at hInner
    have hRest := ih (q := x :: q) (by rw [length_cons]; omega)
    rw [outerLoop, Nat.add_sub_cancel, int_eq (by omega) (by omega),
      int_eq (by omega) (by omega), hInner]
    rw [length_cons] at hRest
    rw [hRest, reverse_cons, append_assoc]
    rfl

theorem row_nil (p t : List α) : row cmp [] p t =
    (range t.length).map fun k => if k + 1 < t.length then (p.length + k + 1 : Int) else 0 := by
  induction t generalizing p with
  | nil => rfl
  | cons b t ih =>
    rw [row, ih, length_cons, length_cons, range_succ_eq_map, map_cons, map_map]
    congr 1
    · cases t <;> simp
    · apply map_congr_left
      intro k _
      simp only [Nat.add_lt_add_iff_right]
      congr 1
      omega

theorem initialScratch_eq (t : List α) : initialScratch t.length = row cmp [] [] t := by
  rw [row_nil, initialScratch]
  simp

theorem getD_row (b : α) (t : List α) : (row cmp q p (b :: t)).getD t.length 0 =
    (min (dist cmp q (t.reverse ++ b :: p)) q.length : Nat) := by
  induction t generalizing b p with
  | nil => rfl
  | cons c t ih =>
    rw [row, length_cons, getD_cons_succ, ih, reverse_cons, append_assoc]
    rfl

theorem forall₂_of_beq [BEq α] (hFiner : ∀ a b, a == b → cmp a b) (h : s == t) :
    Forall₂ (fun a b => cmp a b) s t := by
  induction s generalizing t with
  | nil =>
    cases t with
    | nil => exact .nil
    | cons b t => cases h
  | cons a s ih =>
    cases t with
    | nil => cases h
    | cons b t =>
      rw [cons_beq_cons, Bool.and_eq_true] at h
      exact .cons (hFiner a b h.1) (ih h.2)

theorem distanceFromLonger_eq [BEq α] (hRefl : ∀ a, cmp a a)
    (hFiner : ∀ a b, a == b → cmp a b) (hLe : t.length ≤ s.length) (hLess : s.length < 2 ^ 30) :
    distanceFromLonger cmp s t = (dist cmp s t : Nat) := by
  cases t with
  | nil => rw [distanceFromLonger, if_pos length_nil, dist_nil_right]
  | cons b t =>
    rw [distanceFromLonger, if_neg (by simp)]
    split
    · rename_i hEq
      rw [dist_eq_zero (forall₂_of_beq hFiner hEq)]
      rfl
    · have hRows : outerLoop cmp (b :: t) s 1 (row cmp [] [] (b :: t)) = _ :=
        outerLoop_row (q := []) hLess (hLe.trans_lt hLess)
      have hMax := @dist_le_length _ cmp s (b :: t)
      have hLast := @getD_row _ cmp [] (s.reverse ++ []) b t
      rw [append_nil, ← reverse_cons, dist_reverse hRefl, length_reverse,
        min_eq_left (by omega)] at hLast
      rw [@initialScratch_eq _ cmp, hRows, length_cons, Nat.add_sub_cancel,
        append_nil, hLast]

/-- The result is the fewest edits, in either direction. -/
theorem levenshteinDistance_isLeast [BEq α] (cmp : α → α → Bool) (hSymm : ∀ a b, cmp a b = cmp b a)
    (hRefl : ∀ a, cmp a a) (hFiner : ∀ a b, a == b → cmp a b) (s t : List α)
    (hs : s.length < 2 ^ 30) (ht : t.length < 2 ^ 30) :
    ∃ d : Nat, levenshteinDistance cmp s t = d ∧ IsLeast {n | TurnsInto cmp n s t} d ∧
      IsLeast {n | TurnsInto cmp n t s} d := by
  have hComm := dist_comm hSymm s t
  refine ⟨dist cmp s t, ?_, isLeast_dist hRefl s t, hComm ▸ isLeast_dist hRefl t s⟩
  rw [levenshteinDistance]
  split
  · rename_i hLonger
    rw [distanceFromLonger_eq hRefl hFiner (le_of_lt hLonger) ht, hComm]
  · rename_i hShorter
    exact distanceFromLonger_eq hRefl hFiner (Nat.le_of_not_lt hShorter) hs

theorem levenshteinDistance_hi_bye : ∃ d : Nat,
    levenshteinDistance (· == ·) "hi".toList "bye".toList = d ∧
      IsLeast {n | TurnsInto (· == ·) n "hi".toList "bye".toList} d ∧
      IsLeast {n | TurnsInto (· == ·) n "bye".toList "hi".toList} d :=
  levenshteinDistance_isLeast _ (fun _ _ => Bool.beq_comm) (fun _ => beq_self_eq_true _)
    (fun _ _ h => h) _ _ (by decide) (by decide)

end TensorFlowOnSpark.Gtl
