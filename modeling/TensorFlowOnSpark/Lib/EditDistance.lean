import Mathlib.Data.List.Forall2
import Mathlib.Order.Bounds.Basic

/-!
# Edit distance

Fewest insertions, deletions and substitutions that turn one list into another, up to a test.
-/

namespace TensorFlowOnSpark.EditDistance

open Nat List

variable {α : Type*} {cmp : α → α → Bool} {s s' t t' u : List α} {a b : α} {m n : Nat}

/-- One element is put in, taken out or replaced, at any place. -/
inductive Edit : List α → List α → Prop
  | insert (a : α) (s : List α) : Edit s (a :: s)
  | delete (a : α) (s : List α) : Edit (a :: s) s
  | substitute (a b : α) (s : List α) : Edit (a :: s) (b :: s)
  | cons (a : α) {s s' : List α} (h : Edit s s') : Edit (a :: s) (a :: s')

inductive Edits : Nat → List α → List α → Prop
  | refl (s : List α) : Edits 0 s s
  | step {n : Nat} {s s' t : List α} (hEdit : Edit s s') (hRest : Edits n s' t) :
      Edits (n + 1) s t

/-- `n` edits lead from `s` to a list that the test does not tell from `t`. -/
def TurnsInto (cmp : α → α → Bool) (n : Nat) (s t : List α) : Prop :=
  ∃ u, Edits n s u ∧ Forall₂ (fun a b => cmp a b) u t

def cost (cmp : α → α → Bool) (a b : α) : Nat := if cmp a b then 0 else 1

def dist (cmp : α → α → Bool) : List α → List α → Nat
  | [], t => t.length
  | a :: s, [] => (a :: s).length
  | a :: s, b :: t =>
    min (dist cmp s (b :: t) + 1) (min (dist cmp (a :: s) t + 1) (dist cmp s t + cost cmp a b))
termination_by s t => s.length + t.length

theorem cost_le (a b : α) : cost cmp a b ≤ 1 := by
  rw [cost]
  split <;> omega

@[simp]
theorem dist_nil_left : dist cmp [] t = t.length := by rw [dist]

@[simp]
theorem dist_nil_right : dist cmp s [] = s.length := by
  cases s <;> simp [dist]

theorem dist_cons_cons : dist cmp (a :: s) (b :: t) =
    min (dist cmp s (b :: t) + 1)
      (min (dist cmp (a :: s) t + 1) (dist cmp s t + cost cmp a b)) := by
  rw [dist]

theorem dist_cons_left_le : dist cmp (a :: s) t ≤ dist cmp s t + 1 := by
  cases t with
  | nil => simp
  | cons b t =>
    rw [dist_cons_cons]
    exact min_le_left _ _

theorem dist_cons_right_le : dist cmp s (b :: t) ≤ dist cmp s t + 1 := by
  cases s with
  | nil => simp
  | cons a s =>
    rw [dist_cons_cons]
    exact (min_le_right _ _).trans (min_le_left _ _)

theorem dist_cons_cons_le : dist cmp (a :: s) (b :: t) ≤ dist cmp s t + cost cmp a b := by
  rw [dist_cons_cons]
  exact (min_le_right _ _).trans (min_le_right _ _)

theorem dist_le_cons_left : dist cmp s t ≤ dist cmp (a :: s) t + 1 := by
  induction t with
  | nil =>
    simp only [dist_nil_right, length_cons]
    omega
  | cons b t ih =>
    have hRight : dist cmp s (b :: t) ≤ dist cmp s t + 1 := dist_cons_right_le
    rw [dist_cons_cons]
    omega

theorem dist_substitute_le : dist cmp (a :: s) t ≤ dist cmp (b :: s) t + 1 := by
  induction t with
  | nil => simp
  | cons c t ih =>
    have hCost := @cost_le _ cmp a c
    rw [dist_cons_cons, dist_cons_cons]
    omega

theorem dist_congr_cons (h : ∀ t, dist cmp s t ≤ dist cmp s' t + 1) :
    dist cmp (a :: s) t ≤ dist cmp (a :: s') t + 1 := by
  induction t with
  | nil =>
    have hNil := h []
    simp only [dist_nil_right, length_cons] at hNil ⊢
    omega
  | cons b t ih =>
    have hDelete := h (b :: t)
    have hSubstitute := h t
    rw [dist_cons_cons, dist_cons_cons]
    omega

theorem Edit.dist_le (h : Edit s s') (t : List α) : dist cmp s t ≤ dist cmp s' t + 1 := by
  induction h generalizing t with
  | insert a s => exact dist_le_cons_left
  | delete a s => exact dist_cons_left_le
  | substitute a b s => exact dist_substitute_le
  | cons a h ih => exact dist_congr_cons ih

theorem Edits.dist_le (h : Edits n s s') (t : List α) : dist cmp s t ≤ dist cmp s' t + n := by
  induction h with
  | refl s => exact le_refl _
  | step hEdit hRest ih =>
    have hStep : dist cmp _ t ≤ _ := hEdit.dist_le t
    omega

theorem dist_eq_zero (h : Forall₂ (fun a b => cmp a b) s t) : dist cmp s t = 0 := by
  induction h with
  | nil => simp
  | @cons a b s t hHead hRest ih =>
    have hLe : dist cmp (a :: s) (b :: t) ≤ dist cmp s t + cost cmp a b := dist_cons_cons_le
    rw [cost, if_pos hHead, ih] at hLe
    exact le_zero.mp hLe

theorem TurnsInto.dist_le (h : TurnsInto cmp n s t) : dist cmp s t ≤ n := by
  obtain ⟨u, hEdits, hSame⟩ := h
  have hLe : dist cmp s t ≤ dist cmp u t + n := hEdits.dist_le t
  rwa [dist_eq_zero hSame, Nat.zero_add] at hLe

theorem Edits.snoc (h : Edits n s t) (hEdit : Edit t u) : Edits (n + 1) s u := by
  induction h with
  | refl s => exact .step hEdit (.refl u)
  | step hFirst hRest ih => exact .step hFirst (ih hEdit)

theorem Edits.cons (a : α) (h : Edits n s t) : Edits n (a :: s) (a :: t) := by
  induction h with
  | refl s => exact .refl _
  | step hEdit hRest ih => exact .step (.cons a hEdit) ih

theorem edits_delete_all : ∀ s : List α, Edits s.length s []
  | [] => .refl []
  | a :: s => .step (.delete a s) (edits_delete_all s)

theorem edits_insert_all : ∀ t : List α, Edits t.length [] t
  | [] => .refl []
  | b :: t => (edits_insert_all t).snoc (.insert b t)

theorem TurnsInto.delete (h : TurnsInto cmp n s t) : TurnsInto cmp (n + 1) (a :: s) t := by
  obtain ⟨u, hEdits, hSame⟩ := h
  exact ⟨u, .step (.delete a s) hEdits, hSame⟩

section Reflexive

variable (hRefl : ∀ a, cmp a a)

include hRefl

theorem TurnsInto.insert (h : TurnsInto cmp n s t) : TurnsInto cmp (n + 1) s (b :: t) := by
  obtain ⟨u, hEdits, hSame⟩ := h
  exact ⟨b :: u, hEdits.snoc (.insert b u), .cons (hRefl b) hSame⟩

theorem TurnsInto.substitute (h : TurnsInto cmp n s t) :
    TurnsInto cmp (n + cost cmp a b) (a :: s) (b :: t) := by
  obtain ⟨u, hEdits, hSame⟩ := h
  rw [cost]
  split
  · rename_i hEq
    exact ⟨a :: u, hEdits.cons a, .cons hEq hSame⟩
  · exact ⟨b :: u, .step (.substitute a b s) (hEdits.cons b), .cons (hRefl b) hSame⟩

theorem turnsInto_dist (s t : List α) : TurnsInto cmp (dist cmp s t) s t := by
  induction s, t using dist.induct with
  | case1 t =>
    rw [dist_nil_left]
    exact ⟨t, edits_insert_all t, forall₂_same.mpr fun a _ => hRefl a⟩
  | case2 a s =>
    rw [dist_nil_right]
    exact ⟨[], edits_delete_all (a :: s), .nil⟩
  | case3 a s b t ihDelete ihInsert ihSubstitute =>
    rw [dist_cons_cons]
    refine min_rec' (TurnsInto cmp · (a :: s) (b :: t)) ihDelete.delete ?_
    exact min_rec' (TurnsInto cmp · (a :: s) (b :: t)) (ihInsert.insert hRefl)
      (ihSubstitute.substitute hRefl)

theorem isLeast_dist (s t : List α) : IsLeast {n | TurnsInto cmp n s t} (dist cmp s t) :=
  ⟨turnsInto_dist hRefl s t, fun _ h => h.dist_le⟩

end Reflexive

theorem Edit.append_right (h : Edit s s') (r : List α) : Edit (s ++ r) (s' ++ r) := by
  induction h with
  | insert a s => exact .insert a (s ++ r)
  | delete a s => exact .delete a (s ++ r)
  | substitute a b s => exact .substitute a b (s ++ r)
  | cons a h ih => exact .cons a ih

theorem Edit.append_left (h : Edit s s') : ∀ r : List α, Edit (r ++ s) (r ++ s')
  | [] => h
  | a :: r => .cons a (h.append_left r)

theorem Edit.reverse (h : Edit s s') : Edit s.reverse s'.reverse := by
  induction h with
  | insert a s => simpa using (Edit.insert a []).append_left s.reverse
  | delete a s => simpa using (Edit.delete a []).append_left s.reverse
  | substitute a b s => simpa using (Edit.substitute a b []).append_left s.reverse
  | cons a h ih => simpa using ih.append_right [a]

theorem TurnsInto.reverse (h : TurnsInto cmp n s t) : TurnsInto cmp n s.reverse t.reverse := by
  obtain ⟨u, hEdits, hSame⟩ := h
  refine ⟨u.reverse, ?_, rel_reverse hSame⟩
  clear hSame
  induction hEdits with
  | refl s => exact .refl _
  | step hEdit hRest ih => exact .step hEdit.reverse ih

theorem dist_reverse (hRefl : ∀ a, cmp a a) (s t : List α) :
    dist cmp s.reverse t.reverse = dist cmp s t := by
  apply le_antisymm
  · exact (turnsInto_dist hRefl s t).reverse.dist_le
  · have hBack := (turnsInto_dist hRefl s.reverse t.reverse).reverse
    rw [reverse_reverse, reverse_reverse] at hBack
    exact hBack.dist_le

theorem dist_comm (hSymm : ∀ a b, cmp a b = cmp b a) (s t : List α) :
    dist cmp s t = dist cmp t s := by
  induction s, t using dist.induct with
  | case1 t => simp
  | case2 a s => simp
  | case3 a s b t ihDelete ihInsert ihSubstitute =>
    rw [dist_cons_cons, dist_cons_cons, ihDelete, ihInsert, ihSubstitute, cost, cost, hSymm,
      min_left_comm]

theorem dist_le_length (s t : List α) : dist cmp s t ≤ max s.length t.length := by
  induction s, t using dist.induct with
  | case1 t => simp
  | case2 a s => simp
  | case3 a s b t ihDelete ihInsert ihSubstitute =>
    have hLe : dist cmp (a :: s) (b :: t) ≤ dist cmp s t + cost cmp a b := dist_cons_cons_le
    have hCost := @cost_le _ cmp a b
    simp only [length_cons]
    omega

end TensorFlowOnSpark.EditDistance
