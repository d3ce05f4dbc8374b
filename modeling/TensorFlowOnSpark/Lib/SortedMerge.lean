import Mathlib.Data.List.Forall2
import Mathlib.Order.Lattice

/-!
# Merging increasing lists with two cursors

A pass over two increasing lists gives the places that the elements of their union are at: in one
of the lists or in both.
-/

namespace TensorFlowOnSpark.SortedMerge

universe u

open List

inductive Source where
  | first (i : Nat)
  | both (i j : Nat)
  | second (j : Nat)

theorem drop_succ_of_drop {α : Type u} {a : α} {l rest : List α} {n : Nat}
    (h : l.drop n = a :: rest) : l[n]? = some a ∧ l.drop (n + 1) = rest := by
  constructor
  · rw [← head?_drop, h]
    rfl
  · rw [← drop_drop, h]
    rfl

section Merge

variable {α : Type u} [LinearOrder α]

/-- The pass from the cursors `i` and `j` on, with what is behind them. -/
def merge (i j : Nat) : List α → List α → List Source
  | [], [] => []
  | _ :: as, [] => .first i :: merge (i + 1) j as []
  | [], _ :: bs => .second j :: merge i (j + 1) [] bs
  | a :: as, b :: bs =>
    if a < b then .first i :: merge (i + 1) j as (b :: bs)
    else if b < a then .second j :: merge i (j + 1) (a :: as) bs
    else .both i j :: merge (i + 1) (j + 1) as bs
termination_by as bs => as.length + bs.length

variable {as bs : List α} {i j : Nat}

def Source.At (as bs : List α) (x : α) : Source → Prop
  | .first i => as[i]? = some x ∧ x ∉ bs
  | .both i j => as[i]? = some x ∧ bs[j]? = some x
  | .second j => bs[j]? = some x ∧ x ∉ as

def union : List α → List α → List α
  | [], [] => []
  | a :: as, [] => a :: union as []
  | [], b :: bs => b :: union [] bs
  | a :: as, b :: bs =>
    if a < b then a :: union as (b :: bs)
    else if b < a then b :: union (a :: as) bs
    else a :: union as bs
termination_by as bs => as.length + bs.length

theorem mem_union {x : α} : x ∈ union as bs ↔ x ∈ as ∨ x ∈ bs := by
  fun_induction union as bs with
  | case1 => simp
  | case2 a as ih => simp [ih]
  | case3 b bs ih => simp [ih]
  | case4 a as b bs hLess ih =>
    simp only [mem_cons, ih]
    tauto
  | case5 a as b bs hNot hLess ih =>
    simp only [mem_cons, ih]
    tauto
  | case6 a as b bs hNot hNot' ih =>
    obtain rfl := le_antisymm (not_lt.mp hNot') (not_lt.mp hNot)
    simp only [mem_cons]
    tauto

theorem pairwise_union (ha : as.Pairwise (· < ·)) (hb : bs.Pairwise (· < ·)) :
    (union as bs).Pairwise (· < ·) := by
  fun_induction union as bs with
  | case1 => exact Pairwise.nil
  | case2 a as ih =>
    rw [pairwise_cons] at ha ⊢
    refine ⟨?_, ih ha.2 hb⟩
    intro x hx
    rcases mem_union.mp hx with h | h
    · exact ha.1 x h
    · cases h
  | case3 b bs ih =>
    rw [pairwise_cons] at hb ⊢
    refine ⟨?_, ih ha hb.2⟩
    intro x hx
    rcases mem_union.mp hx with h | h
    · cases h
    · exact hb.1 x h
  | case4 a as b bs hLess ih =>
    rw [pairwise_cons] at ha ⊢
    refine ⟨?_, ih ha.2 hb⟩
    intro x hx
    rcases mem_union.mp hx with h | h
    · exact ha.1 x h
    · rcases mem_cons.mp h with rfl | h
      · exact hLess
      · exact hLess.trans ((pairwise_cons.mp hb).1 x h)
  | case5 a as b bs hNot hLess ih =>
    rw [pairwise_cons] at hb ⊢
    refine ⟨?_, ih ha hb.2⟩
    intro x hx
    rcases mem_union.mp hx with h | h
    · rcases mem_cons.mp h with rfl | h
      · exact hLess
      · exact hLess.trans ((pairwise_cons.mp ha).1 x h)
    · exact hb.1 x h
  | case6 a as b bs hNot hNot' ih =>
    obtain rfl := le_antisymm (not_lt.mp hNot') (not_lt.mp hNot)
    rw [pairwise_cons] at ha hb ⊢
    refine ⟨?_, ih ha.2 hb.2⟩
    intro x hx
    rcases mem_union.mp hx with h | h
    · exact ha.1 x h
    · exact hb.1 x h

/-- The pass finds the elements of the union in order. What is behind a cursor and in the other
list is behind the other cursor too. -/
theorem merge_at {all all' : List α} (ha : as.Pairwise (· < ·)) (hb : bs.Pairwise (· < ·))
    (hAs : all.drop i = as) (hBs : all'.drop j = bs) (hBoth : ∀ x ∈ as, x ∈ all' → x ∈ bs)
    (hBoth' : ∀ x ∈ bs, x ∈ all → x ∈ as) :
    Forall₂ (fun e x => Source.At all all' x e) (merge i j as bs) (union as bs) := by
  fun_induction merge i j as bs with
  | case1 =>
    rw [union]
    exact Forall₂.nil
  | case2 i j a as ih =>
    obtain ⟨hHere, hAfter⟩ := drop_succ_of_drop hAs
    rw [union]
    refine Forall₂.cons ⟨hHere, ?_⟩ (ih ha.of_cons hb hAfter hBs ?_ ?_)
    · intro hMem
      cases hBoth a mem_cons_self hMem
    · exact fun x hx => hBoth x (mem_cons_of_mem a hx)
    · intro x hx
      cases hx
  | case3 i j b bs ih =>
    obtain ⟨hHere, hAfter⟩ := drop_succ_of_drop hBs
    rw [union]
    refine Forall₂.cons ⟨hHere, ?_⟩ (ih ha hb.of_cons hAs hAfter ?_ ?_)
    · intro hMem
      cases hBoth' b mem_cons_self hMem
    · intro x hx
      cases hx
    · exact fun x hx => hBoth' x (mem_cons_of_mem b hx)
  | case4 i j a as b bs hLess ih =>
    obtain ⟨hHere, hAfter⟩ := drop_succ_of_drop hAs
    have hAbove : ∀ x ∈ b :: bs, a < x := by
      intro x hx
      rcases mem_cons.mp hx with rfl | hx
      · exact hLess
      · exact hLess.trans ((pairwise_cons.mp hb).1 x hx)
    rw [union, if_pos hLess]
    refine Forall₂.cons ⟨hHere, ?_⟩ (ih ha.of_cons hb hAfter hBs ?_ ?_)
    · exact fun hMem => lt_irrefl a (hAbove a (hBoth a mem_cons_self hMem))
    · exact fun x hx => hBoth x (mem_cons_of_mem a hx)
    · intro x hx hMem
      exact (mem_cons.mp (hBoth' x hx hMem)).resolve_left (hAbove x hx).ne'
  | case5 i j a as b bs hNot hLess ih =>
    obtain ⟨hHere, hAfter⟩ := drop_succ_of_drop hBs
    have hAbove : ∀ x ∈ a :: as, b < x := by
      intro x hx
      rcases mem_cons.mp hx with rfl | hx
      · exact hLess
      · exact hLess.trans ((pairwise_cons.mp ha).1 x hx)
    rw [union, if_neg hNot, if_pos hLess]
    refine Forall₂.cons ⟨hHere, ?_⟩ (ih ha hb.of_cons hAs hAfter ?_ ?_)
    · exact fun hMem => lt_irrefl b (hAbove b (hBoth' b mem_cons_self hMem))
    · intro x hx hMem
      exact (mem_cons.mp (hBoth x hx hMem)).resolve_left (hAbove x hx).ne'
    · exact fun x hx => hBoth' x (mem_cons_of_mem b hx)
  | case6 i j a as b bs hNot hNot' ih =>
    obtain rfl := le_antisymm (not_lt.mp hNot') (not_lt.mp hNot)
    obtain ⟨hHere, hAfter⟩ := drop_succ_of_drop hAs
    obtain ⟨hHere', hAfter'⟩ := drop_succ_of_drop hBs
    rw [union, if_neg hNot, if_neg hNot]
    refine Forall₂.cons ⟨hHere, hHere'⟩ (ih ha.of_cons hb.of_cons hAfter hAfter' ?_ ?_)
    · intro x hx hMem
      exact (mem_cons.mp (hBoth x (mem_cons_of_mem a hx) hMem)).resolve_left
        ((pairwise_cons.mp ha).1 x hx).ne'
    · intro x hx hMem
      exact (mem_cons.mp (hBoth' x (mem_cons_of_mem a hx) hMem)).resolve_left
        ((pairwise_cons.mp hb).1 x hx).ne'

theorem merge_all (ha : as.Pairwise (· < ·)) (hb : bs.Pairwise (· < ·)) :
    Forall₂ (fun e x => Source.At as bs x e) (merge 0 0 as bs) (union as bs) :=
  merge_at ha hb rfl rfl (fun _ _ hMem => hMem) (fun _ _ hMem => hMem)

end Merge

end TensorFlowOnSpark.SortedMerge
