import Mathlib.Data.Set.Card

/-!
# Acyclic dependencies

A function on the nodes of a finite acyclic relation whose value at a node depends on
its values at the predecessors only is found by repeating its equation, as often as
there are nodes.
-/

namespace TensorFlowOnSpark.Dependency

open Relation Function Nat

universe u v

variable {N : Type u} {α : Type v}

def Acyclic (r : N → N → Prop) : Prop := ∀ v, ¬ TransGen r v v

theorem acyclic_of_rank {r : N → N → Prop} (rank : N → Nat) (h : ∀ u v, r u v → rank u < rank v) :
    Acyclic r := by
  have hPath : ∀ u v, TransGen r u v → rank u < rank v := by
    intro u v hPath
    induction hPath with
    | single hEdge => exact h _ _ hEdge
    | tail _ hEdge ih => exact ih.trans (h _ _ hEdge)
  intro v hCycle
  exact absurd (hPath v v hCycle) (lt_irrefl _)

theorem Acyclic.add_rising {β : Type*} [Preorder β] {r s : N → N → Prop} (h : Acyclic r)
    (rank : N → β)
    (hRises : ∀ u v, s u v → r u v ∧ rank u ≤ rank v ∨ rank u < rank v) : Acyclic s := by
  have hPath : ∀ u v, TransGen s u v → TransGen r u v ∧ rank u ≤ rank v ∨ rank u < rank v := by
    intro u v hPath
    induction hPath with
    | single hEdge => exact (hRises _ _ hEdge).imp_left fun hOld => ⟨.single hOld.1, hOld.2⟩
    | tail _ hEdge ih =>
      rcases ih with ⟨hOld, hLe⟩ | hLess
      · rcases hRises _ _ hEdge with ⟨hOld', hLe'⟩ | hLess'
        · exact .inl ⟨hOld.tail hOld', hLe.trans hLe'⟩
        · exact .inr (hLe.trans_lt hLess')
      · rcases hRises _ _ hEdge with ⟨_, hLe'⟩ | hLess'
        · exact .inr (hLess.trans_le hLe')
        · exact .inr (hLess.trans hLess')
  intro v hCycle
  rcases hPath v v hCycle with ⟨hOld, _⟩ | hLess
  · exact h v hOld
  · exact lt_irrefl _ hLess

section Positions

variable {M : Type v} {r : N → N → Prop} {s : M → M → Prop} (at_ : N → M → Prop)

theorem path_at (hFun : ∀ a p q, at_ a p → at_ a q → p = q)
    (hStep : ∀ a b, r a b → ∃ p q, at_ a p ∧ at_ b q ∧ TransGen s p q) {a b : N}
    (hPath : TransGen r a b) : ∃ p q, at_ a p ∧ at_ b q ∧ TransGen s p q := by
  induction hPath with
  | single hEdge => exact hStep _ _ hEdge
  | tail _ hEdge ih =>
    obtain ⟨p, q, hp, hq, hPath⟩ := ih
    obtain ⟨q', q'', hq', hq'', hLast⟩ := hStep _ _ hEdge
    rw [hFun _ q' q hq' hq] at hLast
    exact ⟨p, q'', hp, hq'', hPath.trans hLast⟩

theorem acyclic_of_positions (hFun : ∀ a p q, at_ a p → at_ a q → p = q)
    (hStep : ∀ a b, r a b → ∃ p q, at_ a p ∧ at_ b q ∧ TransGen s p q) (h : Acyclic s) :
    Acyclic r := by
  intro a hCycle
  obtain ⟨p, q, hp, hq, hPath⟩ := path_at at_ hFun hStep hCycle
  rw [hFun a p q hp hq] at hPath
  exact h q hPath

end Positions

def Staged (r : N → N → Prop) (p q : N × Nat) : Prop := r p.1 q.1 ∨ p.1 = q.1 ∧ p.2 < q.2

variable {r : N → N → Prop}

theorem path_of_staged {p q : N × Nat} (hPath : TransGen (Staged r) p q) :
    TransGen r p.1 q.1 ∨ p.1 = q.1 ∧ p.2 < q.2 := by
  induction hPath with
  | single hEdge => exact hEdge.imp_left TransGen.single
  | tail _ hEdge ih =>
    rcases ih with ih | ⟨hSame, hLess⟩
    · rcases hEdge with hEdge | ⟨hSame', -⟩
      · exact Or.inl (ih.tail hEdge)
      · exact Or.inl (hSame' ▸ ih)
    · rcases hEdge with hEdge | ⟨hSame', hLess'⟩
      · exact Or.inl (TransGen.single (hSame ▸ hEdge))
      · exact Or.inr ⟨hSame.trans hSame', hLess.trans hLess'⟩

theorem Acyclic.staged (h : Acyclic r) : Acyclic (Staged r) := by
  intro p hCycle
  rcases path_of_staged hCycle with hPath | ⟨-, hLess⟩
  · exact h _ hPath
  · exact absurd hLess (lt_irrefl _)

theorem Acyclic.wellFounded [Finite N] (h : Acyclic r) : WellFounded r := by
  have hIrrefl : Std.Irrefl (TransGen r) := ⟨h⟩
  exact Subrelation.wf TransGen.single (Finite.wellFounded_of_trans_of_irrefl (TransGen r))

/-- `step f v` reads `f` only at the predecessors of `v`. -/
def Local (r : N → N → Prop) (step : (N → α) → N → α) : Prop :=
  ∀ f f' v, (∀ u, r u v → f u = f' u) → step f v = step f' v

variable {step : (N → α) → N → α}

theorem iterate_eq_succ [Finite N] (h : Acyclic r) (hLocal : Local r step) (start : N → α) (n : Nat)
    (v : N) (hLess : {u | TransGen r u v}.ncard < n) : step^[n] start v = step^[n + 1] start v := by
  induction n generalizing v with
  | zero => exact absurd hLess (not_lt_zero _)
  | succ n ih =>
    rw [iterate_succ_apply', iterate_succ_apply']
    apply hLocal
    intro u hEdge
    apply ih
    have hSub : {w | TransGen r w u} ⊂ {w | TransGen r w v} := by
      constructor
      · intro w hPath
        exact hPath.tail hEdge
      · intro hBack
        exact h u (hBack (TransGen.single hEdge))
    have hCard := Set.ncard_lt_ncard hSub (Set.toFinite _)
    omega

theorem iterate_fixed [Finite N] (h : Acyclic r) (hLocal : Local r step) (start : N → α)
    {nodes : List N} (hAll : ∀ v, v ∈ nodes) :
    step (step^[nodes.length] start) = step^[nodes.length] start := by
  classical
  funext v
  rw [← iterate_succ_apply' step]
  symm
  apply iterate_eq_succ h hLocal
  have hSub : {u | TransGen r u v} ⊂ (Set.univ : Set N) :=
    Set.ssubset_univ_iff.mpr fun hUniv => h v (hUniv.symm.subset (Set.mem_univ v))
  have hLess := Set.ncard_lt_ncard hSub (Set.toFinite _)
  have hUniv : (Set.univ : Set N) = nodes.toFinset := by
    ext u
    simp [hAll u]
  rw [hUniv, Set.ncard_coe_finset] at hLess
  exact lt_of_lt_of_le hLess (List.toFinset_card_le nodes)

end TensorFlowOnSpark.Dependency
