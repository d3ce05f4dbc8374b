import Mathlib.Logic.Function.Basic
import Mathlib.Logic.Relation

/-!
# Disjoint-set forests

Every element points at its parent, and a root points at itself.
-/

namespace TensorFlowOnSpark.DisjointForest

open Relation Function

universe u v

section Roots

variable {α : Type u} {parent : α → α}

inductive RootOf (parent : α → α) : α → α → Prop where
  | here {r : α} (hRoot : parent r = r) : RootOf parent r r
  | above {x r : α} (hNot : parent x ≠ x) (hParent : RootOf parent (parent x) r) : RootOf parent x r

variable {x r : α}

theorem RootOf.isRoot (h : RootOf parent x r) : parent r = r := by
  induction h with
  | here hRoot => exact hRoot
  | above _ _ ih => exact ih

theorem RootOf.eq_of_root (h : RootOf parent x r) (hx : parent x = x) : r = x := by
  cases h with
  | here => rfl
  | above hNot _ => exact absurd hx hNot

theorem RootOf.of_parent (h : RootOf parent x r) : RootOf parent (parent x) r := by
  cases h with
  | here hRoot => exact hRoot.symm ▸ .here hRoot
  | above _ hParent => exact hParent

theorem RootOf.unique {s : α} (h : RootOf parent x r) (h' : RootOf parent x s) : r = s := by
  induction h with
  | here hRoot => exact (h'.eq_of_root hRoot).symm
  | above _ _ ih => exact ih h'.of_parent

variable [DecidableEq α]

theorem RootOf.compress {y s : α} (h : RootOf parent x r) (hy : RootOf parent y s) :
    RootOf (update parent x r) y s := by
  have hRoot {z : α} (hz : parent z = z) : update parent x r z = z := by
    rcases eq_or_ne z x with rfl | hNe
    · rw [update_self, h.eq_of_root hz]
    · rw [update_of_ne hNe, hz]
  induction hy with
  | here hs => exact .here (hRoot hs)
  | @above y s hNot hParent ih =>
    rcases eq_or_ne y x with rfl | hNe
    · obtain rfl : r = s := h.unique (.above hNot hParent)
      refine .above ?_ ?_
      · rw [update_self]
        exact fun hEq => hNot (hEq ▸ h.isRoot)
      · rw [update_self]
        exact .here (hRoot h.isRoot)
    · rw [← update_of_ne hNe r parent] at ih hNot
      exact .above hNot ih

theorem RootOf.link {a b y s : α} (ha : parent a = a) (hb : parent b = b) (hNe : a ≠ b)
    (hy : RootOf parent y s) : RootOf (update parent a b) y (if s = a then b else s) := by
  have hTop : RootOf (update parent a b) b b :=
    .here (by rw [update_of_ne hNe.symm, hb])
  induction hy with
  | @here s hs =>
    rcases eq_or_ne s a with rfl | hs'
    · rw [if_pos rfl]
      refine .above ?_ ?_
      · rw [update_self]
        exact hNe.symm
      · rw [update_self]
        exact hTop
    · rw [if_neg hs']
      exact .here (by rw [update_of_ne hs', hs])
  | @above y s hNot _ ih =>
    have hy : y ≠ a := fun hEq => hNot (hEq ▸ ha)
    rw [← update_of_ne hy b parent] at ih hNot
    exact .above hNot ih

end Roots

section Ranks

variable {α : Type u} {parent : α → α} {rank : α → Nat}

def Ranked (parent : α → α) (rank : α → Nat) : Prop := ∀ x, parent x ≠ x → rank x < rank (parent x)

theorem Ranked.lt_root (h : Ranked parent rank) {x r : α} (hRoot : RootOf parent x r)
    (hx : parent x ≠ x) : rank x < rank r := by
  induction hRoot with
  | here hr => exact absurd hr hx
  | @above x r _ hParent ih =>
    rcases eq_or_ne (parent (parent x)) (parent x) with hp | hp
    · exact (hParent.eq_of_root hp) ▸ h x hx
    · exact Nat.lt_trans (h x hx) (ih hp)

variable [DecidableEq α]

theorem Ranked.compress (h : Ranked parent rank) {x r : α} (hRoot : RootOf parent x r) :
    Ranked (update parent x r) rank := by
  intro y hy
  rcases eq_or_ne y x with rfl | hNe
  · rw [update_self] at hy ⊢
    exact h.lt_root hRoot fun hEq => hy (hRoot.eq_of_root hEq)
  · rw [update_of_ne hNe] at hy ⊢
    exact h y hy

theorem Ranked.link (h : Ranked parent rank) {a b : α} {rank' : α → Nat} (hb : parent b = b)
    (hSame : ∀ x, x ≠ b → rank' x = rank x) (hGrows : rank b ≤ rank' b) (hLess : rank a < rank' b)
    (hNe : a ≠ b) : Ranked (update parent a b) rank' := by
  intro y hy
  have hBelow : y ≠ b := by
    rintro rfl
    exact hy (by rw [update_of_ne hNe.symm, hb])
  rw [hSame y hBelow]
  rcases eq_or_ne y a with rfl | hya
  · rw [update_self]
    exact hLess
  · rw [update_of_ne hya] at hy ⊢
    have hRise := h y hy
    rcases eq_or_ne (parent y) b with hp | hp
    · rw [hp] at hRise ⊢
      exact Nat.lt_of_lt_of_le hRise hGrows
    · exact (hSame _ hp).symm ▸ hRise

end Ranks

section Classes

variable {α : Type u} {β : Type v} {R R' : α → α → Prop} {rep rep' : α → β}

/-- `rep` names the classes of the least equivalence that contains `R`. -/
def Names (R : α → α → Prop) (rep : α → β) : Prop := ∀ x y, rep x = rep y ↔ EqvGen R x y

theorem eqvGen_of_forall {S : α → α → Prop} (h : ∀ x y, R x y → EqvGen S x y) {x y : α}
    (hxy : EqvGen R x y) : EqvGen S x y := by
  induction hxy with
  | rel x y hR => exact h x y hR
  | refl x => exact .refl x
  | symm x y _ ih => exact .symm _ _ ih
  | trans x y z _ _ ih ih' => exact .trans _ _ _ ih ih'

theorem Names.congr (h : Names R rep) (hTo : ∀ x y, R x y → EqvGen R' x y)
    (hFrom : ∀ x y, R' x y → EqvGen R x y) : Names R' rep := fun x y =>
  (h x y).trans ⟨eqvGen_of_forall hTo, eqvGen_of_forall hFrom⟩

/-- `R` with one more pair. -/
def Adding (R : α → α → Prop) (a b : α) (x y : α) : Prop := R x y ∨ x = a ∧ y = b

theorem adding_le {S : α → α → Prop} (hR : ∀ x y, R x y → EqvGen S x y) {a b : α}
    (hab : EqvGen S a b) (x y : α) (h : Adding R a b x y) : EqvGen S x y := by
  rcases h with h | ⟨rfl, rfl⟩
  · exact hR x y h
  · exact hab

theorem le_adding (a b x y : α) (h : R x y) : EqvGen (Adding R a b) x y := .rel x y (Or.inl h)

theorem adding_self (a b : α) : EqvGen (Adding R a b) a b := .rel a b (Or.inr ⟨rfl, rfl⟩)

theorem adding_congr {a b a' b' : α} (ha : EqvGen R a a') (hb : EqvGen R b b') (x y : α)
    (h : Adding R a b x y) : EqvGen (Adding R a' b') x y :=
  adding_le (le_adding a' b') (.trans _ _ _ (eqvGen_of_forall (le_adding a' b') ha)
    (.trans _ _ _ (adding_self a' b') (.symm _ _ (eqvGen_of_forall (le_adding a' b') hb)))) x y h

theorem adding_symm (a b x y : α) (h : Adding R a b x y) : EqvGen (Adding R b a) x y :=
  adding_le (le_adding b a) (.symm _ _ (adding_self b a)) x y h

theorem Names.join (h : Names R rep) (a b : α) [DecidableEq β] :
    Names (Adding R a b) fun x => if rep x = rep a then rep b else rep x := by
  have hOld {x y : α} (hxy : EqvGen R x y) : EqvGen (Adding R a b) x y :=
    eqvGen_of_forall (le_adding a b) hxy
  have hTo (x : α) : EqvGen (Adding R a b) x (if rep x = rep a then b else x) := by
    split
    · next hx => exact .trans _ _ _ (hOld ((h x a).mp hx)) (adding_self a b)
    · exact .refl x
  have hRep (x : α) :
      (if rep x = rep a then rep b else rep x) = rep (if rep x = rep a then b else x) := by
    split <;> rfl
  intro x y
  constructor
  · intro hEq
    dsimp only at hEq
    rw [hRep, hRep] at hEq
    exact .trans _ _ _ (hTo x) (.trans _ _ _ (hOld ((h _ _).mp hEq)) (.symm _ _ (hTo y)))
  · intro hxy
    dsimp only
    induction hxy with
    | rel x y hR =>
      rcases hR with hR | ⟨rfl, rfl⟩
      · rw [(h x y).mpr (.rel x y hR)]
      · rw [if_pos rfl]
        split <;> rfl
    | refl x => rfl
    | symm x y _ ih => exact ih.symm
    | trans x y z _ _ ih ih' => exact ih.trans ih'

end Classes

end TensorFlowOnSpark.DisjointForest
