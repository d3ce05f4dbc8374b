import Mathlib.Data.Nat.Find
import Mathlib.Logic.Function.Iterate

/-!
# While loops

A loop tests its guard before each turn.
-/

namespace TensorFlowOnSpark.WhileLoop

open Nat

universe u

variable {σ : Type u}

structure Loop (σ : Type u) where
  guard : σ → Prop
  body : σ → σ

inductive Leaves (loop : Loop σ) : σ → σ → Prop where
  | stop {s : σ} (out : ¬loop.guard s) : Leaves loop s s
  | turn {s s' : σ} (inside : loop.guard s) (rest : Leaves loop (loop.body s) s') :
    Leaves loop s s'

def Ends (loop : Loop σ) (s : σ) : Prop := ∃ s', Leaves loop s s'

variable {loop : Loop σ} {s s' s'' : σ}

theorem Leaves.out (h : Leaves loop s s') : ¬loop.guard s' := by
  induction h with
  | stop out => exact out
  | turn _ _ ih => exact ih

theorem Leaves.unique (h : Leaves loop s s') (h' : Leaves loop s s'') : s' = s'' := by
  induction h with
  | stop out =>
    cases h' with
    | stop _ => rfl
    | turn inside _ => exact absurd inside out
  | turn inside _ ih =>
    cases h' with
    | stop out => exact absurd inside out
    | turn _ rest => exact ih rest

theorem Leaves.invariant (Inv : σ → Prop) (hTurn : ∀ s, Inv s → loop.guard s → Inv (loop.body s))
    (h : Leaves loop s s') (hStart : Inv s) : Inv s' := by
  induction h with
  | stop _ => exact hStart
  | turn inside _ ih => exact ih (hTurn _ hStart inside)

theorem leaves_of_iterate {n : Nat} (hIn : ∀ m < n, loop.guard (loop.body^[m] s))
    (hOut : ¬loop.guard (loop.body^[n] s)) : Leaves loop s (loop.body^[n] s) := by
  induction n generalizing s with
  | zero => exact .stop hOut
  | succ n ih =>
    refine .turn (hIn 0 (succ_pos n)) (ih (s := loop.body s) (fun m hm => ?_) hOut)
    exact hIn (m + 1) (succ_lt_succ hm)

theorem Leaves.iterate (h : Leaves loop s s') :
    ∃ n, s' = loop.body^[n] s ∧ ∀ m < n, loop.guard (loop.body^[m] s) := by
  induction h with
  | stop _ => exact ⟨0, rfl, nofun⟩
  | turn inside _ ih =>
    obtain ⟨n, hEnd, hIn⟩ := ih
    refine ⟨n + 1, hEnd, fun m hm => ?_⟩
    cases m with
    | zero => exact inside
    | succ m => exact hIn m (lt_of_succ_lt_succ hm)

theorem ends_iff : Ends loop s ↔ ∃ n, ¬loop.guard (loop.body^[n] s) := by
  constructor
  · rintro ⟨s', h⟩
    obtain ⟨n, rfl, _⟩ := h.iterate
    exact ⟨n, h.out⟩
  · intro h
    classical
    refine ⟨_, leaves_of_iterate (n := Nat.find h) (fun m hm => ?_) (Nat.find_spec h)⟩
    exact not_not.mp (Nat.find_min h hm)

theorem not_ends (Inv : σ → Prop) (hGuard : ∀ s, Inv s → loop.guard s)
    (hTurn : ∀ s, Inv s → Inv (loop.body s)) (hStart : Inv s) : ¬Ends loop s := by
  rintro ⟨s', h⟩
  exact h.out (hGuard s' (h.invariant Inv (fun s hInv _ => hTurn s hInv) hStart))

theorem ends_of_measure (Inv : σ → Prop) (measure : σ → Nat)
    (hTurn : ∀ s, Inv s → loop.guard s → Inv (loop.body s) ∧ measure (loop.body s) < measure s)
    (hStart : Inv s) : Ends loop s := by
  induction hMeasure : measure s using Nat.strongRecOn generalizing s with
  | ind n ih =>
    by_cases hGuard : loop.guard s
    · obtain ⟨hInv, hLess⟩ := hTurn s hStart hGuard
      obtain ⟨s', h⟩ := ih _ (hMeasure ▸ hLess) hInv rfl
      exact ⟨s', .turn hGuard h⟩
    · exact ⟨s, .stop hGuard⟩

end TensorFlowOnSpark.WhileLoop
