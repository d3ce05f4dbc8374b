import Mathlib.Data.Set.Operations
import Mathlib.Logic.Relation

/-!
# A part spliced into a graph

The part has steps of its own.
-/

namespace TensorFlowOnSpark

universe u v

open Relation (ReflTransGen)

variable {N : Type u} {B : Type v}

structure Splice (adj : N → N → Prop) (step : B → B → Prop) (args rets : Set B) (place : B → N) :
    Prop where
  follows : ∀ {x y : B}, step x y → adj (place x) (place y)
  inner : ∀ {x y : B}, adj (place x) (place y) → step x y ∨ x ∈ rets ∧ y ∈ args
  enters : ∀ {n : N} {y : B}, n ∉ Set.range place → adj n (place y) → y ∈ args
  leaves : ∀ {x : B} {n : N}, n ∉ Set.range place → adj (place x) n → x ∈ rets

namespace Splice

variable {adj : N → N → Prop} {step : B → B → Prop} {args rets : Set B} {place : B → N}

variable (h : Splice adj step args rets place)
include h

theorem path {x y : B} (hPath : ReflTransGen step x y) : ReflTransGen adj (place x) (place y) :=
  hPath.lift place fun _ _ => h.follows

theorem entered {p n : N} (hOut : p ∉ Set.range place) (hReach : ReflTransGen adj p n) {x : B}
    (hPlace : place x = n) : ∃ a ∈ args, ReflTransGen step a x := by
  induction hReach generalizing x with
  | refl => exact absurd ⟨x, hPlace⟩ hOut
  | @tail m n _ hLast ih =>
    subst hPlace
    by_cases hIn : m ∈ Set.range place
    · obtain ⟨y, hy⟩ := hIn
      rw [← hy] at hLast
      rcases h.inner hLast with hStep | ⟨-, hArg⟩
      · obtain ⟨a, hArg, hPath⟩ := ih hy
        exact ⟨a, hArg, hPath.tail hStep⟩
      · exact ⟨x, hArg, ReflTransGen.refl⟩
    · exact ⟨x, h.enters hIn hLast, ReflTransGen.refl⟩

theorem left {n q : N} (hOut : q ∉ Set.range place) (hReach : ReflTransGen adj n q) {x : B}
    (hPlace : place x = n) : ∃ r ∈ rets, ReflTransGen step x r := by
  induction hReach using ReflTransGen.head_induction_on generalizing x with
  | refl => exact absurd ⟨x, hPlace⟩ hOut
  | @head n m hFirst _ ih =>
    subst hPlace
    by_cases hIn : m ∈ Set.range place
    · obtain ⟨y, hy⟩ := hIn
      rw [← hy] at hFirst
      rcases h.inner hFirst with hStep | ⟨hRet, -⟩
      · obtain ⟨r, hRet, hPath⟩ := ih hy
        exact ⟨r, hRet, hPath.head hStep⟩
      · exact ⟨x, hRet, ReflTransGen.refl⟩
    · exact ⟨x, h.leaves hIn hFirst, ReflTransGen.refl⟩

theorem reached_iff {p : N} (hOut : p ∉ Set.range place)
    (hArgs : ∀ a ∈ args, ReflTransGen adj p (place a)) {x : B} :
    ReflTransGen adj p (place x) ↔ ∃ a ∈ args, ReflTransGen step a x := by
  constructor
  · exact fun hReach => h.entered hOut hReach rfl
  · rintro ⟨a, hArg, hPath⟩
    exact (hArgs a hArg).trans (h.path hPath)

theorem reaches_iff {q : N} (hOut : q ∉ Set.range place)
    (hRets : ∀ r ∈ rets, ReflTransGen adj (place r) q) {x : B} :
    ReflTransGen adj (place x) q ↔ ∃ r ∈ rets, ReflTransGen step x r := by
  constructor
  · exact fun hReach => h.left hOut hReach rfl
  · rintro ⟨r, hRet, hPath⟩
    exact (h.path hPath).trans (hRets r hRet)

end Splice

end TensorFlowOnSpark
