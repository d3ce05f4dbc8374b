import Mathlib.Logic.Basic

/-!
# Transition systems whose steps may be disabled or may abort

A program of several threads is a step function: the state, and the thread section that
runs next, give the next state.
-/

namespace TensorFlowOnSpark.Transition

universe u v w

variable {σ : Type u} {α : Type v} {ε : Type w}

inductive Outcome (σ : Type u) (ε : Type w) where
  | blocked
  | failed (check : ε)
  | next (state : σ)

def Outcome.map {τ : Type*} (f : σ → τ) : Outcome σ ε → Outcome τ ε
  | .blocked => .blocked
  | .failed check => .failed check
  | .next s => .next (f s)

theorem Outcome.map_eq_next {τ : Type*} {f : σ → τ} {outcome : Outcome σ ε} {t : τ} :
    outcome.map f = .next t ↔ ∃ s, outcome = .next s ∧ f s = t := by
  cases outcome with
  | blocked => simp [Outcome.map]
  | failed check => simp [Outcome.map]
  | next s => simp [Outcome.map]

/-- The states that a run from `start` reaches when every step is `allowed`. -/
inductive Reach (step : σ → α → Outcome σ ε) (allowed : σ → α → Prop) (start : σ) : σ → Prop where
  | refl : Reach step allowed start start
  | tail {s s' : σ} {a : α} (run : Reach step allowed start s) (ok : allowed s a)
      (next : step s a = .next s') : Reach step allowed start s'

def anyStep (_ : σ) (_ : α) : Prop := True

variable {step : σ → α → Outcome σ ε} {allowed : σ → α → Prop} {start s : σ}

theorem Reach.invariant (Inv : σ → Prop) (hStart : Inv start)
    (hStep : ∀ s a s', Inv s → allowed s a → step s a = .next s' → Inv s')
    (h : Reach step allowed start s) : Inv s := by
  induction h with
  | refl => exact hStart
  | tail _ ok next ih => exact hStep _ _ _ ih ok next

theorem Reach.mono {allowed' : σ → α → Prop} (hSub : ∀ s a, allowed s a → allowed' s a)
    (h : Reach step allowed start s) : Reach step allowed' start s := by
  induction h with
  | refl => exact .refl
  | tail _ ok next ih => exact .tail ih (hSub _ _ ok) next

theorem Reach.relabel_allowed {β : Type*} {step' : σ → β → Outcome σ ε} {allowed' : σ → β → Prop}
    (name : α → β) (hStep : ∀ s a, allowed s a → step s a = step' s (name a))
    (hAllowed : ∀ s a, allowed s a → allowed' s (name a)) (h : Reach step allowed start s) :
    Reach step' allowed' start s := by
  induction h with
  | refl => exact .refl
  | tail _ ok next ih => exact .tail ih (hAllowed _ _ ok) ((hStep _ _ ok).symm.trans next)

theorem Reach.relabel {β : Type*} {step' : σ → β → Outcome σ ε} {allowed' : σ → β → Prop}
    (name : α → β) (hStep : ∀ s a, step s a = step' s (name a))
    (hAllowed : ∀ s a, allowed s a → allowed' s (name a)) (h : Reach step allowed start s) :
    Reach step' allowed' start s :=
  h.relabel_allowed name (fun s a _ => hStep s a) hAllowed

/-- Runs a schedule as long as each of its steps passes the test `ok`. -/
def exec (step : σ → α → Outcome σ ε) (ok : σ → α → Bool) (s : σ) : List α → Outcome σ ε
  | [] => .next s
  | a :: rest =>
    match ok s a, step s a with
    | true, .next s' => exec step ok s' rest
    | true, .failed check => .failed check
    | _, _ => .blocked

theorem reach_of_exec {ok : σ → α → Bool}
    {s' : σ} (hOk : ∀ s a, ok s a → allowed s a)
    (hRun : Reach step allowed start s) (schedule : List α)
    (h : exec step ok s schedule = .next s') : Reach step allowed start s' := by
  induction schedule generalizing s with
  | nil =>
    cases h
    exact hRun
  | cons a rest ih =>
    rw [exec] at h
    split at h
    · rename_i s₁ hTest hStep
      exact ih (.tail hRun (hOk s a hTest) hStep) h
    · cases h
    · cases h

def Outcome.holds (test : σ → Bool) : Outcome σ ε → Bool
  | .next s => test s
  | .blocked => false
  | .failed _ => false

theorem Outcome.holds_iff {test : σ → Bool} {o : Outcome σ ε} :
    o.holds test ↔ ∃ s, o = .next s ∧ test s := by
  cases o with
  | next s => simp [Outcome.holds]
  | blocked => simp [Outcome.holds]
  | failed check => simp [Outcome.holds]

def Outcome.fails [DecidableEq ε] (check : ε) : Outcome σ ε → Bool
  | .failed check' => check' = check
  | .blocked => false
  | .next _ => false

theorem Outcome.fails_iff [DecidableEq ε] {check : ε} {o : Outcome σ ε} :
    o.fails check ↔ o = .failed check := by
  cases o with
  | next s => simp [Outcome.fails]
  | blocked => simp [Outcome.fails]
  | failed check' => simp [Outcome.fails]

theorem exists_reach_of_exec (step : σ → α → Outcome σ ε) (start : σ)
    (ok : σ → α → Bool) (hOk : ∀ s a, ok s a → allowed s a) (schedule : List α)
    (test : σ → Bool) (h : (exec step ok start schedule).holds test) :
    ∃ s, Reach step allowed start s ∧ test s := by
  obtain ⟨s, hExec, hTest⟩ := Outcome.holds_iff.mp h
  exact ⟨s, reach_of_exec hOk .refl schedule hExec, hTest⟩

def always (_ : σ) (_ : α) : Bool := true

theorem anyStep_of_always (s : σ) (a : α) (_ : always s a) : anyStep s a := trivial

end TensorFlowOnSpark.Transition
