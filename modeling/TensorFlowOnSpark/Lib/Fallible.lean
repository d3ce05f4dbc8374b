import Mathlib.Data.List.Forall2

/-!
# Fallible computations

Rules for `Except`: how a sequence of steps succeeds, and what holds however it ends.
-/

namespace TensorFlowOnSpark.Fallible

universe u v w

open List

variable {ε : Type u} {α β : Type v}
variable {f : α → Except ε β}

theorem bind_eq_ok {x : Except ε α} {b : β} :
    x >>= f = .ok b ↔ ∃ a, x = .ok a ∧ f a = .ok b := by
  cases x with
  | error e => simp [bind, Except.bind]
  | ok a => simp [bind, Except.bind]

theorem ok_bind (a : α) (f : α → Except ε β) : (.ok a : Except ε α) >>= f = f a := rfl

theorem exists_unit {p : Unit → Prop} : (∃ u, p u) ↔ p () :=
  ⟨fun ⟨(), h⟩ => h, fun h => ⟨(), h⟩⟩

theorem mapError_eq_ok {ε' : Type w} {x : Except ε α} {f : ε → ε'} {a : α} :
    x.mapError f = .ok a ↔ x = .ok a := by
  cases x <;> simp [Except.mapError]

variable {γ : Type u}

theorem forall₂_mem_right {R : γ → α → Prop} {xs : List γ} {ys : List α} (h : Forall₂ R xs ys)
    {y : α} (hMem : y ∈ ys) : ∃ x ∈ xs, R x y := by
  induction h with
  | nil => cases hMem
  | cons hHead hTail ih =>
    cases hMem with
    | head => exact ⟨_, mem_cons_self, hHead⟩
    | tail _ hMem =>
      obtain ⟨x, hx, hR⟩ := ih hMem
      exact ⟨x, mem_cons_of_mem _ hx, hR⟩

theorem mapM_eq_ok {f : γ → Except ε α} {as : List γ} {bs : List α} :
    as.mapM f = .ok bs ↔ Forall₂ (fun a b => f a = .ok b) as bs := by
  induction as generalizing bs with
  | nil =>
    rw [forall₂_nil_left_iff]
    constructor
    · intro h
      exact (Except.ok.inj h).symm
    · rintro rfl
      rfl
  | cons a as ih =>
    rw [mapM_cons, forall₂_cons_left_iff]
    simp only [bind_eq_ok]
    constructor
    · rintro ⟨b, hHead, bs', hTail, hBs⟩
      exact ⟨b, bs', hHead, ih.mp hTail, (Except.ok.inj hBs).symm⟩
    · rintro ⟨b, bs', hHead, hTail, rfl⟩
      exact ⟨b, hHead, bs', ih.mpr hTail, rfl⟩

theorem mapM_isOk {f : γ → Except ε α} {as : List γ} (h : ∀ a ∈ as, ∃ b, f a = .ok b)
    : ∃ bs, as.mapM f = .ok bs := by
  induction as with
  | nil => exact ⟨[], rfl⟩
  | cons a as ih =>
    rw [forall_mem_cons] at h
    obtain ⟨b, hHead⟩ := h.1
    obtain ⟨bs, hTail⟩ := ih h.2
    exact ⟨b :: bs, mapM_eq_ok.mpr (Forall₂.cons hHead (mapM_eq_ok.mp hTail))⟩

/-- The computation gives a value with `Q` or fails with `E`. -/
def Ends (Q : α → Prop) (E : ε → Prop) : Except ε α → Prop
  | .ok a => Q a
  | .error e => E e

namespace Ends

variable {Q : α → Prop} {E : ε → Prop} {x : Except ε α}

theorem ok {a : α} (h : Q a) : Ends Q E (.ok a) := h

theorem error {e : ε} (h : E e) : Ends Q E (.error e) := h

theorem bind {R : β → Prop} (h : Ends Q E x) (hNext : ∀ a, x = .ok a → Q a → Ends R E (f a))
    : Ends R E (x >>= f) := by
  cases x with
  | error e => exact h
  | ok a => exact hNext a rfl h

theorem mono {Q' : α → Prop} {E' : ε → Prop} (h : Ends Q E x) (hOk : ∀ a, Q a → Q' a)
    (hError : ∀ e, E e → E' e) : Ends Q' E' x := by
  cases x with
  | error e => exact hError e h
  | ok a => exact hOk a h

theorem of_ok (h : Ends Q E x) {a : α} (hOk : x = .ok a) : Q a := by
  rw [hOk] at h
  exact h

theorem of_error (h : Ends Q E x) {e : ε} (hError : x = .error e) : E e := by
  rw [hError] at h
  exact h

theorem foldlM {f : α → γ → Except ε α} (h : ∀ a c, Q a → Ends Q E (f a c)) {cs : List γ} {a : α}
    (hStart : Q a) : Ends Q E (cs.foldlM f a) := by
  induction cs generalizing a with
  | nil => exact hStart
  | cons c cs ih =>
    rw [foldlM_cons]
    exact (h a c hStart).bind fun _ _ hNext => ih hNext

theorem mapM {f : γ → Except ε α} {cs : List γ} (h : ∀ c ∈ cs, Ends Q E (f c)) :
    Ends (fun as => ∀ a ∈ as, Q a) E (cs.mapM f) := by
  induction cs with
  | nil => exact fun _ hMem => absurd hMem not_mem_nil
  | cons c cs ih =>
    rw [forall_mem_cons] at h
    rw [mapM_cons]
    exact h.1.bind fun _ _ hHead => (ih h.2).bind fun _ _ hTail =>
      forall_mem_cons.mpr ⟨hHead, hTail⟩

theorem mapError {ε' : Type w} {f : ε → ε'} {E' : ε' → Prop} (h : ∀ e, E' (f e)) :
    Ends (fun a => x = .ok a) E' (x.mapError f) := by
  cases x with
  | error e => exact h e
  | ok a => exact rfl

end Ends

end TensorFlowOnSpark.Fallible
