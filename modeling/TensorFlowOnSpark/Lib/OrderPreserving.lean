import Mathlib.Data.Prod.TProd

/-!
# Codes that keep the order

A code writes values as words, so that a word can be read back whatever follows it, and
the greater of two values has the greater word.
-/

namespace TensorFlowOnSpark.OrderPreserving

universe u v w

variable {β : Type v} [LT β]

inductive Below : List β → List β → Prop where
  | head {a b : β} (s t : List β) (h : a < b) : Below (a :: s) (b :: t)
  | cons (a : β) {s t : List β} (h : Below s t) : Below (a :: s) (a :: t)

namespace Below

variable {s t : List β}

theorem append (h : Below s t) (s' t' : List β) : Below (s ++ s') (t ++ t') := by
  induction h with
  | head s t h => exact .head _ _ h
  | cons a _ ih => exact .cons a ih

theorem prepend (h : Below s t) (before : List β) : Below (before ++ s) (before ++ t) := by
  induction before with
  | nil => exact h
  | cons a before ih => exact .cons a ih

theorem lt (h : Below s t) : s < t := by
  induction h with
  | head s t h => exact .rel h
  | cons a _ ih => exact .cons ih

variable [Std.Asymm (α := β) (· < ·)]

theorem neither_starts (h : Below s t) : ¬s <+: t ∧ ¬t <+: s := by
  induction h with
  | @head a b s t h =>
    constructor
    · rintro ⟨more, hMore⟩
      cases hMore
      exact Std.Asymm.asymm (r := (· < ·)) _ _ h h
    · rintro ⟨more, hMore⟩
      cases hMore
      exact Std.Asymm.asymm (r := (· < ·)) _ _ h h
  | cons a _ ih =>
    simp only [List.prefix_cons_inj]
    exact ih

end Below

structure Code (α : Type u) (β : Type v) [LT β] where
  lt : α → α → Prop
  write : α → List β
  read : List β → Option (α × List β)
  trichotomous : ∀ x y, lt x y ∨ x = y ∨ lt y x
  read_write : ∀ x rest, read (write x ++ rest) = some (x, rest)
  below : ∀ x y, lt x y → Below (write x) (write y)

namespace Code

variable {α : Type u} (C : Code α β)

section Order

variable [Std.Asymm (α := β) (· < ·)]

theorem write_lt_write {x y : α} : C.write x < C.write y ↔ C.lt x y := by
  constructor
  · intro h
    rcases C.trichotomous x y with hLess | rfl | hGreater
    · exact hLess
    · exact absurd h (List.lt_irrefl _)
    · exact absurd h (List.lt_asymm (C.below y x hGreater).lt)
  · exact fun h => (C.below x y h).lt

theorem prefix_free {x y : α} (h : C.write x <+: C.write y) : x = y := by
  rcases C.trichotomous x y with hLess | hSame | hGreater
  · exact absurd h (C.below x y hLess).neither_starts.1
  · exact hSame
  · exact absurd h (C.below y x hGreater).neither_starts.2

end Order

def unit : Code PUnit β where
  lt _ _ := False
  write _ := []
  read src := some (⟨⟩, src)
  trichotomous _ _ := .inr (.inl rfl)
  read_write _ _ := rfl
  below _ _ h := h.elim

/-- A pair, its first field first. -/
def pair {α' : Type u} (C : Code α β) (C' : Code α' β) : Code (α × α') β where
  lt x y := C.lt x.1 y.1 ∨ x.1 = y.1 ∧ C'.lt x.2 y.2
  write x := C.write x.1 ++ C'.write x.2
  read src := (C.read src).bind fun (first, rest) =>
    (C'.read rest).map fun (second, rest) => ((first, second), rest)
  trichotomous x y := by
    rcases C.trichotomous x.1 y.1 with hLess | hSame | hGreater
    · exact .inl (.inl hLess)
    · rcases C'.trichotomous x.2 y.2 with hLess | hSame' | hGreater
      · exact .inl (.inr ⟨hSame, hLess⟩)
      · exact .inr (.inl (Prod.ext hSame hSame'))
      · exact .inr (.inr (.inr ⟨hSame.symm, hGreater⟩))
    · exact .inr (.inr (.inl hGreater))
  read_write x rest := by
    rw [List.append_assoc, C.read_write]
    simp only [Option.bind_some, C'.read_write, Option.map_some]
  below x y h := by
    rcases h with hLess | ⟨hSame, hLess⟩
    · exact (C.below _ _ hLess).append _ _
    · rw [hSame]
      exact (C'.below _ _ hLess).prepend _

def tuple {ι : Type w} {V : ι → Type u} (C : (i : ι) → Code (V i) β) :
    (fields : List ι) → Code (fields.TProd V) β
  | [] => unit
  | i :: fields => (C i).pair (tuple C fields)

end Code

end TensorFlowOnSpark.OrderPreserving
