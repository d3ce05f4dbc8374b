import Mathlib.Algebra.GroupWithZero.Nat
import Mathlib.Algebra.Order.Group.Int
import Mathlib.Data.List.Basic

/-!
# Basic indexing

The expressions `a, b:c:d, ..., newaxis` that index an array: the indices that each of them
selects, as Python's `slice.indices` and `range` give them, and the shape of the result.
-/

namespace TensorFlowOnSpark.BasicIndexing

open List Int

def rangeLength (start stop step : Int) : Nat :=
  if 0 < step then if start < stop then ((stop - start - 1) / step + 1).toNat else 0
  else if stop < start then ((start - stop - 1) / (-step) + 1).toNat else 0

def range (start stop step : Int) : List Int :=
  (List.range (rangeLength start stop step)).map fun k : Nat => start + k * step

@[simp] theorem length_range (start stop step : Int) :
    (range start stop step).length = rangeLength start stop step := by
  rw [range, length_map, List.length_range]

theorem lt_quotient {distance step : Int} (hStep : 0 < step) (_ : 0 ≤ distance) (k : Nat) :
    k < (distance / step + 1).toNat ↔ k * step ≤ distance := by
  rw [← Int.le_ediv_iff_mul_le hStep]
  omega

theorem lt_rangeLength {start stop step : Int} (h : step ≠ 0) (k : Nat) :
    k < rangeLength start stop step ↔
      if 0 < step then start + k * step < stop else stop < start + k * step := by
  unfold rangeLength
  split
  · rename_i hForward
    have hAhead := Int.mul_nonneg (natCast_nonneg k) (le_of_lt hForward)
    split
    · rw [lt_quotient hForward (by omega)]
      omega
    · omega
  · rename_i hBackward
    have hBack : 0 < -step := by omega
    have hBehind := Int.mul_nonneg (natCast_nonneg k) (le_of_lt hBack)
    rw [Int.mul_neg] at hBehind
    split
    · rw [lt_quotient hBack (by omega), Int.mul_neg]
      omega
    · omega

theorem range_single {start step : Int} (h : 0 < step) :
    range start (start + 1) step = [start] := by
  have hOne : rangeLength start (start + 1) step = 1 := by
    have hZero : (start + 1 - start - 1) / step = 0 := by
      rw [show start + 1 - start - 1 = 0 by omega, zero_ediv]
    rw [rangeLength, if_pos h, if_pos (by omega), hZero]
    rfl
  rw [range, hOne]
  simp

/-- `start:stop:step` -/
structure Slice where
  start : Option Int
  stop : Option Int
  step : Int
deriving DecidableEq

namespace Slice

def all : Slice := ⟨none, none, 1⟩

variable (s : Slice) (n : Nat)

def lower : Int := if s.step < 0 then -1 else 0

def upper : Int := if s.step < 0 then n - 1 else n

def clip (x : Int) : Int := if x < 0 then max (x + n) s.lower else min x (s.upper n)

def first : Int :=
  match s.start with
  | some x => s.clip n x
  | none => if s.step < 0 then s.upper n else s.lower

def last : Int :=
  match s.stop with
  | some x => s.clip n x
  | none => if s.step < 0 then s.lower else s.upper n

def selected : List Int := range (s.first n) (s.last n) s.step

end Slice

inductive Item where
  | ellipsis
  | newAxis
  | index (i : Int)
  | slice (s : Slice)
deriving DecidableEq

def Item.consumes : Item → Nat
  | .ellipsis | .newAxis => 0
  | .index _ | .slice _ => 1

def consumed (items : List Item) : Nat := (items.map Item.consumes).sum

@[simp] theorem consumed_append (items more : List Item) :
    consumed (items ++ more) = consumed items + consumed more := by
  rw [consumed, map_append, sum_append]
  rfl

@[simp] theorem consumed_cons (item : Item) (items : List Item) :
    consumed (item :: items) = item.consumes + consumed items := rfl

/-- An ellipsis stands for the dimensions that are left; there is one at the end if there is none.
There may not be two, nor too many items. -/
def expand (rank : Nat) (items : List Item) : Option (List Item) :=
  if 1 < items.count .ellipsis ∨ rank < consumed items then none
  else
    let left := replicate (rank - consumed items) (Item.slice Slice.all)
    some (if .ellipsis ∈ items then
        items.flatMap fun item => if item = .ellipsis then left else [item]
      else items ++ left)

structure Selection where
  selected : List (List Int)
  shape : List Nat
deriving DecidableEq

def select : List Item → List Nat → Option Selection
  | [], [] => some ⟨[], []⟩
  | .newAxis :: items, dims => (select items dims).map fun r => ⟨r.selected, 1 :: r.shape⟩
  | .index i :: items, n :: dims =>
    if -n ≤ i ∧ i < n then
      (select items dims).map fun r => ⟨[if i < 0 then i + n else i] :: r.selected, r.shape⟩
    else none
  | .slice s :: items, n :: dims =>
    if s.step = 0 then none
    else (select items dims).map fun r =>
      ⟨s.selected n :: r.selected, (s.selected n).length :: r.shape⟩
  | _, _ => none

def basicIndex (items : List Item) (dims : List Nat) : Option Selection :=
  (expand dims.length items).bind (select · dims)

theorem flatMap_keep {items left : List Item} (h : .ellipsis ∉ items) :
    (items.flatMap fun item => if item = .ellipsis then left else [item]) = items := by
  induction items with
  | nil => rfl
  | cons item items ih =>
    rw [mem_cons, not_or] at h
    rw [flatMap_cons, if_neg (Ne.symm h.1), ih h.2]
    rfl

theorem expand_ellipsis {before after : List Item} (hBefore : .ellipsis ∉ before)
    (hAfter : .ellipsis ∉ after) (rank : Nat) :
    expand rank (before ++ .ellipsis :: after) =
      if rank < consumed before + consumed after then none
      else some (before ++
        replicate (rank - (consumed before + consumed after)) (.slice .all) ++ after) := by
  have hCount : (before ++ Item.ellipsis :: after).count .ellipsis = 1 := by
    rw [count_append, count_cons_self, count_eq_zero.mpr hBefore, count_eq_zero.mpr hAfter]
  have hConsumed : consumed (before ++ Item.ellipsis :: after) =
      consumed before + consumed after := by
    rw [consumed_append, consumed_cons, Item.consumes, Nat.zero_add]
  have hMem : Item.ellipsis ∈ before ++ Item.ellipsis :: after :=
    mem_append_right _ mem_cons_self
  unfold expand
  simp only [hCount, hConsumed, Nat.lt_irrefl, false_or, if_pos hMem]
  rw [flatMap_append, flatMap_cons, flatMap_keep hBefore, flatMap_keep hAfter, if_pos rfl,
    append_assoc]

theorem expand_plain {items : List Item} (h : .ellipsis ∉ items) (rank : Nat) :
    expand rank items =
      if rank < consumed items then none
      else some (items ++ replicate (rank - consumed items) (.slice .all)) := by
  unfold expand
  simp only [count_eq_zero.mpr h, Nat.not_lt_zero, false_or, if_neg h]

/-- `x[1::2, ..., newaxis, -1]` -/
example : basicIndex [.slice ⟨some 1, none, 2⟩, .ellipsis, .newAxis, .index (-1)] [4, 2, 6] =
    some ⟨[[1, 3], [0, 1], [5]], [2, 2, 1]⟩ := by decide

end TensorFlowOnSpark.BasicIndexing
