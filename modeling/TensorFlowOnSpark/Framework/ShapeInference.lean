import TensorFlowOnSpark.Framework.Status
import TensorFlowOnSpark.Lib.Fallible
import Mathlib.Algebra.Group.Int.Defs
import Mathlib.Algebra.GroupWithZero.Nat

/-!
# Shape inference

The functions of `InferenceContext` of `framework/shape_inference.cc` on shapes and
dimensions that may be unknown.
-/

namespace TensorFlowOnSpark.Framework

/-- The size of a dimension, `none` for `kUnknownDim`. -/
abbrev Dim := Option Nat

/-- The dimensions of a shape, `none` for a shape of unknown rank. -/
abbrev Shape := Option (List Dim)

namespace Shape

def kUnknownRank : Int := -1

def int64Max : Int := 2 ^ 63 - 1

def rank : Shape → Int
  | none => kUnknownRank
  | some dims => dims.length

/-- `Dim`, of an index that is in the shape. -/
def dim (s : Shape) (idx : Int) : Dim :=
  match s with
  | none => none
  | some dims => dims.getD (if idx < 0 then dims.length + idx else idx).toNat none

def withRank (s : Shape) (rank : Nat) : Except Status Shape :=
  match s with
  | none => .ok (some (List.replicate rank none))
  | some dims =>
    if dims.length = rank then .ok s
    else .error (Errors.invalidArgument s!"Shape must be rank {rank} but is rank {dims.length}")

def withRankAtLeast (s : Shape) (rank : Int) : Except Status Shape :=
  match s with
  | none => if kUnknownRank ≥ rank then .ok s else .ok none
  | some dims =>
    if (dims.length : Int) ≥ rank then .ok s
    else .error (Errors.invalidArgument
      s!"Shape must be at least rank {rank} but is rank {dims.length}")

/-- `Merge` of two dimensions -/
def mergeDim : Dim → Dim → Except Status Dim
  | d0, none => .ok d0
  | none, d1 => .ok d1
  | some n0, some n1 =>
    if n0 = n1 then .ok (some n0)
    else .error (Errors.invalidArgument s!"Dimensions must be equal, but are {n0} and {n1}")

/-- The check that `Merge` of two shapes makes of their dimensions. -/
def mergeCheck (i : Nat) : Dim → Dim → Except Status Dim
  | some n0, some n1 =>
    if n0 = n1 then .ok (some n0)
    else .error (Errors.invalidArgument
      s!"Dimension {i} in both shapes must be equal, but are {n0} and {n1}")
  | d0, d1 => mergeDim d0 d1

def mergeDims : Nat → List Dim → List Dim → Except Status (List Dim)
  | i, d0 :: dims0, d1 :: dims1 => do
    let d ← mergeCheck i d0 d1
    let dims ← mergeDims (i + 1) dims0 dims1
    .ok (d :: dims)
  | _, _, _ => .ok []

/-- `Merge` of two shapes -/
def merge : Shape → Shape → Except Status Shape
  | s0, none => .ok s0
  | none, s1 => .ok s1
  | some dims0, some dims1 =>
    if dims0.length ≠ dims1.length then
      .error (Errors.invalidArgument
        s!"Shapes must be equal rank, but are {dims0.length} and {dims1.length}")
    else (mergeDims 0 dims0 dims1).map some

/-- A bound of `Subshape` in a shape of the rank, unless it is before its start. -/
def clampBound (rank bound : Int) : Int :=
  let bound := if bound > rank then rank else bound
  if bound < 0 then rank + bound else bound

def subshape (s : Shape) (start end_ : Int) : Except Status Shape :=
  match s with
  | none => .ok none
  | some dims =>
    let rank : Int := dims.length
    if start = 0 ∧ (end_ ≥ rank ∨ end_ = int64Max) then .ok s
    else if clampBound rank start < 0 then
      .error (Errors.invalidArgument
        s!"Subshape start out of bounds: {start}, for shape with rank {rank}")
    else if clampBound rank end_ < 0 then
      .error (Errors.invalidArgument
        s!"Subshape end out of bounds: {end_}, for shape with rank {rank}")
    else if clampBound rank start > clampBound rank end_ then
      .error (Errors.invalidArgument
        (s!"Subshape must have computed start <= end, but is {clampBound rank start} and " ++
          s!"{clampBound rank end_} (computed from start {start} and end {end_} over shape " ++
          s!"with rank {rank})"))
    else
      .ok (some ((dims.drop (clampBound rank start).toNat).take
        (clampBound rank end_ - clampBound rank start).toNat))

def concatenate : Shape → Shape → Shape
  | some dims0, some dims1 => some (dims0 ++ dims1)
  | _, _ => none

/-- `Add` of two dimensions, whose sum is an `int64`. -/
def add (first second : Dim) : Except Status Dim :=
  if first = some 0 then .ok second
  else if second = some 0 then .ok first
  else
    match first, second with
    | some n0, some n1 =>
      if ((n0 + n1 : Nat) : Int) ≤ int64Max then .ok (some (n0 + n1))
      else .error (Errors.invalidArgument s!"Dimension size overflow from adding {n0} and {n1}")
    | _, _ => .ok none

end Shape

/-- `DebugString` of a `TensorShape`. -/
def debugString (shape : List Nat) : String := "[" ++ ",".intercalate (shape.map toString) ++ "]"

def kMaxElements : Nat := 1 <<< 40

/-- The `CHECK` of `AddDim` and `RecomputeNumElements` after each dimension. A product that
is no `int64` counts as failing. -/
def elementsFit : Nat → List Nat → Bool
  | _, [] => true
  | n, size :: rest => n * size ≤ kMaxElements && elementsFit (n * size) rest

theorem elementsFit_mono {n m : Nat} {sizes sizes' : List Nat}
    (h : List.Forall₂ (· ≤ ·) sizes sizes') (hStart : n ≤ m) (hFit : elementsFit m sizes') :
    elementsFit n sizes := by
  induction h generalizing n m with
  | nil => rfl
  | cons hHead _ ih =>
    simp only [elementsFit, Bool.and_eq_true, decide_eq_true_eq] at hFit ⊢
    have hProduct := Nat.mul_le_mul hStart hHead
    exact ⟨Nat.le_trans hProduct hFit.1, ih hProduct hFit.2⟩

def Dim.Completes (n : Nat) (d : Dim) : Prop := ∀ m, d = some m → m = n

def Shape.Completes (sizes : List Nat) : Shape → Prop
  | none => True
  | some dims => List.Forall₂ Dim.Completes sizes dims

namespace Dim.Completes

@[simp] theorem none (n : Nat) : Completes n none := by
  intro m h
  cases h

@[simp] theorem some_iff {n m : Nat} : Completes n (some m) ↔ m = n := by
  constructor
  · intro h
    exact h m rfl
  · rintro rfl m h
    exact (Option.some.inj h).symm

end Dim.Completes

end TensorFlowOnSpark.Framework
