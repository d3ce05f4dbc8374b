import TensorFlowOnSpark.Framework.ShapeInference

/-!
# Concatenation

`ConcatShapeHelper` of `framework/common_shape_fns.cc`, and the checks and the output shape
of `ConcatBaseOp::Compute` of `kernels/concat_op.cc`.
-/

namespace TensorFlowOnSpark.Framework

open Fallible List Except Nat

namespace Shape

def ofSizes (sizes : List Nat) : Shape := some (sizes.map some)

def commonRank : List Shape → Int → Except Status Int
  | [], rank => .ok rank
  | s :: rest, rank => do
    let rank := if rank = kUnknownRank then s.rank else rank
    if rank ≠ kUnknownRank then
      let _ ← s.withRank rank.toNat
      commonRank rest rank
    else commonRank rest rank

def concatParts (concatDim : Int) (input : Shape) : Except Status (Shape × Dim × Shape) := do
  let minRank := if concatDim < 0 then -concatDim else concatDim + 1
  let input ← input.withRankAtLeast minRank
  let before ← input.subshape 0 concatDim
  let after ← input.subshape (concatDim + 1) int64Max
  .ok (before, input.dim concatDim, after)

def concatMore (concatDim : Int) : List Shape → Shape × Dim × Shape →
    Except Status (Shape × Dim × Shape)
  | [], output => .ok output
  | input :: rest, (outputBefore, outputMiddle, outputAfter) => do
    let (before, middle, after) ← concatParts concatDim input
    let outputBefore ← before.merge outputBefore
    let outputMiddle ← add outputMiddle middle
    let outputAfter ← after.merge outputAfter
    concatMore concatDim rest (outputBefore, outputMiddle, outputAfter)

def joinParts (parts : Shape × Dim × Shape) : Shape :=
  (parts.1.concatenate (some [parts.2.1])).concatenate parts.2.2

/-- The shape that `ConcatShapeHelper` infers from the shape of the axis, its value if it
is known, and the inputs. -/
def concatShapeHelper (dimShape : Shape) (concatDim : Option Int) (inputs : List Shape) :
    Except Status Shape := do
  let _ ← dimShape.withRank 0
  match concatDim with
  | none => do
    let rank ← commonRank inputs kUnknownRank
    if rank = kUnknownRank then .ok none
    else if rank = 0 then
      .error (Errors.invalidArgument "Can't concatenate scalars (use tf.pack instead)")
    else .ok (some (replicate rank.toNat none))
  | some concatDim =>
    match inputs.reverse with
    | [] => .ok none -- an op has at least one input
    | last :: rest => do
      let parts ← concatParts concatDim last
      let parts ← concatMore concatDim rest parts
      .ok (joinParts parts)

end Shape

namespace Concat

/-- How a computation stops early: a failed `OP_REQUIRES` or a failed `CHECK`. -/
inductive Failure where
  | status (status : Status)
  | check
deriving DecidableEq, Repr

/-- `legacy` is `allow_legacy_scalars()`. -/
def isLegacyScalar (legacy : Bool) (shape : List Nat) : Bool :=
  shape.isEmpty || (legacy && shape == [1])

/-- The loop over the inputs, with the sum of their sizes along the axis. -/
def checkInputs (legacy : Bool) (first : List Nat) (axis : Int) :
    Nat → List (List Nat) → Nat → Except Status Nat
  | _, [], outputConcatDim => .ok outputConcatDim
  | i, input :: rest, outputConcatDim =>
    if ¬ (input.length = first.length ∨
        (isLegacyScalar legacy first ∧ isLegacyScalar legacy input)) then
      .error (Errors.invalidArgument
        (s!"ConcatOp : Ranks of all input tensors should match: shape[0] = {debugString first}" ++
          s!" vs. shape[{i}] = {debugString input}"))
    else if ∃ j < first.length, (j : Int) ≠ axis ∧ input.getD j 0 ≠ first.getD j 0 then
      .error (Errors.invalidArgument
        (s!"ConcatOp : Dimensions of inputs should match: shape[0] = {debugString first}" ++
          s!" vs. shape[{i}] = {debugString input}"))
    else
      checkInputs legacy first axis (i + 1) rest
        (outputConcatDim + if 0 < input.length then input.getD axis.toNat 0 else 1)

def axisOf (concatDim : Int) (inputDims : Nat) : Int :=
  if concatDim < 0 then concatDim + inputDims else concatDim

/-- The `OP_REQUIRES` of `Compute` that are about the shapes. -/
def shapeChecks (legacy : Bool) (concatDim : Int) (first : List Nat) (values : List (List Nat)) :
    Except Status Nat :=
  let axis := axisOf concatDim first.length
  if (0 ≤ axis ∧ axis < first.length) ∨ (legacy ∧ concatDim = 0) then
    checkInputs legacy first axis 0 values 0
  else
    .error (Errors.invalidArgument
      (s!"ConcatOp : Expected concatenating dimensions in the range [{-(first.length : Int)}, " ++
        s!"{first.length}), but got {concatDim}"))

def joinedSizes (axis : Int) (first : List Nat) (outputConcatDim : Nat) : List Nat :=
  if first.isEmpty then [outputConcatDim] else first.set axis.toNat outputConcatDim

/-- The shape of the output; a sum that is no `int64` counts as failing. -/
def outputShape (legacy : Bool) (concatDim : Int) (values : List (List Nat)) :
    Except Failure (List Nat) :=
  let first := values.headD []
  match shapeChecks legacy concatDim first values with
  | .error status => .error (.status status)
  | .ok outputConcatDim =>
    let sizes := joinedSizes (axisOf concatDim first.length) first outputConcatDim
    if outputConcatDim ≤ Shape.int64Max ∧ elementsFit 1 sizes then .ok sizes else .error .check

end Concat

variable {inputs : List Shape}
variable {sizes : List Nat}

namespace Shape

theorem mergeDims_ofSizes (i : Nat) (xs ys : List Nat) (hLength : xs.length = ys.length)
    (dims : List Dim) :
    mergeDims i (xs.map some) (ys.map some) = .ok dims ↔ xs = ys ∧ dims = xs.map some := by
  induction xs generalizing i ys dims with
  | nil =>
    cases ys with
    | nil => simp [mergeDims]
    | cons y ys => cases hLength
  | cons x xs ih =>
    cases ys with
    | nil => cases hLength
    | cons y ys =>
      simp only [map_cons, mergeDims, mergeCheck, bind_eq_ok, ih (i + 1) ys (succ.inj hLength)]
      constructor
      · rintro ⟨d, hd, dims', ⟨rfl, rfl⟩, hDims⟩
        split at hd
        · rename_i hSame
          rw [← ok.inj hDims, ← ok.inj hd, hSame]
          exact ⟨rfl, rfl⟩
        · cases hd
      · rintro ⟨hSame, rfl⟩
        obtain ⟨rfl, rfl⟩ := cons.inj hSame
        exact ⟨some x, if_pos rfl, xs.map some, ⟨rfl, rfl⟩, rfl⟩

theorem merge_ofSizes (xs ys : List Nat) (s : Shape) :
    merge (ofSizes xs) (ofSizes ys) = .ok s ↔ xs = ys ∧ s = ofSizes xs := by
  simp only [ofSizes, merge, length_map]
  by_cases hLength : xs.length = ys.length
  · rw [if_neg (not_not.mpr hLength)]
    have hDims := mergeDims_ofSizes 0 xs ys hLength
    constructor
    · intro h
      cases hMerge : mergeDims 0 (xs.map some) (ys.map some) with
      | error e =>
        rw [hMerge] at h
        cases h
      | ok dims =>
        rw [hMerge] at h
        obtain ⟨hSame, rfl⟩ := (hDims dims).mp hMerge
        exact ⟨hSame, (ok.inj h).symm⟩
    · rintro ⟨hSame, rfl⟩
      rw [(hDims (xs.map some)).mpr ⟨hSame, rfl⟩]
      rfl
  · rw [if_pos hLength]
    constructor
    · intro h
      cases h
    · rintro ⟨rfl, -⟩
      exact absurd rfl hLength

variable {n a rank : Nat} {concatDim : Int} {v w : List Nat}

theorem mergeCheck_completes {i : Nat} {d0 d1 : Dim} (h0 : Dim.Completes n d0)
    (h1 : Dim.Completes n d1) : ∃ d, mergeCheck i d0 d1 = .ok d ∧ Dim.Completes n d := by
  cases d0 with
  | none =>
    cases d1 with
    | none => exact ⟨none, rfl, h0⟩
    | some m => exact ⟨some m, rfl, h1⟩
  | some m =>
    cases d1 with
    | none => exact ⟨some m, rfl, h0⟩
    | some m' =>
      obtain rfl := Dim.Completes.some_iff.mp h0
      obtain rfl := Dim.Completes.some_iff.mp h1
      exact ⟨some m', by simp [mergeCheck], h0⟩

theorem mergeDims_completes {dims0 dims1 : List Dim} (i : Nat)
    (h0 : Forall₂ Dim.Completes sizes dims0) (h1 : Forall₂ Dim.Completes sizes dims1) :
    ∃ dims, mergeDims i dims0 dims1 = .ok dims ∧ Forall₂ Dim.Completes sizes dims := by
  induction h0 generalizing i dims1 with
  | nil =>
    cases h1 with
    | nil => exact ⟨[], rfl, Forall₂.nil⟩
  | cons hHead _ ih =>
    cases h1 with
    | cons hHead' hTail' =>
      obtain ⟨d, hd, hCompletes⟩ := mergeCheck_completes (i := i) hHead hHead'
      obtain ⟨dims, hDims, hRest⟩ := ih (i + 1) hTail'
      exact ⟨d :: dims, by simp [mergeDims, hd, hDims, ok_bind], Forall₂.cons hCompletes hRest⟩

variable {s0 s1 : Shape}

theorem merge_completes (h0 : s0.Completes sizes) (h1 : s1.Completes sizes)
    : ∃ s, merge s0 s1 = .ok s ∧ s.Completes sizes := by
  cases s0 with
  | none =>
    cases s1 with
    | none => exact ⟨none, rfl, trivial⟩
    | some dims1 => exact ⟨some dims1, rfl, h1⟩
  | some dims0 =>
    cases s1 with
    | none => exact ⟨some dims0, rfl, h0⟩
    | some dims1 =>
      have hLength : dims0.length = dims1.length := h0.length_eq.symm.trans h1.length_eq
      obtain ⟨dims, hDims, hCompletes⟩ := mergeDims_completes 0 h0 h1
      exact ⟨some dims, by simp [merge, hLength, hDims, Except.map], hCompletes⟩

theorem merge_eq_none (h : merge s0 s1 = .ok none) : s0 = none ∧ s1 = none := by
  cases s0 with
  | none =>
    cases s1 with
    | none => exact ⟨rfl, rfl⟩
    | some dims1 => cases ok.inj h
  | some dims0 =>
    cases s1 with
    | none => cases ok.inj h
    | some dims1 =>
      rw [merge] at h
      split at h
      · cases h
      · cases hDims : mergeDims 0 dims0 dims1 with
        | error e => simp [hDims, Except.map] at h
        | ok dims => simp [hDims, Except.map] at h

variable {m : Nat}

theorem add_some (hn : (n : Int) ≤ int64Max) (hm : (m : Int) ≤ int64Max) (d : Dim) :
    add (some n) (some m) = .ok d ↔ ((n + m : Nat) : Int) ≤ int64Max ∧ d = some (n + m) := by
  unfold add
  by_cases hn₀ : n = 0
  · subst hn₀
    simp [hm, eq_comm]
  · by_cases hm₀ : m = 0
    · subst hm₀
      simp [hn₀, hn, eq_comm]
    · simp only [Option.some.injEq, hn₀, hm₀, if_false]
      split <;> rename_i hSum
      · exact ⟨fun h => ⟨hSum, (ok.inj h).symm⟩, fun h => h.2 ▸ rfl⟩
      · constructor
        · intro h
          cases h
        · rintro ⟨h, -⟩
          exact absurd h hSum

theorem add_completes {d0 d1 : Dim} (h0 : Dim.Completes n d0) (h1 : Dim.Completes m d1)
    (hSum : ((n + m : Nat) : Int) ≤ int64Max) :
    ∃ d, add d0 d1 = .ok d ∧ Dim.Completes (n + m) d := by
  cases d0 with
  | none =>
    by_cases hm : d1 = some 0
    · exact ⟨none, by simp [add], Dim.Completes.none _⟩
    · exact ⟨none, by simp [add], Dim.Completes.none _⟩
  | some n' =>
    obtain rfl := Dim.Completes.some_iff.mp h0
    cases d1 with
    | none =>
      by_cases hn : n' = 0
      · exact ⟨none, by simp [add], Dim.Completes.none _⟩
      · exact ⟨none, by simp [add], Dim.Completes.none _⟩
    | some m' =>
      obtain rfl := Dim.Completes.some_iff.mp h1
      exact ⟨some (n' + m'), (add_some (by omega) (by omega) _).mpr ⟨hSum, rfl⟩,
        Dim.Completes.some_iff.mpr rfl⟩

theorem withRank_scalar {s : Shape} (h : s.Completes []) : s.withRank 0 = .ok (some []) := by
  cases s with
  | none => rfl
  | some dims =>
    cases h
    rfl

def axisIndex (concatDim : Int) (rank : Nat) : Nat := (Concat.axisOf concatDim rank).toNat

/-- What `Subshape` gives for the dimensions behind the axis: all of them, for the axis -1. -/
def afterAxis (concatDim : Int) (dims : List Dim) : List Dim :=
  if concatDim = -1 then dims else dims.drop (axisIndex concatDim dims.length + 1)

theorem concatParts_none (concatDim : Int) :
    concatParts concatDim none = .ok (none, none, none) := by
  have hRank : withRankAtLeast none (if concatDim < 0 then -concatDim else concatDim + 1) =
    .ok none := by
    unfold withRankAtLeast
    simp
  simp only [concatParts, hRank]
  rfl

theorem subshape_between {dims : List Dim} {start end_ : Int} {b : Nat}
    (hStart : clampBound dims.length start = a) (hEnd : clampBound dims.length end_ = b)
    (hLe : a ≤ b)
    (hPart : ¬ (start = 0 ∧ (end_ ≥ dims.length ∨ end_ = int64Max))) :
    subshape (some dims) start end_ = .ok (some ((dims.drop a).take (b - a))) := by
  simp only [subshape]
  rw [if_neg hPart, hStart, if_neg (by omega), if_neg (by omega), if_neg (by omega)]
  congr 4
  omega

theorem clampBound_of_le {rank bound : Int} (h : bound ≤ rank) :
    clampBound rank bound = if bound < 0 then rank + bound else bound := by
  have hNot : ¬ bound > rank := by omega
  simp only [clampBound, if_neg hNot]

theorem clampBound_of_gt {bound : Int} (h : bound > rank) : clampBound rank bound = rank := by
  have hNot : ¬ (rank : Int) < 0 := by omega
  simp only [clampBound, if_pos h, if_neg hNot]

section

variable (hLow : -(rank : Int) ≤ concatDim)

include hLow

theorem axisIndex_lt
    (hHigh : concatDim < rank) : axisIndex concatDim rank < rank := by
  simp only [axisIndex, Concat.axisOf]
  split <;> omega

theorem clampBound_axis
    (hHigh : concatDim < rank) : clampBound rank concatDim = axisIndex concatDim rank := by
  rw [clampBound_of_le (Int.le_of_lt hHigh)]
  simp only [axisIndex, Concat.axisOf]
  split <;> omega

theorem clampBound_behindAxis
    (hHigh : concatDim < rank) (hNotLast : concatDim ≠ -1) :
    clampBound rank (concatDim + 1) = (axisIndex concatDim rank + 1 : Nat) := by
  rw [clampBound_of_le (by omega)]
  simp only [axisIndex, Concat.axisOf]
  split <;> split <;> omega

end

theorem clampBound_zero (rank : Nat) : clampBound rank 0 = (0 : Nat) :=
  clampBound_of_le (Int.natCast_nonneg rank)

theorem int64Max_gt (h : rank < 2 ^ 31) : int64Max > rank := by
  have hMax : int64Max = 9223372036854775807 := by decide
  omega

theorem concatParts_some (dims : List Dim)
    (hLow : -(dims.length : Int) ≤ concatDim) (hHigh : concatDim < dims.length)
    (hRank : dims.length < 2 ^ 31) :
    concatParts concatDim (some dims) =
      .ok (some (dims.take (axisIndex concatDim dims.length)),
        dims.getD (axisIndex concatDim dims.length) none, some (afterAxis concatDim dims)) := by
  have hEnough : withRankAtLeast (some dims) (if concatDim < 0 then -concatDim else concatDim + 1) =
      .ok (some dims) := by
    simp only [withRankAtLeast]
    rw [if_pos (by split <;> omega)]
  have hBefore : subshape (some dims) 0 concatDim =
      .ok (some (dims.take (axisIndex concatDim dims.length))) := by
    have hPart : ¬ ((0 : Int) = 0 ∧ (concatDim ≥ dims.length ∨ concatDim = int64Max)) := by
      have hMax := int64Max_gt hRank
      omega
    rw [subshape_between (clampBound_zero _) (clampBound_axis hLow hHigh) (zero_le _) hPart]
    rfl
  have hAfter : subshape (some dims) (concatDim + 1) int64Max =
      .ok (some (afterAxis concatDim dims)) := by
    by_cases hLast : concatDim = -1
    · simp [subshape, hLast, afterAxis]
    · have hPart : ¬ (concatDim + 1 = 0 ∧
        (int64Max ≥ (dims.length : Int) ∨ int64Max = int64Max)) := by
        omega
      have hIndex := axisIndex_lt hLow hHigh
      rw [subshape_between (clampBound_behindAxis hLow hHigh hLast)
        (clampBound_of_gt (int64Max_gt hRank))
        hIndex hPart,
        take_of_length_le (by simp), afterAxis, if_neg hLast]
  have hMiddle : dim (some dims) concatDim = dims.getD (axisIndex concatDim dims.length) none := by
    simp only [dim, axisIndex, Concat.axisOf]
    congr 2
    split <;> omega
  simp only [concatParts, hEnough, hBefore, hAfter, hMiddle, ok_bind]

/-- Two lists of sizes agree but for the place `a`. -/
def SameElsewhere (a : Nat) (v w : List Nat) : Prop :=
  v.take a = w.take a ∧ v.drop (a + 1) = w.drop (a + 1)

def sumAt (a : Nat) (values : List (List Nat)) : Nat := (values.map fun v => v.getD a 0).sum

theorem sumAt_cons (a : Nat) (v : List Nat) (values : List (List Nat)) :
    sumAt a (v :: values) = v.getD a 0 + sumAt a values := sum_cons

theorem SameElsewhere.refl (a : Nat) (v : List Nat) : SameElsewhere a v v := ⟨rfl, rfl⟩

theorem SameElsewhere.symm (h : SameElsewhere a v w) : SameElsewhere a w v := ⟨h.1.symm, h.2.symm⟩

theorem SameElsewhere.trans {x : List Nat} (h : SameElsewhere a v w)
    (h' : SameElsewhere a w x) : SameElsewhere a v x := ⟨h.1.trans h'.1, h.2.trans h'.2⟩

theorem SameElsewhere.set (h : SameElsewhere a v w)
    (hLength : v.length = w.length) (hLess : a < w.length) (n : Nat) : v.set a n = w.set a n := by
  rw [set_eq_take_append_cons_drop, set_eq_take_append_cons_drop, if_pos (hLength ▸ hLess),
    if_pos hLess, h.1, h.2]

theorem sameElsewhere_iff (hLength : v.length = w.length) :
    SameElsewhere a v w ↔ ∀ j < w.length, j ≠ a → v.getD j 0 = w.getD j 0 := by
  have hGetD : ∀ j, v.getD j 0 = (v[j]?).getD 0 ∧ w.getD j 0 = (w[j]?).getD 0 := fun _ => ⟨rfl, rfl⟩
  constructor
  · intro h j hj hNe
    rw [(hGetD j).1, (hGetD j).2]
    rcases Nat.lt_or_gt_of_ne hNe with hBefore | hBehind
    · rw [← getElem?_take_of_lt hBefore, h.1, getElem?_take_of_lt hBefore]
    · have hShift : j = a + 1 + (j - (a + 1)) := by omega
      rw [hShift, ← getElem?_drop, h.2, getElem?_drop]
  · intro h
    have hGet : ∀ j, j ≠ a → v[j]? = w[j]? := by
      intro j hNe
      by_cases hj : j < w.length
      · have hSame := h j hj hNe
        rw [(hGetD j).1, (hGetD j).2, getElem?_eq_getElem (hLength ▸ hj),
          getElem?_eq_getElem hj] at hSame
        rw [getElem?_eq_getElem (hLength ▸ hj), getElem?_eq_getElem hj]
        exact congrArg some hSame
      · rw [getElem?_eq_none (by omega), getElem?_eq_none (by omega)]
    constructor
    · apply ext_getElem?
      intro j
      by_cases hj : j < a
      · rw [getElem?_take_of_lt hj, getElem?_take_of_lt hj, hGet j (Nat.ne_of_lt hj)]
      · rw [getElem?_take_eq_none (by omega), getElem?_take_eq_none (by omega)]
    · apply ext_getElem?
      intro j
      rw [getElem?_drop, getElem?_drop, hGet _ (by omega)]

section Axis

variable {concatDim : Int} {r : Nat} (hLow : -(r : Int) ≤ concatDim) (hHigh : concatDim < r)
  (hRank : r < 2 ^ 31)

include hLow hHigh hRank

theorem concatParts_completes {v : List Nat} (hLength : v.length = r) {input : Shape}
    (h : input.Completes v) (hNotLast : concatDim ≠ -1) :
    ∃ before middle after, concatParts concatDim input = .ok (before, middle, after) ∧
      before.Completes (v.take (axisIndex concatDim r)) ∧
      Dim.Completes (v.getD (axisIndex concatDim r) 0) middle ∧
      after.Completes (v.drop (axisIndex concatDim r + 1)) := by
  cases input with
  | none =>
    exact ⟨none, none, none, concatParts_none concatDim, trivial, Dim.Completes.none _, trivial⟩
  | some dims =>
    have hSame : dims.length = r := h.length_eq.symm.trans hLength
    have hParts := concatParts_some dims (hSame ▸ hLow) (hSame ▸ hHigh) (hSame ▸ hRank)
    rw [afterAxis, if_neg hNotLast, hSame] at hParts
    refine ⟨_, _, _, hParts, forall₂_take _ h, ?_, forall₂_drop _ h⟩
    have hIndex := axisIndex_lt hLow hHigh
    have hDims : axisIndex concatDim r < dims.length := hSame ▸ hIndex
    have hSizes : axisIndex concatDim r < v.length := hLength ▸ hIndex
    rw [getD, getD, getElem?_eq_getElem hSizes, getElem?_eq_getElem hDims]
    exact (forall₂_iff_get.mp h).2 _ hSizes hDims

theorem concatMore_completes (hNotLast : concatDim ≠ -1) {w : List Nat} {values : List (List Nat)}
    (h : Forall₂ Completes values inputs) (hLength : ∀ v ∈ values, v.length = r)
    (hSame : ∀ v ∈ values, SameElsewhere (axisIndex concatDim r) v w) {ob oa : Shape} {om : Dim}
    (hBefore : ob.Completes (w.take (axisIndex concatDim r))) (hMiddle : Dim.Completes m om)
    (hAfter : oa.Completes (w.drop (axisIndex concatDim r + 1)))
    (hSum : ((m + sumAt (axisIndex concatDim r) values : Nat) : Int) ≤ int64Max) :
    ∃ b' m' f', concatMore concatDim inputs (ob, om, oa) = .ok (b', m', f') ∧
      b'.Completes (w.take (axisIndex concatDim r)) ∧
      Dim.Completes (m + sumAt (axisIndex concatDim r) values) m' ∧
      f'.Completes (w.drop (axisIndex concatDim r + 1)) := by
  induction h generalizing m ob om oa with
  | nil => exact ⟨ob, om, oa, rfl, hBefore, hMiddle, hAfter⟩
  | @cons v input values inputs hHead _ ih =>
    rw [forall_mem_cons] at hLength hSame
    rw [sumAt_cons, ← add_assoc] at hSum
    rw [sumAt_cons, ← add_assoc]
    obtain ⟨before, middle, after, hParts, hb, hm, hf⟩ :=
      concatParts_completes hLow hHigh hRank hLength.1 hHead hNotLast
    rw [hSame.1.1] at hb
    rw [hSame.1.2] at hf
    obtain ⟨ob', hob, hBefore'⟩ := merge_completes hb hBefore
    obtain ⟨om', hom, hMiddle'⟩ := add_completes hMiddle hm (by omega)
    obtain ⟨oa', hoa, hAfter'⟩ := merge_completes hf hAfter
    simp only [concatMore, hParts, ok_bind, hob, hom, hoa]
    exact ih hLength.2 hSame.2 hBefore' hMiddle' hAfter' hSum

theorem concatParts_ofSizes {v : List Nat} (hLength : v.length = r) (hNotLast : concatDim ≠ -1) :
    concatParts concatDim (ofSizes v) =
      .ok (ofSizes (v.take (axisIndex concatDim r)), some (v.getD (axisIndex concatDim r) 0),
        ofSizes (v.drop (axisIndex concatDim r + 1))) := by
  have hSame : (v.map some).length = r := by rw [length_map, hLength]
  have hIndex : axisIndex concatDim r < v.length := by
    rw [hLength]
    exact axisIndex_lt hLow hHigh
  have hParts := concatParts_some (v.map some) (hSame ▸ hLow) (hSame ▸ hHigh) (hSame ▸ hRank)
  rw [afterAxis, if_neg hNotLast, hSame] at hParts
  rw [ofSizes, hParts, ofSizes, ofSizes, map_take, map_drop, getD, getD,
    getElem?_map, getElem?_eq_getElem hIndex]
  rfl

theorem concatMore_ofSizes (hNotLast : concatDim ≠ -1) {w : List Nat} (values : List (List Nat))
    (hLength : ∀ v ∈ values, v.length = r) (hSizes : ∀ v ∈ values, ∀ n ∈ v, (n : Int) ≤ int64Max)
    (hm : (m : Int) ≤ int64Max) (parts : Shape × Dim × Shape) :
    concatMore concatDim (values.map ofSizes)
        (ofSizes (w.take (axisIndex concatDim r)), some m,
          ofSizes (w.drop (axisIndex concatDim r + 1))) =
      .ok parts ↔
    (∀ v ∈ values, SameElsewhere (axisIndex concatDim r) v w) ∧
      ((m + sumAt (axisIndex concatDim r) values : Nat) : Int) ≤ int64Max ∧
      parts = (ofSizes (w.take (axisIndex concatDim r)),
        some (m + sumAt (axisIndex concatDim r) values),
          ofSizes (w.drop (axisIndex concatDim r + 1))) := by
  induction values generalizing m with
  | nil => simp [concatMore, sumAt, hm, eq_comm]
  | cons v values ih =>
    rw [forall_mem_cons] at hLength hSizes
    have hIndex : axisIndex concatDim r < v.length := by
      rw [hLength.1]
      exact axisIndex_lt hLow hHigh
    have hn : ((v.getD (axisIndex concatDim r) 0 : Nat) : Int) ≤ int64Max := by
      rw [getD, getElem?_eq_getElem hIndex]
      exact hSizes.1 _ (getElem_mem hIndex)
    simp only [map_cons, concatMore, concatParts_ofSizes hLow hHigh hRank hLength.1 hNotLast,
      ok_bind, bind_eq_ok, merge_ofSizes, add_some hm hn, sumAt_cons, ← add_assoc,
      forall_mem_cons]
    constructor
    · rintro ⟨_, ⟨hBefore, rfl⟩, _, ⟨hFits, rfl⟩, _, ⟨hAfter, rfl⟩, hRest⟩
      rw [hBefore, hAfter] at hRest
      obtain ⟨hSame, hSum, hParts⟩ := (ih hLength.2 hSizes.2 hFits).mp hRest
      exact ⟨⟨⟨hBefore, hAfter⟩, hSame⟩, hSum, hParts⟩
    · rintro ⟨⟨⟨hBefore, hAfter⟩, hSame⟩, hSum, hParts⟩
      have hFits : ((m + v.getD (axisIndex concatDim r) 0 : Nat) : Int) ≤ int64Max := by omega
      refine ⟨_, ⟨hBefore, rfl⟩, _, ⟨hFits, rfl⟩, _, ⟨hAfter, rfl⟩, ?_⟩
      rw [hBefore, hAfter]
      exact (ih hLength.2 hSizes.2 hFits).mpr ⟨hSame, hSum, hParts⟩

end Axis

def HasRank (r : Nat) (s : Shape) : Prop := ∀ dims, s = some dims → dims.length = r

variable {v : List Nat}

theorem Completes.hasRank {s : Shape} (h : s.Completes v) : s.HasRank v.length := by
  rintro dims rfl
  exact h.length_eq.symm

theorem mergeDims_length {i : Nat} {dims0 dims1 dims : List Dim}
    (h : mergeDims i dims0 dims1 = .ok dims)
    (hLength : dims0.length = dims1.length) : dims.length = dims0.length := by
  induction dims0 generalizing i dims1 dims with
  | nil => rw [← ok.inj h]
  | cons d0 dims0 ih =>
    cases dims1 with
    | nil => cases hLength
    | cons d1 dims1 =>
      simp only [mergeDims, bind_eq_ok] at h
      obtain ⟨d, -, rest, hRest, hDims⟩ := h
      rw [← ok.inj hDims, length_cons, ih hRest (succ.inj hLength), length_cons]

theorem merge_hasRank {r : Nat} {s : Shape} (h0 : s0.HasRank r) (h1 : s1.HasRank r)
    (h : merge s0 s1 = .ok s) : s.HasRank r := by
  cases s1 with
  | none =>
    cases s0 with
    | none => exact ok.inj h ▸ h0
    | some dims0 => exact ok.inj h ▸ h0
  | some dims1 =>
    cases s0 with
    | none => exact ok.inj h ▸ h1
    | some dims0 =>
      have hLength : dims0.length = dims1.length := (h0 _ rfl).trans (h1 _ rfl).symm
      rw [merge, if_neg (not_not.mpr hLength)] at h
      cases hDims : mergeDims 0 dims0 dims1 with
      | error e =>
        rw [hDims] at h
        cases h
      | ok dims =>
        rw [hDims] at h
        rw [← ok.inj h]
        rintro _ ⟨⟩
        rw [mergeDims_length hDims hLength]
        exact h0 _ rfl

theorem concatMore_unknown {concatDim : Int} (h : ∀ input ∈ inputs, input = none) :
    concatMore concatDim inputs (none, none, none) = .ok (none, none, none) := by
  induction inputs with
  | nil => rfl
  | cons input inputs ih =>
    rw [forall_mem_cons] at h
    obtain ⟨rfl, hRest⟩ := h
    simp only [concatMore, concatParts_none]
    exact ih hRest

section Last

variable {r : Nat} (hr : 1 ≤ r) (hRank : r < 2 ^ 31)

/-- The parts of inputs that were split at the axis -1: what is behind the axis is a whole
input, and both parts are of known rank when one of the inputs was. -/
structure SplitAtLast (r : Nat) (parts : Shape × Dim × Shape) (inputs : List Shape) : Prop where
  before : parts.1.HasRank (r - 1)
  after : parts.2.2.HasRank r
  ofUnknown : parts.1 = none ∨ parts.2.2 = none → ∀ input ∈ inputs, input = none

include hr hRank

theorem concatParts_last {input : Shape} (h : input.HasRank r) :
    ∃ parts, concatParts (-1) input = .ok parts ∧ SplitAtLast r parts [input] := by
  cases input with
  | none =>
    refine ⟨_, concatParts_none (-1), ?_, ?_, by simp⟩
    · rintro _ ⟨⟩
    · rintro _ ⟨⟩
  | some dims =>
    have hLength := h dims rfl
    refine ⟨_, concatParts_some dims (by omega) (by omega) (by omega), ?_, ?_, by simp⟩
    · rintro _ ⟨⟩
      simp only [length_take, axisIndex, Concat.axisOf]
      split <;> omega
    · rintro _ ⟨⟩
      rw [afterAxis, if_pos rfl, hLength]

variable {parts : Shape × Dim × Shape}

theorem concatMore_last {inputs done : List Shape} (h : ∀ input ∈ inputs, input.HasRank r)
    {parts' : Shape × Dim × Shape} (hParts : SplitAtLast r parts done)
    (hOk : concatMore (-1) inputs parts = .ok parts') : SplitAtLast r parts' (inputs ++ done) := by
  induction inputs generalizing parts done with
  | nil => exact ok.inj hOk ▸ hParts
  | cons input inputs ih =>
    obtain ⟨ob, om, oa⟩ := parts
    rw [forall_mem_cons] at h
    obtain ⟨⟨b, m, f⟩, hSplit, hInput⟩ := concatParts_last hr hRank h.1
    simp only [concatMore, hSplit, ok_bind, bind_eq_ok] at hOk
    obtain ⟨ob', hob, om', -, oa', hoa, hOk⟩ := hOk
    have hStep : SplitAtLast r (ob', om', oa') (input :: done) := by
      constructor
      · exact merge_hasRank hInput.before hParts.before hob
      · exact merge_hasRank hInput.after hParts.after hoa
      · intro hNone
        have hBoth : (b = none ∨ f = none) ∧ (ob = none ∨ oa = none) := by
          rcases hNone with hNone | hNone
          · exact (merge_eq_none (hNone ▸ hob)).imp Or.inl Or.inl
          · exact (merge_eq_none (hNone ▸ hoa)).imp Or.inr Or.inr
        rw [forall_mem_cons]
        exact ⟨hInput.ofUnknown hBoth.1 input (mem_singleton_self input),
          hParts.ofUnknown hBoth.2⟩
    have hRest := ih h.2 hStep hOk
    constructor
    · exact hRest.before
    · exact hRest.after
    · intro hNone x hx
      apply hRest.ofUnknown hNone x
      rw [cons_append, mem_cons, mem_append] at hx
      rw [mem_append, mem_cons]
      tauto

theorem concatParts_last_ofSizes {v : List Nat} (hLength : v.length = r) :
    ∃ m, concatParts (-1) (ofSizes v) =
      .ok (ofSizes (v.take (axisIndex (-1) r)), m, ofSizes v) := by
  have hSame : (v.map some).length = r := by rw [length_map, hLength]
  have hParts : concatParts (-1) (some (v.map some)) = _ :=
    concatParts_some (v.map some) (by omega) (by omega) (by omega)
  rw [hSame, ← map_take] at hParts
  exact ⟨_, hParts⟩

theorem concatMore_last_ofSizes {values : List (List Nat)} (hLength : ∀ v ∈ values, v.length = r)
    {b f : List Nat} {m : Dim}
    (hOk : concatMore (-1) (values.map ofSizes) (ofSizes b, m, ofSizes f) = .ok parts) :
    ∀ v ∈ values, v = f := by
  induction values generalizing b m with
  | nil => simp
  | cons v values ih =>
    rw [forall_mem_cons] at hLength
    obtain ⟨m', hParts⟩ := concatParts_last_ofSizes hr hRank hLength.1
    simp only [map_cons, concatMore, hParts, ok_bind, bind_eq_ok, merge_ofSizes] at hOk
    obtain ⟨_, ⟨hBefore, rfl⟩, m'', -, _, ⟨hAfter, rfl⟩, hRest⟩ := hOk
    rw [hAfter] at hRest
    rw [forall_mem_cons]
    exact ⟨hAfter, ih hLength.2 hRest⟩

end Last

theorem checkInputs_eq_ok (legacy : Bool) {first : List Nat} {axis : Int} (hAxis : 0 ≤ axis)
    (hFirst : 0 < first.length) (values : List (List Nat))
    (hLength : ∀ v ∈ values, v.length = first.length) (i m n : Nat) :
    Concat.checkInputs legacy first axis i values m = .ok n ↔
      (∀ v ∈ values, SameElsewhere axis.toNat v first) ∧ n = m + sumAt axis.toNat values := by
  induction values generalizing i m with
  | nil => simp [Concat.checkInputs, sumAt, eq_comm]
  | cons v values ih =>
    rw [forall_mem_cons] at hLength
    have hDiffer : (∃ j < first.length, (j : Int) ≠ axis ∧ v.getD j 0 ≠ first.getD j 0) ↔
        ¬ SameElsewhere axis.toNat v first := by
      rw [sameElsewhere_iff hLength.1]
      push Not
      apply exists_congr
      intro j
      have hPlace : (j : Int) ≠ axis ↔ j ≠ axis.toNat := by omega
      rw [hPlace]
    simp only [Concat.checkInputs, hLength.1, true_or, not_true_eq_false, if_false, forall_mem_cons,
      sumAt_cons, ← add_assoc]
    split <;> rename_i hSame
    · constructor
      · intro h
        cases h
      · rintro ⟨⟨hHead, -⟩, -⟩
        exact absurd hHead (hDiffer.mp hSame)
    · have hHead : SameElsewhere axis.toNat v first := not_not.mp (mt hDiffer.mpr hSame)
      rw [ih hLength.2]
      exact ⟨fun h => ⟨⟨hHead, h.1⟩, h.2⟩, fun h => ⟨h.1.2, h.2⟩⟩

theorem joinParts_ofSizes (a n : Nat) (h : a < v.length) :
    joinParts (ofSizes (v.take a), some n, ofSizes (v.drop (a + 1))) = ofSizes (v.set a n) := by
  rw [set_eq_take_append_cons_drop, if_pos h]
  simp [joinParts, ofSizes, concatenate]

theorem joinParts_completes {a n : Nat} {b f : Shape} {m : Dim}
    (hb : b.Completes (v.take a)) (hm : Dim.Completes n m) (hf : f.Completes (v.drop (a + 1))) :
    (joinParts (b, m, f)).Completes (v.take a ++ n :: v.drop (a + 1)) := by
  cases b with
  | none => trivial
  | some before =>
    cases f with
    | none => trivial
    | some after =>
      simp only [joinParts, concatenate, append_assoc]
      exact rel_append hb (Forall₂.cons hm hf)

/-- The helper walks the inputs from the last one. -/
theorem exists_reverse_eq_cons {α : Type*} {l : List α} (h : l ≠ []) :
    ∃ last rest, l.reverse = last :: rest ∧ ∀ v, v ∈ l ↔ v = last ∨ v ∈ rest := by
  obtain ⟨last, rest, hReverse⟩ := exists_cons_of_ne_nil (mt reverse_eq_nil_iff.mp h)
  exact ⟨last, rest, hReverse, fun v => by rw [← mem_reverse, hReverse, mem_cons]⟩

theorem sameElsewhere_last_iff {a : Nat} {values rest : List (List Nat)} {last : List Nat}
    (h : values.reverse = last :: rest) :
    (∀ v ∈ rest, SameElsewhere a v last) ↔ ∀ v ∈ values, SameElsewhere a v (values.headD []) := by
  have hMem : ∀ v, v ∈ values ↔ v = last ∨ v ∈ rest := by
    intro v
    rw [← mem_reverse, h, mem_cons]
  have hHead : values.headD [] ∈ values := by
    cases values with
    | nil => cases h
    | cons v values => exact mem_cons_self
  constructor
  · intro hRest
    have hAll : ∀ v ∈ values, SameElsewhere a v last := by
      intro v hv
      rcases (hMem v).mp hv with rfl | hv
      · exact SameElsewhere.refl a v
      · exact hRest v hv
    intro v hv
    exact (hAll v hv).trans (hAll _ hHead).symm
  · intro hAll v hv
    exact (hAll v ((hMem v).mpr (Or.inr hv))).trans (hAll last ((hMem last).mpr (Or.inl rfl))).symm

theorem sumAt_reverse (a : Nat) (values : List (List Nat)) :
    sumAt a values.reverse = sumAt a values := by
  simp [sumAt]

end Shape

namespace Concat

open Shape

def AgreesOnKnown (legacy : Bool) (dimShape : Shape) (concatDim : Int) (values : List (List Nat)) :
    Prop :=
  ((∃ s, concatShapeHelper dimShape (some concatDim) (values.map ofSizes) = .ok s) ↔
    ∃ n, shapeChecks legacy concatDim (values.headD []) values = .ok n) ∧
  ∀ s, concatShapeHelper dimShape (some concatDim) (values.map ofSizes) = .ok s →
    ∃ out, outputShape legacy concatDim values = .ok out ∧ s = ofSizes out

/-- The place of the axis in shapes of rank `r`, and the sizes joined along it. -/
def joined (concatDim : Int) (r : Nat) (values : List (List Nat)) : List Nat :=
  (values.headD []).set (axisIndex concatDim r) (sumAt (axisIndex concatDim r) values)

section

variable (legacy : Bool) {concatDim : Int} {r : Nat} (hr : 1 ≤ r) (hRank : r < 2 ^ 31)
  (hLow : -(r : Int) ≤ concatDim) (hHigh : concatDim < r) {values : List (List Nat)}
  (hValues : values ≠ []) (hLength : ∀ v ∈ values, v.length = r)

include hValues hLength in
theorem length_head : (values.headD []).length = r := by
  cases values with
  | nil => exact absurd rfl hValues
  | cons v values => exact hLength v mem_cons_self

include hr hLow hHigh hValues hLength

theorem shapeChecks_eq_ok (n : Nat) :
    shapeChecks legacy concatDim (values.headD []) values = .ok n ↔
      (∀ v ∈ values, SameElsewhere (axisIndex concatDim r) v (values.headD [])) ∧
        n = sumAt (axisIndex concatDim r) values := by
  have hHead := length_head hValues hLength
  have hAxis : 0 ≤ axisOf concatDim r ∧ axisOf concatDim r < r := by
    simp only [axisOf]
    split <;> omega
  simp only [shapeChecks, hHead, hAxis, and_self, true_or, if_true]
  rw [checkInputs_eq_ok legacy hAxis.1 (hHead ▸ hr) values
    (fun v hv => (hLength v hv).trans hHead.symm),
    zero_add, axisIndex]

theorem outputShape_eq_ok (out : List Nat) :
    outputShape legacy concatDim values = .ok out ↔
      (∀ v ∈ values, SameElsewhere (axisIndex concatDim r) v (values.headD [])) ∧
        (sumAt (axisIndex concatDim r) values : Int) ≤ int64Max ∧
        elementsFit 1 (joined concatDim r values) ∧ out = joined concatDim r values := by
  have hHead := length_head hValues hLength
  have hChecks := shapeChecks_eq_ok legacy hr hLow hHigh hValues hLength
  have hNotEmpty : (values.headD []).isEmpty = false := by
    rw [← Bool.not_eq_true, isEmpty_iff_length_eq_zero]
    omega
  simp only [outputShape]
  cases hCheck : shapeChecks legacy concatDim (values.headD []) values with
  | error e =>
    constructor
    · intro h
      cases h
    · rintro ⟨hSame, -⟩
      rw [(hChecks _).mpr ⟨hSame, rfl⟩] at hCheck
      cases hCheck
  | ok n =>
    obtain ⟨hSame, rfl⟩ := (hChecks n).mp hCheck
    simp only [joinedSizes, hNotEmpty, Bool.false_eq_true, if_false, hHead]
    split <;> rename_i hFits
    · exact ⟨fun h => ⟨hSame, hFits.1, hFits.2, (ok.inj h).symm⟩, fun h => h.2.2.2 ▸ rfl⟩
    · constructor
      · intro h
        cases h
      · intro h
        exact absurd ⟨h.2.1, h.2.2.1⟩ hFits

omit hr in
include hRank in
theorem concatShapeHelper_ofSizes {dimShape : Shape} (hDim : dimShape.Completes [])
    (hSizes : ∀ v ∈ values, ∀ n ∈ v, (n : Int) ≤ int64Max) (hNotLast : concatDim ≠ -1) (s : Shape) :
    concatShapeHelper dimShape (some concatDim) (values.map ofSizes) = .ok s ↔
      (∀ v ∈ values, SameElsewhere (axisIndex concatDim r) v (values.headD [])) ∧
        (sumAt (axisIndex concatDim r) values : Int) ≤ int64Max ∧
        s = ofSizes (joined concatDim r values) := by
  have hIndex := axisIndex_lt hLow hHigh
  have hHead := length_head hValues hLength
  obtain ⟨last, rest, hReverse, hMem⟩ := exists_reverse_eq_cons hValues
  have hLast : last.length = r := hLength last ((hMem last).mpr (Or.inl rfl))
  have hFits : ((last.getD (axisIndex concatDim r) 0 : Nat) : Int) ≤ int64Max := by
    rw [List.getD, getElem?_eq_getElem (hLast ▸ hIndex)]
    exact hSizes last ((hMem last).mpr (Or.inl rfl)) _ (getElem_mem _)
  have hSum : sumAt (axisIndex concatDim r) values =
      last.getD (axisIndex concatDim r) 0 + sumAt (axisIndex concatDim r) rest := by
    rw [← sumAt_reverse, hReverse, sumAt_cons]
  have hMore := concatMore_ofSizes hLow hHigh hRank hNotLast (w := last) rest
    (fun v hv => hLength v ((hMem v).mpr (Or.inr hv)))
    (fun v hv => hSizes v ((hMem v).mpr (Or.inr hv))) hFits
  have hJoin (h : ∀ v ∈ values, SameElsewhere (axisIndex concatDim r) v (values.headD []))
    (n : Nat) :
      joinParts (ofSizes (last.take (axisIndex concatDim r)), some n,
        ofSizes (last.drop (axisIndex concatDim r + 1))) =
      ofSizes ((values.headD []).set (axisIndex concatDim r) n) := by
    rw [joinParts_ofSizes _ _ (hLast ▸ hIndex),
      (h last ((hMem last).mpr (Or.inl rfl))).set (hLast.trans hHead.symm) (hHead ▸ hIndex)]
  rw [concatShapeHelper, withRank_scalar hDim, ok_bind, ← map_reverse, hReverse, map_cons]
  simp only [concatParts_ofSizes hLow hHigh hRank hLast hNotLast, ok_bind, bind_eq_ok, hMore,
    sameElsewhere_last_iff hReverse, joined, hSum]
  constructor
  · rintro ⟨_, ⟨hSame, hOk, rfl⟩, hs⟩
    rw [hJoin hSame] at hs
    exact ⟨hSame, hOk, (ok.inj hs).symm⟩
  · rintro ⟨hSame, hOk, rfl⟩
    exact ⟨_, ⟨hSame, hOk, rfl⟩, by rw [hJoin hSame]⟩

omit hr in
include hRank in
theorem concatShapeHelper_completes {dimShape : Shape} (hDim : dimShape.Completes [])
    (hNotLast : concatDim ≠ -1) {inputs : List Shape}
    (hInputs : List.Forall₂ Shape.Completes values inputs)
    (hSame : ∀ v ∈ values, SameElsewhere (axisIndex concatDim r) v (values.headD []))
    (hSum : (sumAt (axisIndex concatDim r) values : Int) ≤ int64Max) :
    ∃ s, concatShapeHelper dimShape (some concatDim) inputs = .ok s ∧
      s.Completes (joined concatDim r values) := by
  have hIndex := axisIndex_lt hLow hHigh
  have hHead := length_head hValues hLength
  have hInputs' := forall₂_reverse_iff.mpr hInputs
  obtain ⟨last, rest, hReverse, hMem⟩ := exists_reverse_eq_cons hValues
  have hLast := hSame last ((hMem last).mpr (Or.inl rfl))
  rw [hReverse] at hInputs'
  obtain ⟨lastInput, restInputs, hHeadInput, hRestInputs, hInputsReverse⟩ :=
    forall₂_cons_left_iff.mp hInputs'
  rw [← sumAt_reverse, hReverse, sumAt_cons] at hSum
  obtain ⟨b, m, f, hParts, hb, hm, hf⟩ := concatParts_completes hLow hHigh hRank
    (hLength last ((hMem last).mpr (Or.inl rfl))) hHeadInput hNotLast
  rw [hLast.1] at hb
  rw [hLast.2] at hf
  obtain ⟨b', m', f', hMore, hb', hm', hf'⟩ := concatMore_completes hLow hHigh hRank hNotLast
    hRestInputs (fun v hv => hLength v ((hMem v).mpr (Or.inr hv)))
    (fun v hv => hSame v ((hMem v).mpr (Or.inr hv))) hb hm hf hSum
  refine ⟨joinParts (b', m', f'), ?_, ?_⟩
  · rw [concatShapeHelper, withRank_scalar hDim, ok_bind, hInputsReverse]
    simp only [hParts, ok_bind, hMore]
  · rw [joined, set_eq_take_append_cons_drop, if_pos (hHead ▸ hIndex), ← sumAt_reverse,
      hReverse, sumAt_cons]
    exact joinParts_completes hb' hm' hf'

end

theorem concatShapeHelper_last {dimShape : Shape} (hDim : dimShape.Completes []) {r : Nat}
    (hr : 1 ≤ r) (hRank : r < 2 ^ 31) (hNonempty : inputs ≠ [])
    (hInputs : ∀ input ∈ inputs, input.HasRank r) (hSizes : sizes.length = r) :
    (∃ s, concatShapeHelper dimShape (some (-1)) inputs = .ok s ∧ s.Completes sizes) ↔
      ∀ input ∈ inputs, input = none := by
  obtain ⟨last, rest, hReverse, hMem⟩ := exists_reverse_eq_cons hNonempty
  rw [concatShapeHelper, withRank_scalar hDim, ok_bind, hReverse]
  simp only [bind_eq_ok]
  constructor
  · rintro ⟨s, ⟨parts, hParts, parts', hMore, hs⟩, hCompletes⟩
    obtain ⟨_, hOk, hSplit⟩ :=
      concatParts_last hr hRank (hInputs last ((hMem last).mpr (Or.inl rfl)))
    obtain rfl := ok.inj (hParts.symm.trans hOk)
    have hFinal := concatMore_last hr hRank
      (fun input h => hInputs input ((hMem input).mpr (Or.inr h))) hSplit hMore
    obtain ⟨b, m, f⟩ := parts'
    rw [← ok.inj hs] at hCompletes
    have hUnknown : b = none ∨ f = none := by
      cases b with
      | none => exact Or.inl rfl
      | some before =>
        cases f with
        | none => exact Or.inr rfl
        | some after =>
          have hAfter := hFinal.after after rfl
          have hJoined := hCompletes.length_eq
          simp only [length_append, length_cons] at hJoined
          omega
    intro input hInput
    apply hFinal.ofUnknown hUnknown input
    rw [mem_append, mem_singleton]
    exact ((hMem input).mp hInput).symm
  · intro hNone
    have hLast := hNone last ((hMem last).mpr (Or.inl rfl))
    refine ⟨none, ⟨_, hLast ▸ concatParts_none (-1), _,
      concatMore_unknown (fun input h => hNone input ((hMem input).mpr (Or.inr h))), rfl⟩, trivial⟩

theorem sameElsewhere_of_last {dimShape : Shape} (hDim : dimShape.Completes []) {r : Nat}
    (hr : 1 ≤ r) (hRank : r < 2 ^ 31) {values : List (List Nat)} (hValues : values ≠ [])
    (hLength : ∀ v ∈ values, v.length = r) {s : Shape}
    (h : concatShapeHelper dimShape (some (-1)) (values.map ofSizes) = .ok s) :
    ∀ v ∈ values, SameElsewhere (axisIndex (-1) r) v (values.headD []) := by
  obtain ⟨last, rest, hReverse, hMem⟩ := exists_reverse_eq_cons hValues
  rw [concatShapeHelper, withRank_scalar hDim, ← map_reverse, hReverse, map_cons] at h
  obtain ⟨m, hParts⟩ :=
    concatParts_last_ofSizes hr hRank (hLength last ((hMem last).mpr (Or.inl rfl)))
  simp only [hParts, ok_bind, bind_eq_ok] at h
  obtain ⟨parts, hMore, -⟩ := h
  have hSame := concatMore_last_ofSizes hr hRank
    (fun v hv => hLength v ((hMem v).mpr (Or.inr hv))) hMore
  apply (sameElsewhere_last_iff hReverse).mp
  intro v hv
  rw [hSame v hv]
  exact SameElsewhere.refl _ _

theorem completes_ofSizes (v : List Nat) : (ofSizes v).Completes v := by
  induction v with
  | nil => exact Forall₂.nil
  | cons n v ih => exact Forall₂.cons (Dim.Completes.some_iff.mpr rfl) ih

section Agreement

variable (legacy : Bool) {dimShape : Shape} (hDim : dimShape.Completes []) {concatDim : Int}
  {r : Nat} (hr : 1 ≤ r) (hRank : r < 2 ^ 31) (hLow : -(r : Int) ≤ concatDim)
  (hHigh : concatDim < r) {values : List (List Nat)} (hValues : values ≠ [])
  (hLength : ∀ v ∈ values, v.length = r)

include hDim hr hRank hLow hHigh hValues hLength

theorem agreesOnKnown_iff (hSizes : ∀ v ∈ values, ∀ n ∈ v, (n : Int) ≤ int64Max) :
    AgreesOnKnown legacy dimShape concatDim values ↔
      (∃ v ∈ values, ¬ SameElsewhere (axisIndex concatDim r) v (values.headD [])) ∨
        (concatDim ≠ -1 ∧ (sumAt (axisIndex concatDim r) values : Int) ≤ int64Max ∧
          elementsFit 1 (joined concatDim r values)) := by
  have hChecks := shapeChecks_eq_ok legacy hr hLow hHigh hValues hLength
  have hOutput := outputShape_eq_ok legacy hr hLow hHigh hValues hLength
  by_cases hSame : ∀ v ∈ values, SameElsewhere (axisIndex concatDim r) v (values.headD [])
  · have hNone : ¬ ∃ v ∈ values, ¬ SameElsewhere (axisIndex concatDim r) v (values.headD []) := by
      push Not
      exact hSame
    rw [or_iff_right hNone]
    by_cases hNotLast : concatDim ≠ -1
    · have hHelper := concatShapeHelper_ofSizes hRank hLow hHigh hValues hLength hDim
        hSizes hNotLast
      constructor
      · rintro ⟨hIff, hInfers⟩
        obtain ⟨s, hs⟩ := hIff.mpr ⟨_, (hChecks _).mpr ⟨hSame, rfl⟩⟩
        obtain ⟨out, hOut, -⟩ := hInfers s hs
        obtain ⟨-, hSum, hFit, -⟩ := (hOutput out).mp hOut
        exact ⟨hNotLast, hSum, hFit⟩
      · rintro ⟨-, hSum, hFit⟩
        constructor
        · constructor
          · rintro -
            exact ⟨_, (hChecks _).mpr ⟨hSame, rfl⟩⟩
          · rintro -
            exact ⟨_, (hHelper _).mpr ⟨hSame, hSum, rfl⟩⟩
        · intro s hs
          exact ⟨_, (hOutput _).mpr ⟨hSame, hSum, hFit, rfl⟩, ((hHelper s).mp hs).2.2⟩
    · constructor
      · rintro ⟨hIff, hInfers⟩
        obtain rfl : concatDim = -1 := not_not.mp hNotLast
        obtain ⟨s, hs⟩ := hIff.mpr ⟨_, (hChecks _).mpr ⟨hSame, rfl⟩⟩
        obtain ⟨out, hOut, rfl⟩ := hInfers s hs
        obtain ⟨-, -, -, rfl⟩ := (hOutput out).mp hOut
        have hRanks : ∀ input ∈ values.map ofSizes, input.HasRank r := by
          intro input hInput
          obtain ⟨v, hv, rfl⟩ := mem_map.mp hInput
          exact hLength v hv ▸ (completes_ofSizes v).hasRank
        have hJoined : (joined (-1) r values).length = r := by
          rw [joined, length_set, length_head hValues hLength]
        have hUnknown := (concatShapeHelper_last hDim hr hRank (by simpa using hValues) hRanks
          hJoined).mp ⟨_, hs, completes_ofSizes _⟩
        obtain ⟨v, rest, rfl⟩ := exists_cons_of_ne_nil hValues
        cases hUnknown (ofSizes v) mem_cons_self
      · rintro ⟨h, -⟩
        exact absurd h hNotLast
  · have hSome : ∃ v ∈ values, ¬ SameElsewhere (axisIndex concatDim r) v (values.headD []) := by
      push Not at hSame
      exact hSame
    have hFails : ∀ s, concatShapeHelper dimShape (some concatDim) (values.map ofSizes) ≠
      .ok s := by
      intro s hs
      apply hSame
      by_cases hNotLast : concatDim ≠ -1
      · exact ((concatShapeHelper_ofSizes hRank hLow hHigh hValues hLength hDim hSizes hNotLast
          s).mp hs).1
      · obtain rfl : concatDim = -1 := not_not.mp hNotLast
        exact sameElsewhere_of_last hDim hr hRank hValues hLength hs
    constructor
    · rintro -
      exact Or.inl hSome
    · rintro -
      constructor
      · constructor
        · rintro ⟨s, hs⟩
          exact absurd hs (hFails s)
        · rintro ⟨n, hn⟩
          exact absurd ((hChecks n).mp hn).1 hSame
      · intro s hs
        exact absurd hs (hFails s)

theorem infersOutput_iff (hInputs : Forall₂ Completes values inputs) {out : List Nat}
    (hOut : outputShape legacy concatDim values = .ok out) :
    (∃ s, concatShapeHelper dimShape (some concatDim) inputs = .ok s ∧ s.Completes out) ↔
      concatDim ≠ -1 ∨ ∀ input ∈ inputs, input = none := by
  obtain ⟨hSame, hSum, -, rfl⟩ :=
    (outputShape_eq_ok legacy hr hLow hHigh hValues hLength out).mp hOut
  by_cases hNotLast : concatDim ≠ -1
  · constructor
    · rintro -
      exact Or.inl hNotLast
    · rintro -
      exact concatShapeHelper_completes hRank hLow hHigh hValues hLength hDim hNotLast
        hInputs hSame hSum
  · rw [or_iff_right hNotLast]
    obtain rfl : concatDim = -1 := not_not.mp hNotLast
    have hRanks : ∀ input ∈ inputs, input.HasRank r := by
      intro input hInput
      obtain ⟨i, hi, rfl⟩ := mem_iff_getElem.mp hInput
      have hi' : i < values.length := hInputs.length_eq ▸ hi
      have hCompletes := (forall₂_iff_get.mp hInputs).2 i hi' hi
      exact hLength _ (getElem_mem hi') ▸ Completes.hasRank hCompletes
    have hNonempty : inputs ≠ [] := by
      rintro rfl
      cases hInputs
      exact hValues rfl
    have hJoined : (joined (-1) r values).length = r := by
      rw [joined, length_set, length_head hValues hLength]
    exact concatShapeHelper_last hDim hr hRank hNonempty hRanks hJoined

/-- Inference agrees with the kernel for axes other than -1 and outputs that fit. -/
theorem concatShapeHelper_agrees_iff (hSizes : ∀ v ∈ values, ∀ n ∈ v, (n : Int) ≤ int64Max) :
    (AgreesOnKnown legacy dimShape concatDim values ↔
      (∃ v ∈ values, ¬ SameElsewhere (axisIndex concatDim r) v (values.headD [])) ∨
        (concatDim ≠ -1 ∧ (sumAt (axisIndex concatDim r) values : Int) ≤ int64Max ∧
          elementsFit 1 (joined concatDim r values))) ∧
    ∀ inputs, Forall₂ Completes values inputs →
      ∀ out, outputShape legacy concatDim values = .ok out →
        ((∃ s, concatShapeHelper dimShape (some concatDim) inputs = .ok s ∧ s.Completes out) ↔
          concatDim ≠ -1 ∨ ∀ input ∈ inputs, input = none) := by
  constructor
  · exact agreesOnKnown_iff legacy hDim hr hRank hLow hHigh hValues hLength hSizes
  · intro inputs hInputs out hOut
    exact infersOutput_iff legacy hDim hr hRank hLow hHigh hValues hLength hInputs hOut

end Agreement

theorem concatShapeHelper_agrees_iff_pair :
    (AgreesOnKnown false (some []) 0 [[2], [3]] ↔
      (∃ v ∈ [[2], [3]], ¬ SameElsewhere (axisIndex 0 1) v [2]) ∨
        ((0 : Int) ≠ -1 ∧ (sumAt (axisIndex 0 1) [[2], [3]] : Int) ≤ int64Max ∧
          elementsFit 1 (joined 0 1 [[2], [3]]))) ∧
    ∀ inputs, Forall₂ Completes [[2], [3]] inputs →
      ∀ out, outputShape false 0 [[2], [3]] = .ok out →
        ((∃ s, concatShapeHelper (some []) (some 0) inputs = .ok s ∧ s.Completes out) ↔
          (0 : Int) ≠ -1 ∨ ∀ input ∈ inputs, input = none) :=
  concatShapeHelper_agrees_iff false (show Completes [] (some []) from Forall₂.nil) (r := 1)
    (by decide) (by decide) (by decide) (by decide) (by decide) (by decide) (by decide)

/-- Vectors of sizes 2 and 2 are joined at the axis -1 by the kernel; a matrix is inferred. -/
theorem last_axis_disagrees :
    ¬ AgreesOnKnown false (some []) (-1) [[2], [2]] ∧
      outputShape false (-1) [[2], [2]] = .ok [4] ∧
      concatShapeHelper (some []) (some (-1)) [ofSizes [2], ofSizes [2]] =
        .ok (ofSizes [4, 2]) := by
  have hOutput : outputShape false (-1) [[2], [2]] = .ok [4] := by decide
  have hInferred : concatShapeHelper (some []) (some (-1)) ([[2], [2]].map ofSizes) =
      .ok (ofSizes [4, 2]) := by decide
  refine ⟨?_, hOutput, hInferred⟩
  rintro ⟨-, hInfers⟩
  obtain ⟨out, hOut, hSame⟩ := hInfers _ hInferred
  obtain rfl := ok.inj (hOutput.symm.trans hOut)
  revert hSame
  decide

end Concat

end TensorFlowOnSpark.Framework
