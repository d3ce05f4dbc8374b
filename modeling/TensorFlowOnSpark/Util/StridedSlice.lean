import TensorFlowOnSpark.Framework.ShapeInference

/-!
# Strided slices

`ValidateStridedSliceOp` of `util/strided_slice_op.cc`, for input shapes and bounds that
may be partly unknown.
-/

namespace TensorFlowOnSpark.Util.StridedSlice

open Framework Fallible List Option Except

/-- An `int32` with a bit for each entry of the specification. -/
abbrev Mask := BitVec 32

/-- A tensor of indices; `begin`, `end` and `strides` have one element type. -/
structure IndexTensor where
  shape : List Nat
  flat : List Int
  length_flat : flat.length = shape.prod
deriving DecidableEq

def IndexTensor.isVector (t : IndexTensor) : Bool := t.shape.length == 1

structure Masks where
  begin_ : Mask
  end_ : Mask
  ellipsis : Mask
  newAxis : Mask
  shrinkAxis : Mask
deriving DecidableEq

/-- `StridedSliceSparseSpec` -/
structure SparseSpec where
  dims : Nat
  numAddAxisAfterEllipsis : Nat
  (begin? end? : Option IndexTensor)
  strides : IndexTensor
  masks : Masks

/-- One dimension of `StridedSliceDenseSpec`, with its bits of the masks. -/
structure DenseDim where
  begin_ : Int
  end_ : Int
  stride : Int
  beginMasked : Bool
  endMasked : Bool
  shrink : Bool
deriving DecidableEq

/-- An entry of `final_shape_gather_indices` -/
inductive Gather where
  | index (i : Nat)
  | newAxis
  | shrinkAxis
deriving DecidableEq

/-- `StridedSliceDenseSpec`, with the dimensions that have been filled in. -/
structure DenseSpec where
  filled : List DenseDim
  gather : List Gather

namespace DenseDim

def all : DenseDim := ⟨0, 0, 1, true, true, false⟩

def zero : DenseDim := ⟨0, 0, 0, false, false, false⟩

end DenseDim

def valueAt (t : Option IndexTensor) (i : Nat) : Int :=
  match t with
  | none => 0
  | some t => t.flat.getD i 0

/-- The dimension that the entry `i` specifies. -/
def givenDim (sparse : SparseSpec) (i : Nat) : DenseDim where
  begin_ := valueAt sparse.begin? i
  end_ := valueAt sparse.end? i
  stride := sparse.strides.flat.getD i 0
  beginMasked := sparse.masks.begin_.getLsbD i
  endMasked := sparse.masks.end_.getLsbD i
  shrink := sparse.masks.shrinkAxis.getLsbD i

/-- Where the dimensions that an ellipsis at `i` stands for end. -/
def nextIndex (sparse : SparseSpec) (dims i : Nat) : Int :=
  min ((dims : Int) - ((sparse.dims : Int) - i) + 1 + sparse.numAddAxisAfterEllipsis) dims

/-- One turn of the loop of `BuildDenseSpec`. -/
def buildDim (sparse : SparseSpec) (dims : Nat) (dense : DenseSpec) (i : Nat) :
    Except Status DenseSpec :=
  let fullIndex := dense.filled.length
  if sparse.masks.ellipsis.getLsbD i then
    let count := (nextIndex sparse dims i - fullIndex).toNat
    .ok ⟨dense.filled ++ List.replicate count DenseDim.all,
      dense.gather ++ (List.range' fullIndex count).map Gather.index⟩
  else if sparse.masks.newAxis.getLsbD i then
    .ok ⟨dense.filled, dense.gather ++ [Gather.newAxis]⟩
  else if fullIndex = dims then
    .error (Errors.invalidArgument
      s!"Index out of range using input dim {fullIndex}; input has only {dims} dims")
  else
    let dim := givenDim sparse i
    .ok ⟨dense.filled ++ [dim],
      dense.gather ++ [if dim.shrink then Gather.shrinkAxis else Gather.index fullIndex]⟩

def buildDims (sparse : SparseSpec) (dims : Nat) : List Nat → DenseSpec → Except Status DenseSpec
  | [], dense => .ok dense
  | i :: rest, dense => do
    let dense ← buildDim sparse dims dense i
    buildDims sparse dims rest dense

def buildDenseSpec (sparse : SparseSpec) (dims : Nat) : Except Status DenseSpec :=
  buildDims sparse dims (List.range sparse.dims) ⟨[], []⟩

def countNewAxes (masks : Masks) : List Nat → Bool → Nat → Bool × Nat
  | [], seen, count => (seen, count)
  | i :: rest, seen, count =>
    countNewAxes masks rest (seen || masks.ellipsis.getLsbD i)
      (if seen && masks.newAxis.getLsbD i then count + 1 else count)

def sparseSpec (begin? end? : Option IndexTensor) (strides : IndexTensor) (masks : Masks) :
    SparseSpec :=
  let dims := strides.flat.length
  let (seen, count) := countNewAxes masks (List.range dims) false 0
  if seen then ⟨dims, count, begin?, end?, strides, masks⟩
  else
    ⟨dims + 1, count, begin?, end?, strides,
      { masks with ellipsis := masks.ellipsis ||| (1 : Mask) <<< dims }⟩

/-- What the loop of step 3 leaves of a dimension: its bounds, its size in the processing shape
and what it does to the three flags. -/
structure ProcessedDim where
  begin_ : Int
  end_ : Int
  stride : Int
  size : Dim
  isIdentity : Bool
  isSimpleSlice : Bool
  sliceDim0 : Bool

/-- `valid_range`, of a bound that is no end or is one. -/
def validRange (stride dim : Int) : Bool → Int
  | false => if stride > 0 then 0 else -1
  | true => if stride > 0 then dim else dim - 1

def forward (dim x : Int) : Int := if x < 0 then dim + x else x

def canonical (stride dim : Int) (masked : Bool) (x : Int) (isEnd : Bool) : Int :=
  if masked then if stride > 0 then validRange stride dim isEnd else validRange stride dim (!isEnd)
  else if forward dim x < validRange stride dim false then validRange stride dim false
  else if forward dim x > validRange stride dim true then validRange stride dim true
  else forward dim x

/-- `interval_length`, if it is known. -/
def knownInterval (valid : Bool) (d : DenseDim) (dim begin_ end_ : Int) : Option Int :=
  if valid then some (end_ - begin_)
  else if d.shrink then some 1
  else if d.beginMasked && d.endMasked then
    if dim > 0 then some (if d.stride < 0 then -dim else dim) else none
  else none

def intervalSize (interval stride : Int) : Nat :=
  if interval = 0 ∨ (decide (interval < 0) != decide (stride < 0)) then 0
  else (interval.tdiv stride + if interval.tmod stride ≠ 0 then 1 else 0).toNat

/-- The bounds of a dimension of a known size, if both tensors are given. -/
def bounds (valid : Bool) (i : Nat) (d : DenseDim) (dim : Nat) : Except Status (Int × Int) :=
  if valid then
    if d.shrink then
      let xFwd := forward dim d.begin_
      if xFwd < 0 ∨ xFwd ≥ dim then
        .error (Errors.invalidArgument s!"slice index {xFwd} of dimension {i} out of bounds.")
      else .ok (xFwd, xFwd + 1)
    else
      .ok (canonical d.stride dim d.beginMasked d.begin_ false,
        canonical d.stride dim d.endMasked d.end_ true)
  else .ok (d.begin_, d.end_)

/-- One turn of the loop of step 3; `valid` says that both tensors are given. -/
def processDim (valid : Bool) (i : Nat) (d : DenseDim) (dim? : Dim) : Except Status ProcessedDim :=
  if d.stride = 0 then .error (Errors.invalidArgument s!"strides[{i}] must be non-zero")
  else
    match dim? with
    | none =>
      .ok ⟨d.begin_, d.end_, d.stride, if d.shrink then some 1 else none, true, true, true⟩
    | some dim =>
      if d.shrink ∧ d.stride ≤ 0 then
        .error (Errors.invalidArgument "only stride 1 allowed on non-range indexing.")
      else do
        let (begin_, end_) ← bounds valid i d dim
        let takeAll := if valid then d.stride == 1 && begin_ == 0 && end_ == dim
          else d.beginMasked && d.endMasked
        let size := (knownInterval valid d dim begin_ end_).map fun n => intervalSize n d.stride
        .ok ⟨begin_, end_, d.stride, size, d.stride == 1 && takeAll, d.stride == 1,
          (i == 0 && d.stride == 1) || takeAll⟩

def processDims (valid : Bool) : Nat → List DenseDim → List Dim → Except Status (List ProcessedDim)
  | i, d :: filled, dim? :: dims => do
    let processed ← processDim valid i d dim?
    let rest ← processDims valid (i + 1) filled dims
    .ok (processed :: rest)
  | _, _, _ => .ok []

structure Validated where
  processed : List ProcessedDim
  finalShape : List Dim

namespace Validated

def processingShape (v : Validated) : List Dim := v.processed.map ProcessedDim.size

def isIdentity (v : Validated) : Bool := v.processed.all ProcessedDim.isIdentity

def isSimpleSlice (v : Validated) : Bool := v.processed.all ProcessedDim.isSimpleSlice

def sliceDim0 (v : Validated) : Bool := v.processed.all ProcessedDim.sliceDim0

end Validated

def gatherShape (processing : List Dim) (gather : List Gather) : List Dim :=
  gather.filterMap fun
    | .index i => some (processing.getD i none)
    | .newAxis => some (some 1)
    | .shrinkAxis => none

def boundIsWrong (strides : IndexTensor) (limit : Option Nat) : Option IndexTensor → Bool
  | none => false
  | some t =>
    !(t.isVector && t.flat.length == strides.flat.length && limit.all (t.flat.length < ·))

def wrongShapes (begin? end? : Option IndexTensor) (strides : IndexTensor) : Status :=
  match begin?, end? with
  | some begin_, some end_ => Errors.invalidArgument
    (s!"Expected begin, end, and strides to be 1D equal size tensors, but got shapes " ++
      s!"{debugString begin_.shape}, {debugString end_.shape}, and " ++
      s!"{debugString strides.shape} instead.")
  | _, _ => Errors.invalidArgument
    (s!"Expected begin, end, and strides to be 1D equal size tensors, but got shape " ++
      s!"{debugString strides.shape} for strides.")

def validateStridedSliceOp (begin? end? : Option IndexTensor) (strides : IndexTensor)
    (masks : Masks)
    (inputShape : List Dim) : Except Status Validated :=
  if boundIsWrong strides (some 32) begin? ∨ boundIsWrong strides none end? ∨
    ¬ strides.isVector then
    .error (wrongShapes begin? end? strides)
  else if masks.ellipsis ≠ 0 ∧ masks.ellipsis &&& (masks.ellipsis - 1) ≠ 0 then
    .error (Errors.invalidArgument "Multiple ellipses in slice spec not allowed")
  else do
    let dims := inputShape.length
    let dense ← buildDenseSpec (sparseSpec begin? end? strides masks) dims
    let filled := dense.filled ++ List.replicate (dims - dense.filled.length) DenseDim.zero
    let processed ← processDims (begin?.isSome && end?.isSome) 0 filled inputShape
    .ok ⟨processed, gatherShape (processed.map ProcessedDim.size) dense.gather⟩

theorem exists_sparseSpec (strides : IndexTensor) (masks : Masks) :
    ∃ n count masks', ∀ begin? end?,
      sparseSpec begin? end? strides masks = ⟨n, count, begin?, end?, strides, masks'⟩ := by
  rcases hCount : countNewAxes masks (List.range strides.flat.length) false 0 with ⟨seen, count⟩
  cases seen with
  | false => exact ⟨_, _, _, fun _ _ => by simp only [sparseSpec, hCount]; rfl⟩
  | true => exact ⟨_, _, _, fun _ _ => by simp only [sparseSpec, hCount]; rfl⟩

/-- The gather indices of a specification: `none` is a new axis, and the dimensions are
counted from `i`. -/
def gatherOf : Nat → List (Option DenseDim) → List Gather
  | _, [] => []
  | i, none :: items => Gather.newAxis :: gatherOf i items
  | i, some d :: items =>
    (if d.shrink then Gather.shrinkAxis else Gather.index i) :: gatherOf (i + 1) items

def finalOf {α : Type} (one : α) : List (Option DenseDim) → List α → List α
  | none :: items, sizes => one :: finalOf one items sizes
  | some d :: items, size :: sizes =>
    if d.shrink then finalOf one items sizes else size :: finalOf one items sizes
  | _, _ => []

def dimsOf (items : List (Option DenseDim)) : List DenseDim := items.filterMap id

@[simp] theorem dimsOf_append (items more : List (Option DenseDim)) :
    dimsOf (items ++ more) = dimsOf items ++ dimsOf more := filterMap_append

@[simp] theorem dimsOf_none (items : List (Option DenseDim)) :
    dimsOf (none :: items) = dimsOf items := rfl

@[simp] theorem dimsOf_some (d : DenseDim) (items : List (Option DenseDim)) :
    dimsOf (some d :: items) = d :: dimsOf items := rfl

theorem gatherOf_append (i : Nat) (items more : List (Option DenseDim)) :
    gatherOf i (items ++ more) = gatherOf i items ++ gatherOf (i + (dimsOf items).length) more := by
  induction items generalizing i with
  | nil => rfl
  | cons item items ih =>
    cases item with
    | none => simp [gatherOf, ih]
    | some d => simp [gatherOf, ih, Nat.add_assoc, Nat.add_comm 1]

theorem gatherOf_all (i count : Nat) :
    gatherOf i (List.replicate count (some DenseDim.all)) =
      (List.range' i count).map Gather.index := by
  induction count generalizing i with
  | zero => rfl
  | succ count ih =>
    simp only [replicate_succ, gatherOf, ih]
    rfl

theorem dimsOf_all (count : Nat) :
    dimsOf (List.replicate count (some DenseDim.all)) = List.replicate count DenseDim.all := by
  induction count with
  | zero => rfl
  | succ count ih => simp [replicate_succ, ih]

/-- The dense specification is that of some items with at most `dims` dimensions, after some
turns of the loop. -/
structure DenseSpec.Of (dims turns : Nat) (items : List (Option DenseDim)) (dense : DenseSpec) :
    Prop where
  filled : dense.filled = dimsOf items
  gather : dense.gather = gatherOf 0 items
  rank : (dimsOf items).length ≤ dims
  length : items.length ≤ (dimsOf items).length + turns

variable {items : List (Option DenseDim)} {sparse : SparseSpec} {dense dense' : DenseSpec}

variable {i : Nat}

theorem buildDim_of {dims turns : Nat} (h : dense.Of dims turns items)
    (hStep : buildDim sparse dims dense i = .ok dense') :
    ∃ items', dense'.Of dims (turns + 1) items' := by
  have hRank := h.rank
  have hItems := h.length
  simp only [buildDim, h.filled, h.gather] at hStep
  split at hStep
  · rw [← ok.inj hStep]
    let count := (nextIndex sparse dims i - (dimsOf items).length).toNat
    have hNext : nextIndex sparse dims i ≤ dims := Int.min_le_right _ _
    refine ⟨items ++ List.replicate count (some DenseDim.all), ?_, ?_, ?_, ?_⟩
    · rw [dimsOf_append, dimsOf_all]
    · rw [gatherOf_append, gatherOf_all, Nat.zero_add]
    · rw [dimsOf_append, dimsOf_all, length_append, length_replicate]
      omega
    · rw [dimsOf_append, dimsOf_all]
      simp only [length_append, length_replicate]
      omega
  · split at hStep
    · rw [← ok.inj hStep]
      refine ⟨items ++ [none], ?_, ?_, ?_, ?_⟩
      · simp [dimsOf]
      · rw [gatherOf_append]
        rfl
      · simpa [dimsOf] using hRank
      · rw [dimsOf_append]
        simp only [length_append, length_cons, length_nil]
        omega
    · split at hStep
      · cases hStep
      · rename_i hRange
        rw [← ok.inj hStep]
        refine ⟨items ++ [some (givenDim sparse i)], ?_, ?_, ?_, ?_⟩
        · rw [dimsOf_append]
          rfl
        · rw [gatherOf_append, Nat.zero_add]
          rfl
        · rw [dimsOf_append, length_append]
          exact Nat.lt_of_le_of_ne hRank hRange
        · rw [dimsOf_append]
          simp only [length_append, length_cons, length_nil]
          omega

theorem buildDims_of {dims turns : Nat} (indices : List Nat) (h : dense.Of dims turns items)
    (hRun : buildDims sparse dims indices dense = .ok dense') :
    ∃ items', dense'.Of dims (turns + indices.length) items' := by
  induction indices generalizing dense items turns with
  | nil => exact ⟨items, ok.inj hRun ▸ h⟩
  | cons i rest ih =>
    simp only [buildDims, bind_eq_ok] at hRun
    obtain ⟨next, hStep, hRest⟩ := hRun
    obtain ⟨items', hNext⟩ := buildDim_of h hStep
    obtain ⟨items'', hLast⟩ := ih hNext hRest
    rw [Nat.add_assoc, Nat.add_comm 1] at hLast
    exact ⟨items'', hLast⟩

theorem buildDenseSpec_of {dims : Nat} {dense : DenseSpec}
    (h : buildDenseSpec sparse dims = .ok dense) : ∃ items, dense.Of dims sparse.dims items := by
  have hEmpty : DenseSpec.Of dims 0 [] ⟨[], []⟩ := ⟨rfl, rfl, Nat.zero_le dims, Nat.zero_le 0⟩
  have hDense := buildDims_of _ hEmpty h
  rw [List.length_range, Nat.zero_add] at hDense
  exact hDense

theorem gatherShape_gatherOf (i : Nat) (items : List (Option DenseDim)) (processing : List Dim)
    (h : i + (dimsOf items).length ≤ processing.length) :
    gatherShape processing (gatherOf i items) = finalOf (some 1) items (processing.drop i) := by
  induction items generalizing i with
  | nil => rfl
  | cons item items ih =>
    cases item with
    | none =>
      rw [finalOf, ← ih i h]
      rfl
    | some d =>
      rw [dimsOf_some, length_cons] at h
      have hi : i < processing.length := by omega
      rw [drop_eq_getElem_cons hi, finalOf, ← ih (i + 1) (by omega), gatherOf]
      split
      · rfl
      · simp [gatherShape, getElem?_eq_getElem hi]

theorem finalOf_map {α β : Type} (f : α → β) (one : α) (items : List (Option DenseDim))
    (sizes : List α) : finalOf (f one) items (sizes.map f) = (finalOf one items sizes).map f := by
  induction items generalizing sizes with
  | nil => rfl
  | cons item items ih =>
    cases item with
    | none => simp only [finalOf, ih, map_cons]
    | some d =>
      cases sizes with
      | nil => rfl
      | cons size sizes =>
        simp only [map_cons, finalOf, ih]
        split <;> rfl

variable {sizes : List Nat}

variable {dims : List Dim}

theorem finalOf_refines (items : List (Option DenseDim))
    (h : List.Forall₂ Dim.Completes sizes dims) :
    List.Forall₂ Dim.Completes (finalOf 1 items sizes) (finalOf (some 1) items dims) := by
  induction items generalizing sizes dims with
  | nil => exact List.Forall₂.nil
  | cons item items ih =>
    cases item with
    | none => exact List.Forall₂.cons (Dim.Completes.some_iff.mpr rfl) (ih h)
    | some d =>
      cases h with
      | nil => exact List.Forall₂.nil
      | cons hHead hTail =>
        simp only [finalOf]
        split
        · exact ih hTail
        · exact List.Forall₂.cons hHead (ih hTail)

def StandsFor (t? : Option IndexTensor) (t : IndexTensor) : Prop := ∀ t', t? = some t' → t' = t

structure DenseDim.Refines (valid : Bool) (d full : DenseDim) : Prop where
  bounds : valid = true → d.begin_ = full.begin_ ∧ d.end_ = full.end_
  stride : d.stride = full.stride
  beginMasked : d.beginMasked = full.beginMasked
  endMasked : d.endMasked = full.endMasked
  shrink : d.shrink = full.shrink

theorem DenseDim.Refines.refl (valid : Bool) (d : DenseDim) : d.Refines valid d :=
  ⟨fun _ => ⟨rfl, rfl⟩, rfl, rfl, rfl, rfl⟩

def DenseSpec.Refines (valid : Bool) (dense full : DenseSpec) : Prop :=
  List.Forall₂ (DenseDim.Refines valid) dense.filled full.filled ∧ dense.gather = full.gather

section Partial

variable {begin? end? : Option IndexTensor} {begin_ end_ : IndexTensor}
  (hBegin : StandsFor begin? begin_) (hEnd : StandsFor end? end_)

include hBegin hEnd
variable {strides : IndexTensor} {masks : Masks} {dims : Nat} {full : DenseSpec}

variable {dense full' : DenseSpec}

theorem buildDim_refines {n count i : Nat} (h : dense.Refines (begin?.isSome && end?.isSome) full)
    (hFull : buildDim ⟨n, count, some begin_, some end_, strides, masks⟩ dims full i = .ok full') :
    ∃ dense', buildDim ⟨n, count, begin?, end?, strides, masks⟩ dims dense i = .ok dense' ∧
      dense'.Refines (begin?.isSome && end?.isSome) full' := by
  obtain ⟨hFilled, hGather⟩ := h
  have hLength := hFilled.length_eq
  unfold buildDim at hFull ⊢
  simp only [hLength, hGather] at hFull ⊢
  split at hFull
  · rename_i hEllipsis
    rw [if_pos hEllipsis]
    rw [← ok.inj hFull]
    refine ⟨_, rfl, rel_append hFilled ?_, rfl⟩
    exact forall₂_same.mpr fun d _ => DenseDim.Refines.refl _ d
  · rename_i hEllipsis
    rw [if_neg hEllipsis]
    split at hFull
    · rename_i hNewAxis
      rw [if_pos hNewAxis]
      rw [← ok.inj hFull]
      exact ⟨_, rfl, hFilled, rfl⟩
    · rename_i hNewAxis
      rw [if_neg hNewAxis]
      split at hFull
      · cases hFull
      · rename_i hRange
        rw [if_neg hRange]
        rw [← ok.inj hFull]
        refine ⟨_, rfl, rel_append hFilled (List.Forall₂.cons ?_ List.Forall₂.nil), rfl⟩
        refine ⟨?_, rfl, rfl, rfl, rfl⟩
        intro hValid
        rw [Bool.and_eq_true, isSome_iff_exists, isSome_iff_exists] at hValid
        obtain ⟨⟨b, rfl⟩, e, rfl⟩ := hValid
        rw [hBegin b rfl, hEnd e rfl]
        exact ⟨rfl, rfl⟩

theorem buildDims_refines {n count : Nat}
    (indices : List Nat)
    (h : dense.Refines (begin?.isSome && end?.isSome) full)
    (hFull : buildDims ⟨n, count, some begin_, some end_, strides, masks⟩ dims indices full =
      .ok full') :
    ∃ dense', buildDims ⟨n, count, begin?, end?, strides, masks⟩ dims indices dense = .ok dense' ∧
      dense'.Refines (begin?.isSome && end?.isSome) full' := by
  induction indices generalizing dense full with
  | nil => exact ⟨dense, rfl, ok.inj hFull ▸ h⟩
  | cons i rest ih =>
    simp only [buildDims, bind_eq_ok] at hFull ⊢
    obtain ⟨next, hStep, hRest⟩ := hFull
    obtain ⟨next', hStep', hNext⟩ := buildDim_refines hBegin hEnd h hStep
    obtain ⟨dense', hRest', hDense⟩ := ih hNext hRest
    exact ⟨dense', ⟨next', hStep', hRest'⟩, hDense⟩

theorem buildDenseSpec_refines
    (hFull : buildDenseSpec (sparseSpec (some begin_) (some end_) strides masks) dims = .ok full) :
    ∃ dense, buildDenseSpec (sparseSpec begin? end? strides masks) dims = .ok dense ∧
      dense.Refines (begin?.isSome && end?.isSome) full := by
  have hEmpty : DenseSpec.Refines (begin?.isSome && end?.isSome) ⟨[], []⟩ ⟨[], []⟩ :=
    ⟨List.Forall₂.nil, rfl⟩
  obtain ⟨n, count, masks', hSparse⟩ := exists_sparseSpec strides masks
  rw [hSparse] at hFull
  rw [hSparse]
  exact buildDims_refines hBegin hEnd _ hEmpty hFull

omit hBegin hEnd in
theorem boundIsWrong_of_full {strides : IndexTensor} {limit : Option Nat} {t? : Option IndexTensor}
    {t : IndexTensor} (h : StandsFor t? t) (hFull : boundIsWrong strides limit (some t) = false) :
    boundIsWrong strides limit t? = false := by
  cases t? with
  | none => rfl
  | some t' =>
    rw [h t' rfl]
    exact hFull

end Partial

theorem intervalSize_one {stride : Int} (h : 0 < stride) : intervalSize 1 stride = 1 := by
  have hNotDegenerate : ¬ ((1 : Int) = 0 ∨ (decide ((1 : Int) < 0) != decide (stride < 0))) := by
    have hNot : ¬ stride < 0 := by omega
    simp [hNot]
  rw [intervalSize, if_neg hNotDegenerate]
  by_cases hOne : stride = 1
  · simp [hOne]
  · have hLess : (1 : Int) < stride := by omega
    rw [Int.tdiv_eq_zero_of_lt (by decide) hLess, Int.tmod_eq_of_lt (by decide) hLess]
    rfl

theorem interval_of_masked {stride : Int} (dim : Int) (x y : Int) :
    canonical stride dim true y true - canonical stride dim true x false =
      if stride ≤ 0 then -dim else dim := by
  simp only [canonical, validRange, if_true, Bool.not_true, Bool.not_false]
  split <;> split <;> omega

variable {d : DenseDim}

theorem size_full {n : Nat} {p : ProcessedDim}
    (h : processDim true i d (some n) = .ok p) :
    p.size = some (intervalSize (p.end_ - p.begin_) d.stride) ∧
      (d.shrink = true → p.size = some 1) := by
  simp only [processDim] at h
  split at h
  · cases h
  · split at h
    · cases h
    · rename_i hShrink
      simp only [bind_eq_ok] at h
      obtain ⟨⟨b, e⟩, hBounds, hp⟩ := h
      rw [← ok.inj hp]
      refine ⟨rfl, ?_⟩
      intro hShrunk
      simp only [bounds, if_true, hShrunk] at hBounds
      split at hBounds
      · cases hBounds
      · obtain ⟨rfl, rfl⟩ := Prod.mk.inj (ok.inj hBounds)
        have hStride : 0 < d.stride := by
          by_contra hNot
          exact hShrink ⟨hShrunk, by omega⟩
        simp only [knownInterval, if_true, map_some]
        have hOne : forward n d.begin_ + 1 - forward n d.begin_ = 1 := by omega
        rw [hOne, intervalSize_one hStride]

theorem knownInterval_of_bounds {dim : Nat} {full : DenseDim} (h : d.Refines false full)
    (hStride : full.stride ≠ 0) {b e x y n : Int} (hBounds : bounds true i full dim = .ok (b, e))
    (hKnown : knownInterval false d dim x y = some n) : n = e - b := by
  simp only [bounds] at hBounds
  simp only [knownInterval, h.shrink, h.stride, h.beginMasked, h.endMasked] at hKnown
  cases hShrink : full.shrink with
  | true =>
    simp only [hShrink, if_true] at hBounds hKnown
    split at hBounds
    · cases hBounds
    · obtain ⟨rfl, rfl⟩ := Prod.mk.inj (ok.inj hBounds)
      rw [← some.inj hKnown]
      omega
  | false =>
    simp only [hShrink, Bool.false_eq_true, if_false] at hBounds hKnown
    obtain ⟨rfl, rfl⟩ := Prod.mk.inj (ok.inj hBounds)
    split at hKnown
    · rename_i hMasked
      obtain ⟨hBegin, hEnd⟩ := Bool.and_eq_true_iff.mp hMasked
      rw [hBegin, hEnd, interval_of_masked]
      split at hKnown
      · rw [← some.inj hKnown]
        split <;> split <;> omega
      · cases hKnown
    · cases hKnown

variable {valid : Bool}

theorem processDim_refines {n : Nat} {full : DenseDim} {dim? : Dim} {p' : ProcessedDim}
    (h : d.Refines valid full) (hDim : Dim.Completes n dim?)
    (hFull : processDim true i full (some n) = .ok p') :
    ∃ p, processDim valid i d dim? = .ok p ∧
      ∃ m, p'.size = some m ∧ Dim.Completes m p.size := by
  obtain ⟨hSize, hOne⟩ := size_full hFull
  simp only [processDim, h.stride] at hFull ⊢
  split at hFull
  · cases hFull
  · rename_i hStride
    rw [if_neg hStride]
    cases dim? with
    | none =>
      refine ⟨_, rfl, _, hSize, ?_⟩
      intro m hm
      split at hm
      · rename_i hShrink
        rw [hOne (h.shrink ▸ hShrink)] at hSize
        rw [← some.inj hm]
        exact some.inj hSize
      · cases hm
    | some dim =>
      obtain rfl := Dim.Completes.some_iff.mp hDim
      simp only [h.shrink] at hFull ⊢
      split at hFull
      · cases hFull
      · rename_i hShrink
        rw [if_neg hShrink]
        simp only [bind_eq_ok] at hFull
        obtain ⟨⟨b, e⟩, hBounds, hp⟩ := hFull
        cases valid with
        | true =>
          have hSame : bounds true i d dim = .ok (b, e) := by
            rw [← hBounds]
            simp only [bounds, h.stride, h.shrink, h.beginMasked, h.endMasked, h.bounds rfl]
          rw [hSame]
          refine ⟨_, rfl, _, hSize, ?_⟩
          rw [← ok.inj hp]
          exact Dim.Completes.some_iff.mpr rfl
        | false =>
          refine ⟨_, rfl, _, hSize, ?_⟩
          intro m hm
          obtain ⟨n, hKnown, rfl⟩ := map_eq_some_iff.mp hm
          rw [knownInterval_of_bounds h hStride hBounds hKnown, ← ok.inj hp]

variable {filled : List DenseDim}

theorem processDims_refines {full : List DenseDim}
    {ps' : List ProcessedDim} (h : List.Forall₂ (DenseDim.Refines valid) filled full)
    (hDims : List.Forall₂ Dim.Completes sizes dims)
    (hFull : processDims true i full (sizes.map some) = .ok ps') :
    ∃ ps, processDims valid i filled dims = .ok ps ∧
      ∃ sizes', ps'.map ProcessedDim.size = sizes'.map some ∧
      List.Forall₂ Dim.Completes sizes' (ps.map ProcessedDim.size) := by
  induction h generalizing i dims sizes ps' with
  | nil =>
    refine ⟨[], ?_, [], ?_, List.Forall₂.nil⟩
    · cases dims <;> rfl
    · rw [← ok.inj hFull]
      rfl
  | cons hHead _ ih =>
    cases hDims with
    | nil =>
      rw [← ok.inj hFull]
      exact ⟨[], rfl, [], rfl, List.Forall₂.nil⟩
    | cons hDim hDims =>
      simp only [map_cons, processDims, bind_eq_ok] at hFull
      obtain ⟨p', hp', rest', hRest', hps'⟩ := hFull
      obtain ⟨p, hp, m, hm, hCompletes⟩ := processDim_refines hHead hDim hp'
      obtain ⟨rest, hRest, sizes', hSizes, hAll⟩ := ih hDims hRest'
      refine ⟨p :: rest, by simp only [processDims, hp, hRest, ok_bind], m :: sizes', ?_, ?_⟩
      · rw [← ok.inj hps', map_cons, hm, hSizes, map_cons]
      · exact List.Forall₂.cons hCompletes hAll

theorem processDims_length
    {ps : List ProcessedDim} (hLength : dims.length ≤ filled.length)
    (h : processDims valid i filled dims = .ok ps) : ps.length = dims.length := by
  induction dims generalizing filled i ps with
  | nil =>
    cases filled with
    | nil => exact congrArg List.length (ok.inj h).symm
    | cons d filled => exact congrArg List.length (ok.inj h).symm
  | cons dim? dims ih =>
    cases filled with
    | nil => exact absurd hLength (Nat.not_succ_le_zero _)
    | cons d filled =>
      simp only [processDims, bind_eq_ok] at h
      obtain ⟨p, -, rest, hRest, hps⟩ := h
      rw [← ok.inj hps, length_cons, length_cons, ih (Nat.le_of_succ_le_succ hLength) hRest]

/-- Whatever a full validation accepts, the validation of partial information accepts, and the
final shape that it finds is completed by that of the full one. -/
theorem validate_refines {begin? end? : Option IndexTensor} {begin_ end_ : IndexTensor}
    (hBegin : StandsFor begin? begin_) (hEnd : StandsFor end? end_) {strides : IndexTensor}
    {masks : Masks} {inputShape : List Dim} (hSizes : List.Forall₂ Dim.Completes sizes inputShape)
    {full : Validated}
    (hFull : validateStridedSliceOp (some begin_) (some end_) strides masks (sizes.map some) =
      .ok full) :
    ∃ v, validateStridedSliceOp begin? end? strides masks inputShape = .ok v ∧
      ∃ g, full.finalShape = g.map some ∧ List.Forall₂ Dim.Completes g v.finalShape := by
  have hRank : inputShape.length = (sizes.map some).length := by
    rw [length_map, hSizes.length_eq]
  unfold validateStridedSliceOp at hFull ⊢
  split at hFull
  · cases hFull
  · rename_i hShapes
    push Not at hShapes
    obtain ⟨hBeginFits, hEndFits, hVector⟩ := hShapes
    have hBeginFits' := boundIsWrong_of_full hBegin (Bool.eq_false_iff.mpr hBeginFits)
    have hEndFits' := boundIsWrong_of_full hEnd (Bool.eq_false_iff.mpr hEndFits)
    rw [if_neg (by simp [hBeginFits', hEndFits', hVector])]
    split at hFull
    · cases hFull
    · rename_i hEllipses
      rw [if_neg hEllipses]
      simp only [bind_eq_ok, hRank] at hFull ⊢
      obtain ⟨fullDense, hFullDense, fullProcessed, hFullProcessed, hResult⟩ := hFull
      obtain ⟨dense, hDense, hFilled, hGather⟩ := buildDenseSpec_refines hBegin hEnd hFullDense
      obtain ⟨items, hOf⟩ := buildDenseSpec_of hFullDense
      have hItems := hOf.gather
      have hCount := hOf.rank
      have hPadded : List.Forall₂ (DenseDim.Refines (begin?.isSome && end?.isSome))
          (dense.filled ++ List.replicate ((sizes.map some).length - dense.filled.length)
            DenseDim.zero)
          (fullDense.filled ++
            List.replicate ((sizes.map some).length - fullDense.filled.length) DenseDim.zero) := by
        rw [hFilled.length_eq]
        exact rel_append hFilled (forall₂_same.mpr fun d _ => DenseDim.Refines.refl _ d)
      obtain ⟨processed, hProcessed, sizes', hSizes', hCompletes⟩ :=
        processDims_refines hPadded hSizes hFullProcessed
      have hLengths : sizes'.length = (sizes.map some).length := by
        rw [← length_map (some : Nat → Dim), ← hSizes', length_map]
        apply processDims_length _ hFullProcessed
        rw [length_append, length_replicate]
        omega
      have hLengths' : (processed.map ProcessedDim.size).length = sizes'.length :=
        hCompletes.length_eq.symm
      refine ⟨_, ⟨dense, hDense, processed, hProcessed, rfl⟩, finalOf 1 items sizes', ?_, ?_⟩
      · rw [← ok.inj hResult]
        rw [hItems, gatherShape_gatherOf _ _ _ (by rw [hSizes', length_map]; omega), hSizes',
          drop_zero, finalOf_map]
      · rw [hGather, hItems, gatherShape_gatherOf _ _ _ (by omega)]
        exact finalOf_refines items hCompletes

/-- Validation on partial information is sound: a known dimension of the final shape is that of
every completion which the full validation accepts, and an error is an error of all of them. -/
theorem partialValidation_sound {begin? end? : Option IndexTensor} {begin_ end_ : IndexTensor}
    (hBegin : StandsFor begin? begin_) (hEnd : StandsFor end? end_) (strides : IndexTensor)
    (masks : Masks) {inputShape : List Dim} {sizes : List Nat}
    (hSizes : Shape.Completes sizes (some inputShape)) :
    (∀ v, validateStridedSliceOp begin? end? strides masks inputShape = .ok v →
      ∀ full, validateStridedSliceOp (some begin_) (some end_) strides masks (sizes.map some) =
          .ok full →
        ∃ g, full.finalShape = g.map some ∧ Shape.Completes g (some v.finalShape)) ∧
    ∀ status, validateStridedSliceOp begin? end? strides masks inputShape = .error status →
      ∃ status', validateStridedSliceOp (some begin_) (some end_) strides masks (sizes.map some) =
        .error status' := by
  constructor
  · intro v hv full hFull
    obtain ⟨v', hv', hFinal⟩ := validate_refines hBegin hEnd hSizes hFull
    obtain rfl := ok.inj (hv.symm.trans hv')
    exact hFinal
  · intro status hStatus
    cases hFull : validateStridedSliceOp (some begin_) (some end_) strides masks
        (sizes.map some) with
    | error status' => exact ⟨status', rfl⟩
    | ok full =>
      obtain ⟨v', hv', -⟩ := validate_refines hBegin hEnd hSizes hFull
      rw [hv'] at hStatus
      cases hStatus

theorem length_vector (values : List Int) : values.length = [values.length].prod := by simp

def vector (values : List Int) : IndexTensor := ⟨[values.length], values, length_vector values⟩

/-- The slice `x[:, b:e]` with an unknown bound `b` of a matrix with an unknown row number. -/
theorem partialValidation_sound_matrix :
    (∀ v, validateStridedSliceOp none (some (vector [0, 3])) (vector [1, 1]) ⟨1, 1, 0, 0, 0⟩
        [none, some 5] = .ok v →
      ∀ full, validateStridedSliceOp (some (vector [0, 1])) (some (vector [0, 3])) (vector [1, 1])
          ⟨1, 1, 0, 0, 0⟩ ([4, 5].map some) = .ok full →
        ∃ g, full.finalShape = g.map some ∧ Shape.Completes g (some v.finalShape)) ∧
    ∀ status, validateStridedSliceOp none (some (vector [0, 3])) (vector [1, 1]) ⟨1, 1, 0, 0, 0⟩
        [none, some 5] = .error status →
      ∃ status', validateStridedSliceOp (some (vector [0, 1])) (some (vector [0, 3]))
        (vector [1, 1]) ⟨1, 1, 0, 0, 0⟩ ([4, 5].map some) = .error status' := by
  have hBegin : StandsFor none (vector [0, 1]) := by
    intro t h
    cases h
  have hEnd : StandsFor (some (vector [0, 3])) (vector [0, 3]) := by
    intro t h
    exact (some.inj h).symm
  have hSizes : Shape.Completes [4, 5] (some [none, some 5]) :=
    List.Forall₂.cons (Dim.Completes.none 4)
      (List.Forall₂.cons (Dim.Completes.some_iff.mpr rfl) List.Forall₂.nil)
  exact partialValidation_sound hBegin hEnd (vector [1, 1]) ⟨1, 1, 0, 0, 0⟩ hSizes

open Int Nat

theorem intervalSize_neg (interval : Int) {stride : Int} (h : stride ≠ 0) :
    intervalSize (-interval) (-stride) = intervalSize interval stride := by
  by_cases hZero : interval = 0
  · simp [intervalSize, hZero]
  · have hSides : (decide (-interval < 0) != decide (-stride < 0)) =
        (decide (interval < 0) != decide (stride < 0)) := by
      rw [Bool.eq_iff_iff]
      simp only [bne_iff_ne, ne_eq, decide_eq_decide]
      omega
    have hRest : (-interval).tmod (-stride) ≠ 0 ↔ interval.tmod stride ≠ 0 := by
      rw [tmod_neg, neg_tmod, ne_eq, Int.neg_eq_zero]
    simp only [intervalSize, hSides, Int.neg_eq_zero, Int.neg_tdiv_neg, hRest]

theorem lt_intervalSize_forward {interval stride : Int} (h : 0 < stride) (k : Nat) :
    k < intervalSize interval stride ↔ k * stride < interval := by
  have hNot : ¬ stride < 0 := by omega
  have hProduct : 0 ≤ (k : Int) * stride := Int.mul_nonneg (natCast_nonneg k) (Int.le_of_lt h)
  by_cases hPositive : 0 < interval
  · have hSome : ¬ (interval = 0 ∨ (decide (interval < 0) != decide (stride < 0))) := by
      have hNot' : ¬ interval < 0 := by omega
      simp only [hNot, hNot', bne_self_eq_false, Bool.false_eq_true, or_false]
      omega
    rw [intervalSize, if_neg hSome, tdiv_eq_ediv_of_nonneg (Int.le_of_lt hPositive),
      tmod_eq_emod_of_nonneg (Int.le_of_lt hPositive)]
    have hParts := mul_ediv_add_emod interval stride
    have hLow := emod_nonneg interval (Int.ne_of_gt h)
    have hHigh := emod_lt_of_pos interval h
    rw [mul_comm] at hParts
    have hCompare : ∀ q : Int, (k : Int) ≤ q → k * stride ≤ q * stride := fun q hq =>
      Int.mul_le_mul_of_nonneg_right hq (Int.le_of_lt h)
    have hCompare' : ∀ q : Int, q ≤ k → q * stride ≤ k * stride := fun q hq =>
      Int.mul_le_mul_of_nonneg_right hq (Int.le_of_lt h)
    have hSucc := Int.add_mul (interval / stride) 1 stride
    split
    · constructor
      · intro hk
        have hLess := hCompare (interval / stride) (by omega)
        omega
      · intro hk
        by_contra hNot
        have hMore := hCompare' (interval / stride + 1) (by omega)
        omega
    · constructor
      · intro hk
        have hLess := hCompare (interval / stride - 1) (by omega)
        rw [Int.sub_mul] at hLess
        omega
      · intro hk
        by_contra hNot
        have hMore := hCompare' (interval / stride) (by omega)
        omega
  · have hNone : interval = 0 ∨ (decide (interval < 0) != decide (stride < 0)) := by
      by_cases hZero : interval = 0
      · exact Or.inl hZero
      · have hLess : interval < 0 := by omega
        exact Or.inr (by simp [hLess, hNot])
    rw [intervalSize, if_pos hNone]
    omega

theorem lt_intervalSize {b e s : Int} (h : s ≠ 0) (k : Nat) :
    k < intervalSize (e - b) s ↔ if 0 < s then b + k * s < e else e < b + k * s := by
  split
  · rename_i hForward
    rw [lt_intervalSize_forward hForward]
    omega
  · rename_i hBackward
    rw [← intervalSize_neg _ h, lt_intervalSize_forward (by omega), Int.mul_neg]
    omega

/-- What the loop leaves of the dimension `i` of size `n`, when the bounds are given. -/
structure Processed (i n : Nat) (p : ProcessedDim) : Prop where
  stride : p.stride ≠ 0
  size : p.size = some (intervalSize (p.end_ - p.begin_) p.stride)
  ahead : 0 < p.stride → 0 ≤ p.begin_ ∧ p.begin_ ≤ n ∧ p.end_ ≤ n
  back : p.stride < 0 → p.begin_ < n ∧ -1 ≤ p.end_
  isIdentity : p.isIdentity ↔ p.stride = 1 ∧ p.begin_ = 0 ∧ p.end_ = n
  isSimpleSlice : p.isSimpleSlice ↔ p.stride = 1
  sliceDim0 : p.sliceDim0 ↔
    (i = 0 ∧ p.stride = 1) ∨ (p.stride = 1 ∧ p.begin_ = 0 ∧ p.end_ = n)

theorem canonical_mem (stride : Int) (n : Nat) (masked : Bool) (x : Int) (isEnd : Bool) :
    (0 < stride → 0 ≤ canonical stride n masked x isEnd ∧ canonical stride n masked x isEnd ≤ n) ∧
      (¬ 0 < stride → -1 ≤ canonical stride n masked x isEnd ∧
        canonical stride n masked x isEnd < n) := by
  constructor
  · intro h
    cases isEnd <;> simp only [canonical, validRange] <;>
      split <;> (try split) <;> (try split) <;> omega
  · intro h
    cases isEnd <;> simp only [canonical, validRange] <;>
      split <;> (try split) <;> (try split) <;> omega

theorem processDim_processed {i n : Nat} {d : DenseDim} {p : ProcessedDim}
    (h : processDim true i d (some n) = .ok p) : Processed i n p ∧ p.stride = d.stride := by
  obtain ⟨hSize, -⟩ := size_full h
  simp only [processDim] at h
  split at h
  · cases h
  · rename_i hStride
    split at h
    · cases h
    · rename_i hShrink
      simp only [bind_eq_ok] at h
      obtain ⟨⟨b, e⟩, hBounds, hp⟩ := h
      have hb : (0 < d.stride → 0 ≤ b ∧ b ≤ n ∧ e ≤ n) ∧ (d.stride < 0 → b < n ∧ -1 ≤ e) := by
        simp only [bounds, if_true] at hBounds
        split at hBounds
        · rename_i hShrunk
          split at hBounds
          · cases hBounds
          · obtain ⟨rfl, rfl⟩ := Prod.mk.inj (ok.inj hBounds)
            omega
        · obtain ⟨rfl, rfl⟩ := Prod.mk.inj (ok.inj hBounds)
          have hBegin := canonical_mem d.stride n d.beginMasked d.begin_ false
          have hEnd := canonical_mem d.stride n d.endMasked d.end_ true
          constructor
          · intro hAhead
            exact ⟨(hBegin.1 hAhead).1, (hBegin.1 hAhead).2, (hEnd.1 hAhead).2⟩
          · intro hBack
            have hNot : ¬ 0 < d.stride := by omega
            exact ⟨(hBegin.2 hNot).2, (hEnd.2 hNot).1⟩
      obtain rfl := ok.inj hp
      refine ⟨⟨hStride, hSize, hb.1, hb.2, ?_, ?_, ?_⟩, rfl⟩
      · simp only [if_true, Bool.and_eq_true, beq_iff_eq]
        tauto
      · exact beq_iff_eq
      · simp only [if_true, Bool.or_eq_true, Bool.and_eq_true, beq_iff_eq]
        tauto

namespace Processed

variable {i n : Nat} {p : ProcessedDim}

theorem inBounds (h : Processed i n p) {k : Nat}
    (hk : k < intervalSize (p.end_ - p.begin_) p.stride) :
    0 ≤ p.begin_ + k * p.stride ∧ p.begin_ + k * p.stride < n := by
  rw [lt_intervalSize h.stride] at hk
  split at hk
  · rename_i hAhead
    obtain ⟨hLow, -, hHigh⟩ := h.ahead hAhead
    have hProduct := Int.mul_nonneg (natCast_nonneg k) (Int.le_of_lt hAhead)
    omega
  · rename_i hNot
    have hBack : p.stride < 0 := by
      have hStride := h.stride
      omega
    obtain ⟨hLow, hHigh⟩ := h.back hBack
    have hProduct := Int.mul_nonpos_of_nonneg_of_nonpos (natCast_nonneg k) (Int.le_of_lt hBack)
    omega

theorem size_le (h : Processed i n p) : intervalSize (p.end_ - p.begin_) p.stride ≤ n := by
  rcases hSize : intervalSize (p.end_ - p.begin_) p.stride with _ | m
  · exact zero_le n
  · have hLast : m < intervalSize (p.end_ - p.begin_) p.stride := by omega
    have hFirst : 0 < intervalSize (p.end_ - p.begin_) p.stride := by omega
    have hBounds := h.inBounds hLast
    have hBounds' := h.inBounds hFirst
    rcases Int.lt_or_gt_of_ne h.stride with hBack | hAhead
    · have hProduct : (m : Int) * p.stride ≤ m * (-1) :=
        Int.mul_le_mul_of_nonneg_left (by omega) (natCast_nonneg m)
      omega
    · have hProduct : (m : Int) * 1 ≤ m * p.stride :=
        Int.mul_le_mul_of_nonneg_left (by omega) (natCast_nonneg m)
      omega

theorem size_of_simple (h : Processed i n p) (hSimple : p.stride = 1) :
    intervalSize (p.end_ - p.begin_) p.stride = (p.end_ - p.begin_).toNat := by
  have hForward := fun k => lt_intervalSize (b := p.begin_) (e := p.end_) h.stride k
  simp only [hSimple, Int.zero_lt_one, if_true] at hForward ⊢
  apply Nat.le_antisymm
  · by_contra hNot
    have hLess := (hForward (p.end_ - p.begin_).toNat).mp (by omega)
    omega
  · by_contra hNot
    have hLess := (hForward (intervalSize (p.end_ - p.begin_) 1)).mpr (by omega)
    omega

end Processed

def ProcessedFrom : Nat → List Nat → List ProcessedDim → Prop
  | _, [], [] => True
  | i, n :: dims, p :: processed => Processed i n p ∧ ProcessedFrom (i + 1) dims processed
  | _, _, _ => False

variable {processed : List ProcessedDim} {dims : List Nat} {filled : List DenseDim}

theorem processDims_processed {i : Nat} (hLength : dims.length ≤ filled.length)
    (h : processDims true i filled (dims.map some) = .ok processed) :
    ProcessedFrom i dims processed := by
  induction dims generalizing i filled processed with
  | nil =>
    obtain rfl : processed = [] := by
      cases filled with
      | nil => exact (ok.inj h).symm
      | cons d filled => exact (ok.inj h).symm
    trivial
  | cons n dims ih =>
    cases filled with
    | nil => exact absurd hLength (not_succ_le_zero _)
    | cons d filled =>
      simp only [map_cons, processDims, bind_eq_ok] at h
      obtain ⟨p, hp, rest, hRest, hAll⟩ := h
      rw [← ok.inj hAll]
      exact ⟨(processDim_processed hp).1, ih (le_of_succ_le_succ hLength) hRest⟩

theorem processDims_specified {i : Nat} (hLength : dims.length = filled.length)
    (h : processDims true i filled (dims.map some) = .ok processed) :
    Forall₂ (fun d p => d.stride ≠ 0 ∧ (d.shrink → p.size = some 1)) filled
      processed := by
  induction dims generalizing i filled processed with
  | nil =>
    obtain rfl := length_eq_zero_iff.mp hLength.symm
    obtain rfl := ok.inj h
    exact Forall₂.nil
  | cons n dims ih =>
    cases filled with
    | nil => cases hLength
    | cons d filled =>
      simp only [map_cons, processDims, bind_eq_ok] at h
      obtain ⟨p, hp, rest, hRest, hAll⟩ := h
      obtain ⟨hProcessed, hStride⟩ := processDim_processed hp
      rw [← ok.inj hAll]
      exact Forall₂.cons ⟨hStride ▸ hProcessed.stride, (size_full hp).2⟩
        (ih (succ.inj hLength) hRest)

structure Validated.Of (rank : Nat) (items : List (Option DenseDim)) (v : Validated) : Prop where
  finalShape : v.finalShape = finalOf (some 1) items v.processingShape
  shrunk : Forall₂ (fun d p => d.shrink → p.size = some 1) (dimsOf items) v.processed
  length : items.length ≤ rank + 32

theorem sparseSpec_dims_le (begin? end? : Option IndexTensor) (strides : IndexTensor)
    (masks : Masks) : (sparseSpec begin? end? strides masks).dims ≤ strides.flat.length + 1 := by
  simp only [sparseSpec]
  split
  · exact le_succ _
  · exact Nat.le_refl _

theorem validate_accepts {begin_ end_ strides : IndexTensor} {masks : Masks} {v : Validated}
    (h : validateStridedSliceOp (some begin_) (some end_) strides masks (dims.map some) = .ok v) :
    ProcessedFrom 0 dims v.processed ∧ ∃ items, v.Of dims.length items := by
  unfold validateStridedSliceOp at h
  split at h
  · cases h
  · rename_i hShapes
    split at h
    · cases h
    · simp only [bind_eq_ok, length_map] at h
      obtain ⟨dense, hDense, processed, hProcessed, hv⟩ := h
      obtain ⟨items, hOf⟩ := buildDenseSpec_of hDense
      have hRank := hOf.rank
      have hLength : dims.length =
          (dense.filled ++ replicate (dims.length - dense.filled.length) DenseDim.zero).length := by
        rw [length_append, length_replicate, hOf.filled]
        omega
      have hSpecified := processDims_specified hLength hProcessed
      have hFull : dims.length - dense.filled.length = 0 := by
        by_contra hNot
        have hZero : DenseDim.zero ∈
            dense.filled ++ replicate (dims.length - dense.filled.length) DenseDim.zero := by
          rw [mem_append, mem_replicate]
          exact Or.inr ⟨hNot, rfl⟩
        obtain ⟨j, hj, hGet⟩ := mem_iff_getElem.mp hZero
        have hStride := ((forall₂_iff_get.mp hSpecified).2 j hj (hSpecified.length_eq ▸ hj)).1
        apply hStride
        rw [get_eq_getElem, hGet]
        rfl
      have hAll := processDims_processed (Nat.le_of_eq hLength) hProcessed
      rw [hFull, replicate_zero, append_nil, hOf.filled] at hSpecified
      rw [← ok.inj hv]
      refine ⟨hAll, items, ?_, ?_, ?_⟩
      · simp only [Validated.processingShape]
        rw [hOf.gather, gatherShape_gatherOf, drop_zero]
        exact Nat.le_of_eq (by rw [length_map, zero_add, hSpecified.length_eq])
      · exact hSpecified.imp fun _ _ hBoth => hBoth.2
      · have hTurns := hOf.length
        have hDims := sparseSpec_dims_le (some begin_) (some end_) strides masks
        have hStrides : strides.flat.length < 32 := by
          push Not at hShapes
          have hWrong := hShapes.1
          simp [boundIsWrong] at hWrong
          omega
        omega

end TensorFlowOnSpark.Util.StridedSlice
