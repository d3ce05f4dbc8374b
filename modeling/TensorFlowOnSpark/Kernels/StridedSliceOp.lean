import TensorFlowOnSpark.Lib.RowMajor
import TensorFlowOnSpark.Util.StridedSlice

/-!
# The strided slice kernel

`StridedSliceOp::Compute` of `kernels/strided_slice_op.cc` on a CPU, with the functions of
`kernels/ops_util.h` and `framework/tensor.cc` that it calls.
-/

namespace TensorFlowOnSpark.Kernels.StridedSliceOp

open Framework Fallible RowMajor Util.StridedSlice List

variable {α : Type}

structure Tensor (α : Type) where
  shape : List Nat
  data : List α
  length_data : data.length = shape.prod
  fits : elementsFit 1 shape

structure ElementType where
  size : Nat
  canUseMemcpy : Bool

/-- How the computation stops early: an error, a failed `CHECK`, or behaviour that is not
defined (a signed overflow or an access outside a buffer). -/
inductive Failure where
  | status (status : Status)
  | check
  | undefined
deriving DecidableEq

structure Output (α : Type) where
  shape : List Nat
  data : List (Option α)
deriving DecidableEq

def Steps (start stop stride : Int) (n : Nat) : Prop :=
  ∀ k : Nat, k < n ↔ if 0 < stride then start + k * stride < stop else stop < start + k * stride

/-- The slices of the tensor library: on bounds inside the array both give the elements that
they pick, in row-major order. -/
structure Eigen (α : Type) where
  slice : List Nat → List α → List Int → List Int → List α
  stridedSlice : List Nat → List α → List Int → List Int → List Int → List α
  slice_eq (dims : List Nat) (data : List α) (starts sizes : List Int) :
    data.length = dims.prod →
    (∀ k ∈ indices (sizes.map Int.toNat),
      InBounds dims (place starts (replicate starts.length 1) k)) →
    (slice dims data starts sizes).map some =
      sliced dims data starts (replicate starts.length 1) (sizes.map Int.toNat)
  stridedSlice_eq (dims : List Nat) (data : List α) (starts stops strides : List Int)
    (sizes : List Nat) :
    data.length = dims.prod →
    Forall₂ (fun b n => b.2.2 ≠ 0 ∧ Steps b.1 b.2.1 b.2.2 n)
      (starts.zip (stops.zip strides)) sizes →
    (∀ k ∈ indices sizes, InBounds dims (place starts strides k)) →
    (stridedSlice dims data starts stops strides).map some =
      sliced dims data starts strides sizes

/-- A tensor shape made by `add_dim`, with the checks of `AddDim`. -/
def tensorShape (dims : List Dim) : Except Failure (List Nat) :=
  let sizes := dims.map (Option.getD · 0)
  if dims.all Option.isSome ∧ sizes.length ≤ 254 ∧ elementsFit 1 sizes then .ok sizes
  else .error .check

def isInnerDimsSizeAligned (align : Nat) (type : ElementType) (shape : List Nat) : Bool :=
  match shape with
  | [] => false
  | dim0 :: _ => dim0 != 0 && shape.prod / dim0 * type.size % align == 0

def isDim0SliceAligned (align : Nat) (type : ElementType) (shape : List Nat) (start stop : Int) :
    Bool :=
  if shape.length = 1 then
    start * type.size % align == 0 && stop * type.size % align == 0
  else isInnerDimsSizeAligned align type shape

def check (b : Prop) [Decidable b] : Except Failure Unit := if b then .ok () else .error .check

/-- `Tensor::Slice`, with the checks of the sub-buffer. -/
def slice (t : Tensor α) (start limit : Int) : Except Failure (List Nat × List α) := do
  check (1 ≤ t.shape.length)
  check (0 ≤ start)
  check (start ≤ limit)
  let dim0 := t.shape.headD 0
  check (limit ≤ dim0)
  if start = 0 ∧ limit = dim0 then .ok (t.shape, t.data)
  else if 0 < dim0 then do
    let elemsPerDim0 := t.shape.prod / dim0
    let delta := start.toNat * elemsPerDim0
    let shape := t.shape.set 0 (limit - start).toNat
    check (elementsFit 1 shape)
    let numElems := (limit - start).toNat * elemsPerDim0
    check (delta + numElems ≤ t.data.length)
    .ok (shape, (t.data.drop delta).take numElems)
  else .ok (t.shape, [])

/-- `CHECK(tmp.CopyFrom(..))`: the same elements with another shape. -/
def copyFrom (source : List Nat × List α) (shape : List Nat) : Except Failure (Output α) := do
  check (source.1.prod = shape.prod)
  .ok ⟨shape, source.2.map some⟩

def intMax : Int := 2 ^ 31 - 1

/-- `++` of an `int` -/
def increment (x : Int) : Except Failure Int :=
  if x < intMax then .ok (x + 1) else .error .undefined

/-- The `memcpy` of a row: `n` elements of the input at one offset to another of the output. -/
def copyRow (data : List α) (source target : Int) (n : Nat) (out : List (Option α)) :
    Except Failure (List (Option α)) :=
  if 0 ≤ source ∧ source + n ≤ data.length ∧ 0 ≤ target ∧ target + n ≤ out.length then
    .ok (out.take target.toNat ++ ((data.drop source.toNat).take n).map some ++
      out.drop (target.toNat + n))
  else .error .undefined

def copyRows (data : List α) (width column finalWidth : Int) (n : Nat) :
    Nat → Int → Int → List (Option α) → Except Failure (List (Option α))
  | 0, _, _, out => .ok out
  | rows + 1, rowIn, rowOut, out => do
    let out ← copyRow data (rowIn * width + column) (rowOut * finalWidth) n out
    let rowIn ← increment rowIn
    let rowOut ← increment rowOut
    copyRows data width column finalWidth n rows rowIn rowOut out

def nth (values : List Int) (i : Nat) : Int := values.getD i 0

/-- Optimization #3A: the rows of a matrix, counted by an `int`. -/
def copyMatrix (t : Tensor α) (begin_ end_ : List Int) (final : List Nat) :
    Except Failure (Output α) := do
  let rowIn := (nth begin_ 0).bmod (2 ^ 32)
  let out ← copyRows t.data (t.shape.getD 1 0) (nth begin_ 1) (final.getD 1 0)
    (nth end_ 1 - nth begin_ 1).toNat (nth end_ 0 - rowIn).toNat rowIn 0
    (replicate final.prod none)
  .ok ⟨final, out⟩

def handleStridedSliceCase (eigen : Eigen α) (t : Tensor α) (begin_ end_ strides : List Int)
    (processing final : List Nat) (isSimpleSlice : Bool) : Except Failure (Output α) := do
  check (processing.prod = final.prod)
  let elements :=
    if isSimpleSlice then eigen.slice t.shape t.data begin_ (end_.zipWith (· - ·) begin_)
    else eigen.stridedSlice t.shape t.data begin_ end_ strides
  .ok ⟨final, elements.map some⟩

def takesDim0 (align : Nat) (type : ElementType) (t : Tensor α) (v : Validated) : Bool :=
  !v.isIdentity && v.sliceDim0 &&
    isDim0SliceAligned align type t.shape (nth (v.processed.map ProcessedDim.begin_) 0)
      (nth (v.processed.map ProcessedDim.end_) 0)

def isMatrixCopy (type : ElementType) (t : Tensor α) (v : Validated) : Bool :=
  v.isSimpleSlice && t.shape.length == 2 && v.processingShape.length == 2 &&
    v.finalShape.length == 2 && type.canUseMemcpy

/-- What `Compute` does once the arguments are validated. -/
def computeValidated (eigen : Eigen α) (align : Nat) (type : ElementType) (t : Tensor α)
    (v : Validated) : Except Failure (Output α) := do
  let begin_ := v.processed.map ProcessedDim.begin_
  let end_ := v.processed.map ProcessedDim.end_
  let strides := v.processed.map ProcessedDim.stride
  let processing ← tensorShape v.processingShape
  let final ← tensorShape v.finalShape
  if v.isIdentity then copyFrom (t.shape, t.data) final
  else if takesDim0 align type t v then do
    check (1 ≤ t.shape.length)
    let part ← slice t (nth begin_ 0) (nth end_ 0)
    copyFrom part final
  else if 0 < processing.prod then
    if isMatrixCopy type t v then copyMatrix t begin_ end_ final
    else if 1 ≤ processing.length ∧ processing.length ≤ 6 then
      handleStridedSliceCase eigen t begin_ end_ strides processing final v.isSimpleSlice
    else .error (.status (.error .unimplemented
      s!"Unhandled input dimensions {t.shape.length}"))
  else .ok ⟨final, replicate final.prod none⟩

def compute (eigen : Eigen α) (align : Nat) (type : ElementType) (t : Tensor α)
    (begin_ end_ strides : IndexTensor) (masks : Masks) : Except Failure (Output α) := do
  let v ← (validateStridedSliceOp (some begin_) (some end_) strides masks
    (t.shape.map some)).mapError Failure.status
  computeValidated eigen align type t v

end TensorFlowOnSpark.Kernels.StridedSliceOp
