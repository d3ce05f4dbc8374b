import TensorFlowOnSpark.Framework.DimensionArithmetic

/-!
# Sizes of windowed outputs

`GetWindowedOutputSizeVerbose` and `GetWindowedOutputSizeFromDims` of
`framework/common_shape_fns.cc`, which call each other parallel implementations.
-/

namespace TensorFlowOnSpark.Framework.CommonShapeFns

open Dimensions TwosComplement

inductive Padding where
  | valid | same
deriving DecidableEq

structure WindowedOutput where
  outputSize : Int64
  paddingBefore : Int64
  paddingAfter : Int64
deriving DecidableEq

/-- The `switch` of `GetWindowedOutputSizeVerbose`. -/
def windowedOutput (inputSize filterSize stride : Int64) : Padding → WindowedOutput
  | .valid =>
    { outputSize := (inputSize - filterSize + stride) / stride
      paddingBefore := 0
      paddingAfter := 0 }
  | .same =>
    let outputSize := (inputSize + stride - 1) / stride
    let needed := (outputSize - 1) * stride + filterSize - inputSize
    let paddingNeeded := if 0 < needed then needed else 0
    -- For odd values of total padding, more padding is added at the right side.
    { outputSize := outputSize
      paddingBefore := paddingNeeded / 2
      paddingAfter := paddingNeeded - paddingNeeded / 2 }

def getWindowedOutputSizeVerbose (inputSize filterSize stride : Int64) (paddingType : Padding) :
    Except Status WindowedOutput :=
  if stride ≤ 0 then
    .error (Errors.invalidArgument s!"Stride must be > 0, but got {stride}")
  else
    let output := windowedOutput inputSize filterSize stride paddingType
    if output.outputSize < 0 then
      .error (Errors.invalidArgument "computed output size would be negative")
    else .ok output

def getWindowedOutputSizeFromDims (inputSize : Int64) (filterSize : DimensionOrConstant)
    (stride : Int64) (paddingType : Padding) : Except Status Int64 :=
  if stride ≤ 0 then
    .error (Errors.invalidArgument s!"Stride must be > 0, but got {stride}")
  else
    match paddingType with
    | .valid => do
      let outputSize ← subtract inputSize filterSize
      let outputSize ← add outputSize (.constant stride)
      divide outputSize (.constant stride) false
    | .same => do
      let outputSize ← add inputSize (.constant (stride - 1))
      divide outputSize (.constant stride) false

def Agree (inputSize : Int64) (filterSize : DimensionOrConstant) (stride : Int64)
    (paddingType : Padding) : Prop :=
  ∀ v, getWindowedOutputSizeFromDims inputSize filterSize stride paddingType = .ok v ↔
    ∃ output, getWindowedOutputSizeVerbose inputSize filterSize.value stride paddingType =
      .ok output ∧ output.outputSize = v

/-- A filter larger than the input is one by at least two strides, and a sum that does not fit in
an `int64` leaves the remainder at least one stride below 0. -/
def RoundsAlike (inputSize filterSize stride : Int) : Padding → Prop
  | .valid =>
    (filterSize ≤ inputSize ∧
      (inputSize - filterSize + stride < 2 ^ 63 ∨ inputSize - filterSize + 2 * stride ≤ 2 ^ 64)) ∨
      inputSize + 2 * stride ≤ filterSize
  | .same => inputSize + stride - 1 < 2 ^ 63 ∨ inputSize + 2 * stride ≤ 2 ^ 64 + 1

section Known

variable {first : Int64} {second : DimensionOrConstant}
variable (hFirst : 0 ≤ first.toInt) (hSecond : 0 ≤ second.value.toInt)

include hFirst hSecond

theorem not_unknown : (first = kUnknownDim || second.value = kUnknownDim) = false := by
  obtain ⟨hKnown, hKnown'⟩ := ne_unknown_of_nonneg hFirst hSecond
  rw [decide_eq_false hKnown, decide_eq_false hKnown', Bool.or_false]

theorem subtract_of_le (h : second.value.toInt ≤ first.toInt) :
    subtract first second = .ok (first - second.value) := by
  rw [subtract]
  split_ifs with hZero hUnknown hNeg
  · rw [hZero, Int64.sub_zero]
    rfl
  · rw [not_unknown hFirst hSecond] at hUnknown
    cases hUnknown
  · rw [Int64.lt_iff_toInt_lt] at hNeg
    omega
  · rfl

theorem add_of_lt (h : first.toInt + second.value.toInt < 2 ^ 63) :
    add first second = .ok (first + second.value) := by
  have hSum := toInt_add_of_lt hFirst hSecond h
  rw [add]
  split_ifs with hZero hZero' hUnknown hNeg
  · rw [hZero, Int64.zero_add]
    rfl
  · rw [hZero', Int64.add_zero]
    rfl
  · rw [not_unknown hFirst hSecond] at hUnknown
    cases hUnknown
  · rw [Int64.lt_iff_toInt_lt, Int64.toInt_zero] at hNeg
    omega
  · rfl

theorem divide_of_pos (h : 0 < second.value.toInt) :
    divide first second false = .ok (first / second.value) := by
  have hUnknownDim : second.isUnknownDim = false := by
    cases second with
    | dim value => exact decide_eq_false (ne_unknown_of_nonneg hFirst hSecond).2
    | constant val => rfl
  rw [divide, hUnknownDim, Bool.or_false, Bool.false_and]
  split_ifs with hOne hUnknown hNonpos hFalse
  · rw [hOne, Int64.div_one]
  · exact absurd (of_decide_eq_true hUnknown) (ne_unknown_of_nonneg hFirst hSecond).1
  · rw [Int64.le_iff_toInt_le, Int64.toInt_zero] at hNonpos
    omega
  · exact hFalse.elim
  · rfl

end Known

section Stride

variable {inputSize stride : Int64} {filterSize : DimensionOrConstant}
variable (hInput : 0 ≤ inputSize.toInt) (hFilter : 0 ≤ filterSize.value.toInt)
variable (hStride : 0 < stride.toInt)

include hStride

/-- `FromDims` returns the size that the other one computes, or an error. -/
theorem agree_of_fromDims {paddingType : Padding} {fits : Prop}
    (hFits : fits → getWindowedOutputSizeFromDims inputSize filterSize stride paddingType =
      .ok (windowedOutput inputSize filterSize.value stride paddingType).outputSize)
    (hNot : ¬fits → ∃ status,
      getWindowedOutputSizeFromDims inputSize filterSize stride paddingType = .error status) :
    Agree inputSize filterSize stride paddingType ↔
      (fits ↔ 0 ≤ (windowedOutput inputSize filterSize.value stride paddingType).outputSize.toInt)
      := by
  have hPos : ¬stride ≤ 0 := by
    rw [Int64.le_iff_toInt_le, Int64.toInt_zero]
    omega
  have hVerbose : ∀ v, (∃ output,
      getWindowedOutputSizeVerbose inputSize filterSize.value stride paddingType = .ok output ∧
        output.outputSize = v) ↔
      0 ≤ (windowedOutput inputSize filterSize.value stride paddingType).outputSize.toInt ∧
        (windowedOutput inputSize filterSize.value stride paddingType).outputSize = v := by
    intro v
    rw [getWindowedOutputSizeVerbose, if_neg hPos]
    simp only [Int64.lt_iff_toInt_lt, Int64.toInt_zero]
    split
    · refine iff_of_false ?_ fun h => ?_
      · rintro ⟨output, hEq, -⟩
        cases hEq
      · omega
    · rename_i hNonneg
      constructor
      · rintro ⟨output, hEq, rfl⟩
        obtain rfl := Except.ok.inj hEq
        exact ⟨by omega, rfl⟩
      · rintro ⟨-, hEq⟩
        exact ⟨_, rfl, hEq⟩
  simp only [Agree, hVerbose]
  obtain hCase | hCase := Classical.em fits
  · simp only [hFits hCase, Except.ok.injEq, hCase, true_iff]
    constructor
    · intro hAgree
      exact ((hAgree _).mp rfl).1
    · intro hNonneg v
      exact (and_iff_right hNonneg).symm
  · obtain ⟨status, hError⟩ := hNot hCase
    simp only [hError, reduceCtorEq, false_iff, hCase, not_and]
    constructor
    · intro hAgree hNonneg
      exact hAgree _ hNonneg rfl
    · intro hNeg v hNonneg
      exact absurd hNonneg hNeg

theorem stride_pos : ¬stride ≤ 0 := by
  rw [Int64.le_iff_toInt_le, Int64.toInt_zero]
  omega

theorem toInt_pred_stride : (stride - 1).toInt = stride.toInt - 1 := by
  have hOne : (1 : Int64).toInt = 1 := rfl
  rw [toInt_sub_of_nonneg (by omega) (by omega), hOne]

include hInput hFilter

theorem fromDims_valid_of_fits (hLe : filterSize.value.toInt ≤ inputSize.toInt)
    (hLess : inputSize.toInt - filterSize.value.toInt + stride.toInt < 2 ^ 63) :
    getWindowedOutputSizeFromDims inputSize filterSize stride .valid =
      .ok ((inputSize - filterSize.value + stride) / stride) := by
  have hSub := toInt_sub_of_nonneg hInput hFilter
  have hNonneg : 0 ≤ (inputSize - filterSize.value).toInt := by omega
  have hSum : 0 ≤ (inputSize - filterSize.value + stride).toInt := by
    rw [toInt_add_of_lt hNonneg (by omega) (by omega)]
    omega
  have hAdd : add _ (.constant stride) = _ := add_of_lt hNonneg (Int.le_of_lt hStride) (by
    change (inputSize - filterSize.value).toInt + stride.toInt < 2 ^ 63
    omega)
  have hDiv : divide _ (.constant stride) false = _ :=
    divide_of_pos hSum (Int.le_of_lt hStride) hStride
  rw [getWindowedOutputSizeFromDims, if_neg (stride_pos hStride)]
  rw [subtract_of_le hInput hFilter hLe]
  change (add _ _ >>= _) = _
  rw [hAdd]
  exact hDiv

theorem fromDims_valid_of_not_fits (h : ¬(filterSize.value.toInt ≤ inputSize.toInt ∧
      inputSize.toInt - filterSize.value.toInt + stride.toInt < 2 ^ 63)) :
    ∃ status, getWindowedOutputSizeFromDims inputSize filterSize stride .valid =
      .error status := by
  rw [getWindowedOutputSizeFromDims, if_neg (stride_pos hStride)]
  obtain hLess | hLe := Int.lt_or_le inputSize.toInt filterSize.value.toInt
  · obtain ⟨status, hError⟩ := subtract_refuses hInput hFilter hLess
    exact ⟨status, by rw [hError]; rfl⟩
  · have hSub := toInt_sub_of_nonneg hInput hFilter
    obtain ⟨status, hError⟩ : ∃ status, add (inputSize - filterSize.value) (.constant stride) =
        .error status := add_refuses (by omega) (Int.le_of_lt hStride) (by
      change 2 ^ 63 ≤ (inputSize - filterSize.value).toInt + stride.toInt
      omega)
    refine ⟨status, ?_⟩
    rw [subtract_of_le hInput hFilter hLe]
    change (add _ _ >>= _) = _
    rw [hError]
    rfl

theorem valid_outputSize_nonneg_iff :
    0 ≤ ((inputSize - filterSize.value + stride) / stride).toInt ↔
      if inputSize.toInt - filterSize.value.toInt + stride.toInt < 2 ^ 63 then
        filterSize.value.toInt < inputSize.toInt + 2 * stride.toInt
      else 2 ^ 64 < inputSize.toInt - filterSize.value.toInt + 2 * stride.toInt := by
  have hSub := toInt_sub_of_nonneg hInput hFilter
  have hLess := toInt_lt filterSize.value
  rw [toInt_div_of_pos hStride, tdiv_nonneg_iff hStride]
  split
  · rw [Int64.toInt_add, bmod_of_lt (by omega) (by omega)]
    omega
  · rw [toInt_add_of_le (by omega)]
    omega

omit hFilter

theorem fromDims_same_of_fits (hLess : inputSize.toInt + stride.toInt - 1 < 2 ^ 63) :
    getWindowedOutputSizeFromDims inputSize filterSize stride .same =
      .ok ((inputSize + stride - 1) / stride) := by
  have hPred := toInt_pred_stride hStride
  have hNonneg : 0 ≤ (stride - 1).toInt := by omega
  have hSum : 0 ≤ (inputSize + (stride - 1)).toInt := by
    rw [toInt_add_of_lt hInput hNonneg (by omega)]
    omega
  have hAdd : add _ (.constant (stride - 1)) = _ := add_of_lt hInput hNonneg (by
    change inputSize.toInt + (stride - 1).toInt < 2 ^ 63
    omega)
  have hDiv : divide _ (.constant stride) false = _ :=
    divide_of_pos hSum (Int.le_of_lt hStride) hStride
  rw [getWindowedOutputSizeFromDims, if_neg (stride_pos hStride)]
  have hAssoc : inputSize + stride - 1 = inputSize + (stride - 1) := by
    rw [Int64.sub_eq_add_neg, Int64.sub_eq_add_neg, Int64.add_assoc]
  rw [hAdd, hAssoc]
  exact hDiv

theorem fromDims_same_of_not_fits (h : ¬inputSize.toInt + stride.toInt - 1 < 2 ^ 63) :
    ∃ status, getWindowedOutputSizeFromDims inputSize filterSize stride .same =
      .error status := by
  have hPred := toInt_pred_stride hStride
  obtain ⟨status, hError⟩ : ∃ status, add inputSize (.constant (stride - 1)) = .error status :=
    add_refuses hInput (by change 0 ≤ (stride - 1).toInt; omega) (by
      change 2 ^ 63 ≤ inputSize.toInt + (stride - 1).toInt
      omega)
  refine ⟨status, ?_⟩
  rw [getWindowedOutputSizeFromDims, if_neg (stride_pos hStride)]
  rw [hError]
  rfl

theorem same_outputSize_nonneg_iff :
    0 ≤ ((inputSize + stride - 1) / stride).toInt ↔
      (inputSize.toInt + stride.toInt - 1 < 2 ^ 63 ∨
        2 ^ 64 + 1 < inputSize.toInt + 2 * stride.toInt) := by
  have hLess := toInt_lt inputSize
  have hOne : (1 : Int64).toInt = 1 := rfl
  rw [toInt_div_of_pos hStride, tdiv_nonneg_iff hStride, Int64.toInt_sub, Int64.toInt_add,
    Int.bmod_sub_bmod, hOne]
  obtain ⟨hRange, hEq⟩ | ⟨hRange, hEq⟩ := bmod_cases (inputSize.toInt + stride.toInt - 1)
  · omega
  · omega

end Stride

theorem agree_iff {inputSize stride : Int64} {filterSize : DimensionOrConstant}
    (paddingType : Padding) (hInput : 0 ≤ inputSize.toInt) (hFilter : 0 ≤ filterSize.value.toInt) :
    Agree inputSize filterSize stride paddingType ↔
      (stride.toInt ≤ 0 ∨
        RoundsAlike inputSize.toInt filterSize.value.toInt stride.toInt paddingType) := by
  obtain hStride | hStride := Int.lt_or_le 0 stride.toInt
  · cases paddingType with
    | valid =>
      rw [agree_of_fromDims hStride
        (fun hFits => fromDims_valid_of_fits hInput hFilter hStride hFits.1 hFits.2)
        (fun hNot => fromDims_valid_of_not_fits hInput hFilter hStride hNot)]
      change (_ ↔ 0 ≤ ((inputSize - filterSize.value + stride) / stride).toInt) ↔ _
      rw [valid_outputSize_nonneg_iff hInput hFilter hStride, RoundsAlike]
      split <;> omega
    | same =>
      rw [agree_of_fromDims hStride
        (fun hFits => fromDims_same_of_fits hInput hStride hFits)
        (fun hNot => fromDims_same_of_not_fits hInput hStride hNot)]
      change (_ ↔ 0 ≤ ((inputSize + stride - 1) / stride).toInt) ↔ _
      rw [same_outputSize_nonneg_iff hInput hStride, RoundsAlike]
      omega
  · refine iff_of_true ?_ (Or.inl hStride)
    have hNonpos : stride ≤ 0 := Int64.le_iff_toInt_le.mpr hStride
    have hFromDims : getWindowedOutputSizeFromDims inputSize filterSize stride paddingType =
        .error (Errors.invalidArgument s!"Stride must be > 0, but got {stride}") := by
      cases paddingType <;> exact if_pos hNonpos
    intro v
    rw [hFromDims, getWindowedOutputSizeVerbose, if_pos hNonpos]
    constructor
    · intro hEq
      cases hEq
    · rintro ⟨output, hEq, -⟩
      cases hEq

theorem agree_three_three : Agree 3 (.constant 3) 2 .valid :=
  (@agree_iff 3 2 (.constant 3) .valid (by decide)
    (by decide)).mpr (Or.inr (Or.inl (by decide)))

theorem not_agree_two_three : ¬Agree 2 (.constant 3) 2 .valid := by
  intro hAgree
  have hVerbose : ∃ output, getWindowedOutputSizeVerbose 2 3 2 .valid = .ok output ∧
      output.outputSize = 0 := ⟨⟨0, 0, 0⟩, by decide, rfl⟩
  have hFromDims := (hAgree 0).mpr hVerbose
  cases hFromDims

end TensorFlowOnSpark.Framework.CommonShapeFns
