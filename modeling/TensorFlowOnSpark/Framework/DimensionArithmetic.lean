import Mathlib.Data.List.Forall2
import TensorFlowOnSpark.Framework.Status
import TensorFlowOnSpark.Lib.TwosComplement

/-!
# Arithmetic on dimensions

`Divide`, `Add`, `Subtract`, `Multiply`, `Min`, `Max` and `NumElements` of
`InferenceContext` of `framework/shape_inference.cc`.
-/

namespace TensorFlowOnSpark.Framework.Dimensions

open TwosComplement Option Except Int List

def kUnknownDim : Int64 := -1

/-- `dim` is a handle that is set. -/
inductive DimensionOrConstant where
  | dim (value : Int64)
  | constant (val : Int64)
deriving DecidableEq

namespace DimensionOrConstant

def value : DimensionOrConstant → Int64
  | dim value => value
  | constant val => val

def isUnknownDim : DimensionOrConstant → Bool
  | dim value => value = kUnknownDim
  | constant _ => false

end DimensionOrConstant

/-- `MakeDim`; a new dimension has the value of the constant. -/
def makeDim (d : DimensionOrConstant) : Int64 := d.value

def divide (dividend : Int64) (divisor : DimensionOrConstant) (evenlyDivisible : Bool) :
    Except Status Int64 :=
  if divisor.value = 1 then .ok dividend
  else if dividend = kUnknownDim || divisor.isUnknownDim then .ok kUnknownDim
  else if divisor.value ≤ 0 then
    .error (Errors.invalidArgument s!"Divisor must be positive but is {divisor.value}")
  else if evenlyDivisible && dividend % divisor.value ≠ 0 then
    .error (Errors.invalidArgument
      s!"Dimension size must be evenly divisible by {divisor.value} but is {dividend}")
  else .ok (makeDim (.constant (dividend / divisor.value)))

def add (first : Int64) (second : DimensionOrConstant) : Except Status Int64 :=
  if first = 0 then .ok (makeDim second)
  else if second.value = 0 then .ok (makeDim (.dim first))
  else if first = kUnknownDim || second.value = kUnknownDim then .ok kUnknownDim
  else if first + second.value < 0 then
    .error (Errors.invalidArgument
      s!"Dimension size overflow from adding {first} and {second.value}")
  else .ok (makeDim (.constant (first + second.value)))

def subtract (first : Int64) (second : DimensionOrConstant) : Except Status Int64 :=
  if second.value = 0 then .ok (makeDim (.dim first))
  else if first = kUnknownDim || second.value = kUnknownDim then .ok kUnknownDim
  else if first < second.value then
    .error (Errors.invalidArgument
      s!"Negative dimension size caused by subtracting {second.value} from {first}")
  else .ok (makeDim (.constant (first - second.value)))

def multiply (first : Int64) (second : DimensionOrConstant) : Except Status Int64 :=
  if first = 0 then .ok first
  else if second.value = 0 then .ok (makeDim second)
  else if first = 1 then .ok (makeDim second)
  else if second.value = 1 then .ok first
  else if first = kUnknownDim || second.value = kUnknownDim then .ok kUnknownDim
  else if first * second.value < 0 then
    .error (Errors.invalidArgument (s!"Negative dimension size caused by overflow when " ++
      s!"multiplying {first} and {second.value}"))
  else .ok (makeDim (.constant (first * second.value)))

def min (first : Int64) (second : DimensionOrConstant) : Except Status Int64 :=
  if first = 0 then .ok first
  else if second.value = 0 then .ok (makeDim second)
  else if first = kUnknownDim || second.value = kUnknownDim then .ok kUnknownDim
  else if first ≤ second.value then .ok first
  else .ok (makeDim second)

def max (first : Int64) (second : DimensionOrConstant) : Except Status Int64 :=
  if first = kUnknownDim || second.value = kUnknownDim then .ok kUnknownDim
  else if first ≥ second.value then .ok first
  else .ok (makeDim second)

def numElementsLoop (size : Int64) : List Int64 → Int64
  | [] => makeDim (.constant size)
  | dim :: dims => if dim = kUnknownDim then kUnknownDim else numElementsLoop (size * dim) dims

/-- The dimensions are `none` when the rank is not known. -/
def numElements : Option (List Int64) → Int64
  | none => kUnknownDim
  | some dims => numElementsLoop 1 dims

inductive Operation where
  | divide (evenlyDivisible : Bool) | add | subtract | multiply | min | max
deriving DecidableEq

namespace Operation

def run (first : Int64) (second : DimensionOrConstant) : Operation → Except Status Int64
  | divide evenlyDivisible => Dimensions.divide first second evenlyDivisible
  | add => Dimensions.add first second
  | subtract => Dimensions.subtract first second
  | multiply => Dimensions.multiply first second
  | min => Dimensions.min first second
  | max => Dimensions.max first second

def exact (a b : Nat) : Operation → Option Int
  | divide evenlyDivisible =>
    if b = 0 ∨ (evenlyDivisible ∧ ¬b ∣ a) then none else some (a / b : Nat)
  | add => some (a + b)
  | subtract => some (a - b)
  | multiply => some (a * b)
  | min => some (if a ≤ b then a else b)
  | max => some (if a ≤ b then b else a)

def checksRange : Operation → Bool
  | add | subtract | multiply => true
  | divide _ | min | max => false

end Operation

inductive Call where
  | numElements (shape : Option (List Int64))
  | binary (op : Operation) (first : Int64) (second : DimensionOrConstant)

def ValidDim (d : Int64) : Prop := d = kUnknownDim ∨ 0 ≤ d

def DimensionOrConstant.Valid : DimensionOrConstant → Prop
  | dim value => ValidDim value
  | constant val => 0 ≤ val

def InRange (n : Int) : Prop := 0 ≤ n ∧ n < 2 ^ 63

def Completes (n : Nat) (d : Int64) : Prop := n < 2 ^ 63 ∧ (d = kUnknownDim ∨ d.toInt = n)

namespace Call

def Valid : Call → Prop
  | numElements shape => ∀ dims, shape = some dims → ∀ d ∈ dims, ValidDim d
  | binary _ first second => ValidDim first ∧ second.Valid

/-- A known result is the exact one for all sizes that unknown arguments may have, and the checked
operations refuse a result out of range. -/
def Sound : Call → Prop
  | numElements shape =>
    Dimensions.numElements shape ≠ kUnknownDim → ∀ dims, shape = some dims →
      ∀ sizes : List Nat, Forall₂ Completes sizes dims → sizes.prod < 2 ^ 63 →
        (Dimensions.numElements shape).toInt = sizes.prod
  | binary op first second =>
    (∀ out, op.run first second = .ok out → out ≠ kUnknownDim →
      ∀ a b : Nat, Completes a first → Completes b second.value →
        ∀ r, op.exact a b = some r → InRange r → out.toInt = r) ∧
    (op.checksRange → first ≠ kUnknownDim → second.value ≠ kUnknownDim →
      ∀ r, op.exact first.toInt.toNat second.value.toInt.toNat = some r → ¬InRange r →
        ∃ status, op.run first second = .error status)

/-- A product that does not fit in an `int64`, and has the sign of one that does. -/
def OverflowsUnseen : Call → Prop
  | numElements _ => False
  | binary op first second =>
    op = .multiply ∧ first ≠ kUnknownDim ∧ second.value ≠ kUnknownDim ∧
      2 ^ 63 ≤ first.toInt * second.value.toInt ∧
      first.toInt * second.value.toInt % 2 ^ 64 < 2 ^ 63

end Call

variable {d : Int64}

theorem ValidDim.nonneg (h : ValidDim d) (hKnown : d ≠ kUnknownDim) : 0 ≤ d.toInt := by
  rcases h with hUnknown | hNonneg
  · exact absurd hUnknown hKnown
  · exact toInt_nonneg hNonneg

theorem DimensionOrConstant.Valid.validDim {d : DimensionOrConstant} (h : d.Valid) :
    ValidDim d.value := by
  cases d with
  | dim value => exact h
  | constant val => exact Or.inr h

variable {n : Nat}

theorem Completes.toInt_eq (h : Completes n d) (hKnown : d ≠ kUnknownDim) :
    d.toInt = n := by
  rcases h.2 with hUnknown | hEq
  · exact absurd hUnknown hKnown
  · exact hEq

theorem toInt_of_zero (h : d = 0) : d.toInt = 0 := by
  rw [h]
  rfl

theorem Completes.eq_zero (h : Completes n d) (hZero : d = 0) : n = 0 := by
  subst hZero
  have hEq : (0 : Int64).toInt = n := h.toInt_eq (by decide)
  exact (ofNat.inj hEq).symm

theorem Completes.eq_one (h : Completes n d) (hOne : d = 1) : n = 1 := by
  subst hOne
  have hEq : (1 : Int64).toInt = n := h.toInt_eq (by decide)
  exact (ofNat.inj hEq).symm

section Binary

variable {first : Int64} {second : DimensionOrConstant} {out : Int64} {a b : Nat}
variable (ha : Completes a first) (hb : Completes b second.value)

include ha hb

theorem values_of_known (h : ¬(first = kUnknownDim || second.value = kUnknownDim)) :
    first.toInt = a ∧ second.value.toInt = b := by
  simp only [Bool.or_eq_true, decide_eq_true_eq, not_or] at h
  exact ⟨ha.toInt_eq h.1, hb.toInt_eq h.2⟩

theorem divide_exact {evenlyDivisible : Bool} (hOk : divide first second evenlyDivisible = .ok out)
    (hKnown : out ≠ kUnknownDim) {r : Int}
    (hExact : Operation.exact a b (.divide evenlyDivisible) = some r) : out.toInt = r := by
  rw [divide] at hOk
  simp only [Operation.exact, ite_none_left_eq_some, some.injEq] at hExact
  obtain ⟨hDivides, rfl⟩ := hExact
  split_ifs at hOk with hOne hUnknown hNeg
  · obtain rfl := ok.inj hOk
    rw [hb.eq_one hOne, Nat.div_one]
    exact ha.toInt_eq hKnown
  · exact absurd (ok.inj hOk).symm hKnown
  · obtain rfl := ok.inj hOk
    simp only [Bool.or_eq_true, decide_eq_true_eq, not_or] at hUnknown
    have hPos : 0 < second.value.toInt := by
      rw [Int64.not_le, Int64.lt_iff_toInt_lt] at hNeg
      exact hNeg
    have hSecond : second.value ≠ kUnknownDim := by
      intro hEq
      rw [hEq] at hPos
      exact absurd hPos (by decide)
    change (first / second.value).toInt = _
    rw [toInt_div_of_pos hPos, ha.toInt_eq hUnknown.1, hb.toInt_eq hSecond]
    rfl

theorem add_exact (hOk : add first second = .ok out) (hKnown : out ≠ kUnknownDim)
    (hRange : InRange (a + b : Int)) : out.toInt = a + b := by
  rw [add] at hOk
  split_ifs at hOk with hZero hZero' hUnknown
  · obtain rfl := ok.inj hOk
    rw [ha.eq_zero hZero, Int.natCast_zero, zero_add]
    exact hb.toInt_eq hKnown
  · obtain rfl := ok.inj hOk
    rw [hb.eq_zero hZero']
    exact ha.toInt_eq hKnown
  · exact absurd (ok.inj hOk).symm hKnown
  · obtain rfl := ok.inj hOk
    obtain ⟨hFirst, hSecond⟩ := values_of_known ha hb hUnknown
    have hLess := hRange.2
    change (first + second.value).toInt = _
    rw [toInt_add_of_lt (by omega) (by omega) (by omega), hFirst, hSecond]

theorem subtract_exact (hOk : subtract first second = .ok out) (hKnown : out ≠ kUnknownDim) :
    out.toInt = (a - b : Int) := by
  rw [subtract] at hOk
  split_ifs at hOk with hZero hUnknown
  · obtain rfl := ok.inj hOk
    rw [hb.eq_zero hZero]
    exact ha.toInt_eq hKnown
  · exact absurd (ok.inj hOk).symm hKnown
  · obtain rfl := ok.inj hOk
    obtain ⟨hFirst, hSecond⟩ := values_of_known ha hb hUnknown
    change (first - second.value).toInt = _
    rw [toInt_sub_of_nonneg (by omega) (by omega), hFirst, hSecond]

theorem multiply_exact (hOk : multiply first second = .ok out) (hKnown : out ≠ kUnknownDim)
    (hRange : InRange (a * b : Int)) : out.toInt = a * b := by
  rw [multiply] at hOk
  split_ifs at hOk with hZero hZero' hOne hOne' hUnknown
  · obtain rfl := ok.inj hOk
    rw [ha.eq_zero hZero, Int.natCast_zero, zero_mul]
    exact toInt_of_zero hZero
  · obtain rfl := ok.inj hOk
    rw [hb.eq_zero hZero']
    exact toInt_of_zero hZero'
  · obtain rfl := ok.inj hOk
    rw [ha.eq_one hOne, Int.natCast_one, one_mul]
    exact hb.toInt_eq hKnown
  · obtain rfl := ok.inj hOk
    rw [hb.eq_one hOne', Int.natCast_one, mul_one]
    exact ha.toInt_eq hKnown
  · exact absurd (ok.inj hOk).symm hKnown
  · obtain rfl := ok.inj hOk
    obtain ⟨hFirst, hSecond⟩ := values_of_known ha hb hUnknown
    have hLow := hRange.1
    change (first * second.value).toInt = _
    rw [Int64.toInt_mul, hFirst, hSecond, bmod_of_lt (by omega) hRange.2]

theorem min_exact (hOk : min first second = .ok out) (hKnown : out ≠ kUnknownDim) :
    out.toInt = if a ≤ b then (a : Int) else b := by
  rw [min] at hOk
  split_ifs at hOk with hZero hZero' hUnknown hLe
  · obtain rfl := ok.inj hOk
    rw [ha.eq_zero hZero]
    exact toInt_of_zero hZero
  · obtain rfl := ok.inj hOk
    have hMin : (if a ≤ 0 then (a : Int) else (0 : Nat)) = 0 := by
      split <;> omega
    rw [hb.eq_zero hZero', hMin]
    exact toInt_of_zero hZero'
  · exact absurd (ok.inj hOk).symm hKnown
  · obtain rfl := ok.inj hOk
    obtain ⟨hFirst, hSecond⟩ := values_of_known ha hb hUnknown
    rw [Int64.le_iff_toInt_le] at hLe
    rw [hFirst, if_pos (by omega)]
  · obtain rfl := ok.inj hOk
    obtain ⟨hFirst, hSecond⟩ := values_of_known ha hb hUnknown
    rw [Int64.le_iff_toInt_le] at hLe
    change second.value.toInt = _
    rw [hSecond, if_neg (by omega)]

theorem max_exact (hOk : max first second = .ok out) (hKnown : out ≠ kUnknownDim) :
    out.toInt = if a ≤ b then (b : Int) else a := by
  rw [max] at hOk
  split_ifs at hOk with hUnknown hLe
  · exact absurd (ok.inj hOk).symm hKnown
  · obtain rfl := ok.inj hOk
    obtain ⟨hFirst, hSecond⟩ := values_of_known ha hb hUnknown
    rw [ge_iff_le, Int64.le_iff_toInt_le] at hLe
    split <;> omega
  · obtain rfl := ok.inj hOk
    obtain ⟨hFirst, hSecond⟩ := values_of_known ha hb hUnknown
    rw [ge_iff_le, Int64.le_iff_toInt_le] at hLe
    change second.value.toInt = _
    rw [hSecond, if_pos (by omega)]

theorem run_exact {op : Operation} (hOk : op.run first second = .ok out)
    (hKnown : out ≠ kUnknownDim) {r : Int} (hExact : op.exact a b = some r)
    (hRange : InRange r) : out.toInt = r := by
  cases op with
  | divide evenlyDivisible => exact divide_exact ha hb hOk hKnown hExact
  | add =>
    obtain rfl := some.inj hExact
    exact add_exact ha hb hOk hKnown hRange
  | subtract =>
    obtain rfl := some.inj hExact
    exact subtract_exact ha hb hOk hKnown
  | multiply =>
    obtain rfl := some.inj hExact
    exact multiply_exact ha hb hOk hKnown hRange
  | min =>
    obtain rfl := some.inj hExact
    exact min_exact ha hb hOk hKnown
  | max =>
    obtain rfl := some.inj hExact
    exact max_exact ha hb hOk hKnown

end Binary

theorem numElementsLoop_cases (size : Int64) (dims : List Int64) :
    numElementsLoop size dims = kUnknownDim ∨
      (kUnknownDim ∉ dims ∧ numElementsLoop size dims = dims.foldl (· * ·) size) := by
  induction dims generalizing size with
  | nil => exact Or.inr ⟨not_mem_nil, rfl⟩
  | cons dim dims ih =>
    rw [numElementsLoop]
    split
    · exact Or.inl rfl
    · obtain hUnknown | ⟨hNotMem, hEq⟩ := ih (size * dim)
      · exact Or.inl hUnknown
      · refine Or.inr ⟨?_, hEq⟩
        rw [mem_cons, not_or]
        exact ⟨fun hMem => absurd hMem.symm ‹_›, hNotMem⟩

variable {dims : List Int64}

theorem prod_of_completes {sizes : List Nat}
    (h : Forall₂ Completes sizes dims) (hKnown : kUnknownDim ∉ dims) :
    (dims.map Int64.toInt).prod = sizes.prod := by
  induction h with
  | nil => rfl
  | @cons n d sizes dims hHead hTail ih =>
    rw [mem_cons, not_or] at hKnown
    rw [map_cons, prod_cons, prod_cons, ih hKnown.2,
      hHead.toInt_eq (Ne.symm hKnown.1), natCast_mul]

theorem numElements_exact {sizes : List Nat}
    (hKnown : numElements (some dims) ≠ kUnknownDim) (h : Forall₂ Completes sizes dims)
    (hRange : sizes.prod < 2 ^ 63) : (numElements (some dims)).toInt = sizes.prod := by
  obtain hUnknown | ⟨hNotMem, hEq⟩ := numElementsLoop_cases 1 dims
  · exact absurd hUnknown hKnown
  · have hOne : (1 : Int64).toInt = 1 := rfl
    rw [numElements, hEq, toInt_foldl_mul, prod_of_completes h hNotMem, hOne, one_mul,
      bmod_of_lt (by omega) (by omega)]

section Refused

variable {first : Int64} {second : DimensionOrConstant}
variable (hFirst : 0 ≤ first.toInt) (hSecond : 0 ≤ second.value.toInt)

include hFirst hSecond

theorem ne_unknown_of_nonneg : first ≠ kUnknownDim ∧ second.value ≠ kUnknownDim := by
  constructor
  · rintro rfl
    exact absurd hFirst (by decide)
  · intro hEq
    rw [hEq] at hSecond
    exact absurd hSecond (by decide)

theorem add_refuses (h : 2 ^ 63 ≤ first.toInt + second.value.toInt) :
    ∃ status, add first second = .error status := by
  have hLess := toInt_lt first
  have hLess' := toInt_lt second.value
  obtain ⟨hKnown, hKnown'⟩ := ne_unknown_of_nonneg hFirst hSecond
  have hZero : first ≠ 0 := by
    rintro rfl
    have : (0 : Int64).toInt = 0 := rfl
    omega
  have hZero' : second.value ≠ 0 := by
    intro hEq
    have := toInt_of_zero hEq
    omega
  have hNeg : first + second.value < 0 := by
    rw [Int64.lt_iff_toInt_lt, toInt_add_of_le h]
    have : (0 : Int64).toInt = 0 := rfl
    omega
  rw [add, if_neg hZero, if_neg hZero', if_neg (by simp [hKnown, hKnown']), if_pos hNeg]
  exact ⟨_, rfl⟩

theorem subtract_refuses (h : first.toInt < second.value.toInt) :
    ∃ status, subtract first second = .error status := by
  obtain ⟨hKnown, hKnown'⟩ := ne_unknown_of_nonneg hFirst hSecond
  have hZero' : second.value ≠ 0 := by
    intro hEq
    have := toInt_of_zero hEq
    omega
  rw [subtract, if_neg hZero', if_neg (by simp [hKnown, hKnown']),
    if_pos (Int64.lt_iff_toInt_lt.mpr h)]
  exact ⟨_, rfl⟩

theorem multiply_of_large (h : 2 ^ 63 ≤ first.toInt * second.value.toInt) :
    (∃ status, multiply first second = .error status) ↔
      2 ^ 63 ≤ first.toInt * second.value.toInt % 2 ^ 64 := by
  have hLess := toInt_lt first
  have hLess' := toInt_lt second.value
  obtain ⟨hKnown, hKnown'⟩ := ne_unknown_of_nonneg hFirst hSecond
  have hNot : ∀ n : Int, n < 2 ^ 63 → first.toInt * second.value.toInt ≠ n := by
    intro n hn
    omega
  have hZero : first ≠ 0 := fun hEq => hNot 0 (by decide) (by rw [toInt_of_zero hEq, zero_mul])
  have hZero' : second.value ≠ 0 :=
    fun hEq => hNot 0 (by decide) (by rw [toInt_of_zero hEq, mul_zero])
  have hOne : first ≠ 1 := by
    rintro rfl
    have hEq : (1 : Int64).toInt = 1 := rfl
    exact hNot _ hLess' (by rw [hEq, one_mul])
  have hOne' : second.value ≠ 1 := by
    intro hEq
    have hEq' : (1 : Int64).toInt = 1 := rfl
    exact hNot _ hLess (by rw [hEq, hEq', mul_one])
  rw [multiply, if_neg hZero, if_neg hZero', if_neg hOne, if_neg hOne',
    if_neg (by simp [hKnown, hKnown'])]
  have hSign : first * second.value < 0 ↔ 2 ^ 63 ≤ first.toInt * second.value.toInt % 2 ^ 64 := by
    have hCases := bmod_nonneg_iff (x := first.toInt * second.value.toInt)
    have hEq : (0 : Int64).toInt = 0 := rfl
    rw [Int64.lt_iff_toInt_lt, Int64.toInt_mul]
    omega
  rw [← hSign]
  split
  · exact iff_of_true ⟨_, rfl⟩ ‹_›
  · exact iff_of_false (by rintro ⟨status, hEq⟩; cases hEq) ‹_›

end Refused

theorem refuses_of_not_overflowsUnseen {op : Operation} {first : Int64}
    {second : DimensionOrConstant} (hFirst : 0 ≤ first.toInt) (hSecond : 0 ≤ second.value.toInt)
    (hChecks : op.checksRange)
    (hSeen : op = .multiply → 2 ^ 63 ≤ first.toInt * second.value.toInt →
      2 ^ 63 ≤ first.toInt * second.value.toInt % 2 ^ 64) {r : Int}
    (hExact : op.exact first.toInt.toNat second.value.toInt.toNat = some r)
    (hRange : ¬InRange r) : ∃ status, op.run first second = .error status := by
  have hNat : (first.toInt.toNat : Int) = first.toInt := toNat_of_nonneg hFirst
  have hNat' : (second.value.toInt.toNat : Int) = second.value.toInt := toNat_of_nonneg hSecond
  rw [InRange] at hRange
  cases op with
  | divide | min | max => cases hChecks
  | add =>
    obtain rfl := some.inj hExact
    exact add_refuses hFirst hSecond (by omega)
  | subtract =>
    obtain rfl := some.inj hExact
    have hLess := toInt_lt first
    exact subtract_refuses hFirst hSecond (by omega)
  | multiply =>
    obtain rfl := some.inj hExact
    rw [hNat, hNat'] at hRange
    have hNonneg := Int.mul_nonneg hFirst hSecond
    have hLarge : 2 ^ 63 ≤ first.toInt * second.value.toInt := by omega
    exact (multiply_of_large hFirst hSecond hLarge).mpr (hSeen rfl hLarge)

theorem sound_iff {c : Call} (h : c.Valid) : c.Sound ↔ ¬c.OverflowsUnseen := by
  cases c with
  | numElements shape =>
    refine iff_of_true ?_ id
    rintro hKnown dims rfl sizes hSizes hRange
    exact numElements_exact hKnown hSizes hRange
  | binary op first second =>
    obtain ⟨hFirst, hSecond⟩ := h
    constructor
    · rintro ⟨-, hRefuses⟩ ⟨rfl, hKnown, hKnown', hLarge, hUnseen⟩
      have hNonneg := hFirst.nonneg hKnown
      have hNonneg' := hSecond.validDim.nonneg hKnown'
      have hRange : ¬InRange (first.toInt.toNat * second.value.toInt.toNat) := by
        rw [InRange, toNat_of_nonneg hNonneg, toNat_of_nonneg hNonneg']
        omega
      have hError := hRefuses rfl hKnown hKnown' _ rfl hRange
      have hSeen := (multiply_of_large hNonneg hNonneg' hLarge).mp hError
      omega
    · intro hUnseen
      refine ⟨fun out hOk hKnown a b ha hb r hExact hRange =>
        run_exact ha hb hOk hKnown hExact hRange, ?_⟩
      intro hChecks hKnown hKnown' r hExact hRange
      have hSeen : op = .multiply → 2 ^ 63 ≤ first.toInt * second.value.toInt →
          2 ^ 63 ≤ first.toInt * second.value.toInt % 2 ^ 64 := by
        intro hOp hLarge
        have hNot : ¬(first.toInt * second.value.toInt % 2 ^ 64 < 2 ^ 63) :=
          fun hLess => hUnseen ⟨hOp, hKnown, hKnown', hLarge, hLess⟩
        omega
      exact refuses_of_not_overflowsUnseen (hFirst.nonneg hKnown)
        (hSecond.validDim.nonneg hKnown') hChecks hSeen hExact hRange

theorem sound_three_four : (Call.binary .multiply 3 (.constant 4)).Sound :=
  (sound_iff (c := .binary .multiply 3 (.constant 4))
    ⟨Or.inr (by decide), (by decide : (0 : Int64) ≤ 4)⟩).mpr
    fun hUnseen => absurd hUnseen.2.2.2.1 (by decide)

theorem not_sound_square : (Call.binary .multiply 4294967296 (.dim 4294967296)).Valid ∧
    ¬(Call.binary .multiply 4294967296 (.dim 4294967296)).Sound := by
  refine ⟨⟨Or.inr (by decide), Or.inr (by decide)⟩, ?_⟩
  rintro ⟨-, hRefuses⟩
  obtain ⟨status, hError⟩ := hRefuses rfl (by decide) (by decide) (2 ^ 64) rfl
    fun hRange => absurd hRange.2 (by decide)
  cases hError

end TensorFlowOnSpark.Framework.Dimensions
