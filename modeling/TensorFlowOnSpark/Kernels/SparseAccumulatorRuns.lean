import Mathlib.Algebra.Field.Rat
import TensorFlowOnSpark.Kernels.SparseAccumulator

/-!
# Runs of the sparse accumulator

What the calls of a run are owed is kept in a ledger that knows nothing of the accumulator. A
gradient that is not stale and fits is pending until the first waiting call has as many gradients
as it asks for; that call gets the average of all that are pending.
-/

namespace TensorFlowOnSpark.Kernels.SparseAccumulator

open Framework SortedMerge Fallible List Option Int

variable {T : Type} {shape : Shape}

/-- The indices are a vector, and there is a row of values for each. -/
def Gradient.slices (grad : Gradient T) : Option (IndexedSlices T) :=
  match grad.values with
  | none => none
  | some values =>
    if h : grad.indicesShape.length = 1 ∧ values.rows.length = grad.indices.length then
      some ⟨values, grad.indices, h.2⟩
    else none

/-- There is a size for each dimension, the dimension's own where that is known. -/
def Agrees (dims : List Dim) (sizes : List Int) : Prop :=
  dims.length ≤ sizes.length ∧ ∀ p ∈ dims.zip sizes, ∀ n ∈ p.1, p.2 = Int.ofNat n

instance (dims : List Dim) (sizes : List Int) : Decidable (Agrees dims sizes) := instDecidableAnd

/-- The slices have the dimensions of those that are pending, or agree with the shape. -/
def SameSlices (shape : Shape) : List (IndexedSlices T) → List Nat → Prop
  | [], inner => Agrees (shape.getD []).tail (inner.map Int.ofNat)
  | first :: _, inner => inner = first.inner

instance (shape : Shape) (pending : List (IndexedSlices T)) (inner : List Nat) :
    Decidable (SameSlices shape pending inner) :=
  match pending with
  | [] => inferInstanceAs (Decidable (Agrees _ _))
  | first :: _ => inferInstanceAs (Decidable (inner = first.inner))

/-- The gradient agrees with the shape of the accumulator and with what is pending. -/
def Fitting (shape : Shape) (pending : List (IndexedSlices T)) (announced : Option (List Int))
    (g : IndexedSlices T) : Prop :=
  (∀ sizes ∈ announced, Agrees (shape.getD []) sizes) ∧
    (∀ n ∈ (shape.getD []).getD 0 none, ∀ i ∈ g.indices, i < Int.ofNat n) ∧
    SameSlices shape pending g.inner

instance (shape : Shape) (pending : List (IndexedSlices T)) (announced : Option (List Int))
    (g : IndexedSlices T) : Decidable (Fitting shape pending announced g) := instDecidableAnd

/-- The gradients that no call has got yet, and the calls that wait. -/
structure Ledger (T : Type) where
  globalStep : Int
  pending : List (IndexedSlices T)
  waiting : List Attempt

namespace Ledger

def initial : Ledger T := ⟨0, [], []⟩

def accepted (shape : Shape) (ledger : Ledger T) : Op T → List (IndexedSlices T)
  | .applyGrad localStep grad =>
    if ledger.globalStep ≤ localStep then
      grad.slices.toList.filter fun g => Fitting shape ledger.pending grad.shape g
    else []
  | .setGlobalStep _ => []
  | .takeGrad _ _ => []

def requests : Op T → List Attempt
  | .takeGrad context numRequired => if numRequired ≤ 0 then [] else [⟨context, numRequired⟩]
  | .applyGrad _ _ => []
  | .setGlobalStep _ => []

/-- The operation is an error: a gradient in time that does not fit, or a call for no gradient. -/
def Refuses (shape : Shape) (ledger : Ledger T) : Op T → Prop
  | .applyGrad localStep grad =>
    ledger.globalStep ≤ localStep ∧ ledger.accepted shape (.applyGrad localStep grad) = []
  | .setGlobalStep _ => False
  | .takeGrad _ numRequired => numRequired ≤ 0

def receive (shape : Shape) (ledger : Ledger T) (op : Op T) : Ledger T where
  globalStep :=
    match op with
    | .applyGrad _ _ => ledger.globalStep
    | .setGlobalStep newGlobalStep => newGlobalStep
    | .takeGrad _ _ => ledger.globalStep
  pending := ledger.pending ++ ledger.accepted shape op
  waiting := ledger.waiting ++ requests op

/-- The first waiting call is done when enough gradients are pending: it gets all of them, and the
global step goes up. -/
def serve (ledger : Ledger T) : Ledger T × List (Attempt × List (IndexedSlices T)) :=
  match ledger.waiting with
  | [] => (ledger, [])
  | attempt :: rest =>
    if attempt.elementsRequested ≤ ledger.pending.length then
      (⟨ledger.globalStep + 1, [], rest⟩, [(attempt, ledger.pending)])
    else (ledger, [])

def step (shape : Shape) (ledger : Ledger T) (op : Op T) :
    Ledger T × List (Attempt × List (IndexedSlices T)) := (ledger.receive shape op).serve

def final (shape : Shape) (ledger : Ledger T) : List (Op T) → Ledger T
  | [] => ledger
  | op :: ops => final shape (ledger.step shape op).1 ops

/-- The gradients that a run brings. -/
def brought (shape : Shape) (ledger : Ledger T) : List (Op T) → List (IndexedSlices T)
  | [] => []
  | op :: ops => ledger.accepted shape op ++ brought shape (ledger.step shape op).1 ops

/-- The gradients that the calls of a run count. -/
def counted (shape : Shape) (ledger : Ledger T) : List (Op T) → List (IndexedSlices T)
  | [] => []
  | op :: ops =>
    (ledger.step shape op).2.flatMap Prod.snd ++ counted shape (ledger.step shape op).1 ops

theorem serve_counts (ledger : Ledger T) :
    ledger.serve.2.flatMap Prod.snd ++ ledger.serve.1.pending = ledger.pending := by
  rw [serve]
  split
  · rfl
  · split
    · simp
    · rfl

/-- Every gradient that is brought is counted once or still pending. -/
theorem counted_append_pending (ledger : Ledger T) (ops : List (Op T)) :
    ledger.counted shape ops ++ (ledger.final shape ops).pending =
      ledger.pending ++ ledger.brought shape ops := by
  induction ops generalizing ledger with
  | nil => rw [counted, final, brought, append_nil, nil_append]
  | cons op ops ih =>
    have hServe := serve_counts (ledger.receive shape op)
    have hReceived : (ledger.receive shape op).pending =
      ledger.pending ++ ledger.accepted shape op := rfl
    rw [counted, final, brought, append_assoc, ih, ← append_assoc, ← append_assoc]
    rw [step, hServe, hReceived]

end Ledger

section Follows

variable [AddCommMonoid T] [Div T] [NatCast T]

/-- A call that is done returns the average of the gradients that it gets. -/
def Delivers (served : Attempt × List (IndexedSlices T)) (taken : Taken T) : Prop :=
  taken.attempt = served.1 ∧ AverageOf served.2 taken

/-- The operations report and complete what the ledger says. -/
def Follows (shape : Shape) (ledger : Ledger T) : List (Op T) → List (Effect T) → Prop
  | [], effects => effects = []
  | op :: ops, effects => ∃ effect more, effects = effect :: more ∧
      (effect.status = .ok ↔ ¬ ledger.Refuses shape op) ∧
      Forall₂ Delivers (ledger.step shape op).2 effect.taken ∧
      Follows shape (ledger.step shape op).1 ops more

/-- The run follows the ledger, in which the gradients that are brought are counted once, in
order, but for those that no call has got at the end. -/
def Averages (shape : Shape) (ops : List (Op T)) : Prop :=
  ∃ s effects, run shape .initial ops = some (s, effects) ∧ Follows shape .initial ops effects ∧
    Ledger.brought shape .initial ops =
      Ledger.counted shape .initial ops ++ (Ledger.final shape .initial ops).pending

end Follows

/-- The first waiting call can be served: no `int` overflows. -/
def Ledger.Servable (ledger : Ledger T) : Prop :=
  ∀ attempt ∈ ledger.waiting.head?, attempt.elementsRequested ≤ ledger.pending.length →
    ledger.globalStep < 2 ^ 63 - 1 ∧ (distinct ledger.pending).length ≤ intMax

instance (ledger : Ledger T) : Decidable ledger.Servable :=
  inferInstanceAs (Decidable (∀ attempt ∈ ledger.waiting.head?, _ → _))

/-- The condition on an operation. -/
def Fits (shape : Shape) (ledger : Ledger T) (op : Op T) : Prop :=
  (∀ g ∈ ledger.accepted shape op, Addable ledger.pending g) ∧ (ledger.receive shape op).Servable

instance (shape : Shape) (ledger : Ledger T) (op : Op T) : Decidable (Fits shape ledger op) :=
  instDecidableAnd

def RunFits (shape : Shape) (ledger : Ledger T) : List (Op T) → Prop
  | [] => True
  | op :: ops => Fits shape ledger op ∧ RunFits shape (ledger.step shape op).1 ops

instance decidableRunFits (shape : Shape) (ledger : Ledger T) :
    (ops : List (Op T)) → Decidable (RunFits shape ledger ops)
  | [] => instDecidableTrue
  | op :: ops =>
    have := decidableRunFits shape (ledger.step shape op).1 ops
    inferInstanceAs (Decidable (_ ∧ _))

section Validation

variable {s : State T} {grad : Gradient T} {g : IndexedSlices T}

theorem checkAll_ok_iff {n : Nat} {check : Nat → Option Status} :
    checkAll n check = .ok () ↔ ∀ i < n, check i = none := by
  rw [checkAll]
  split
  · rename_i status hSome
    refine iff_of_false (fun h => by cases h) ?_
    intro hAll
    obtain ⟨i, hi, hCheck⟩ := exists_of_findSome?_eq_some hSome
    rw [hAll i (mem_range.mp hi)] at hCheck
    cases hCheck
  · rename_i hNone
    refine iff_of_true rfl ?_
    exact fun i hi => findSome?_eq_none_iff.mp hNone i (mem_range.mpr hi)

theorem dimSize_iff (dims : List Dim) (i : Nat) (size : Int) :
    ¬ (dimSize dims i ≠ -1 ∧ dimSize dims i ≠ size) ↔
      ∀ n ∈ dims.getD i none, size = Int.ofNat n := by
  rw [dimSize]
  cases dims.getD i none with
  | none => simp
  | some n =>
    simp only [Option.map_some, Option.getD_some, mem_some, forall_eq', ofNat_eq_natCast]
    omega

theorem agrees_iff (dims : List Dim) (sizes : List Int) :
    Agrees dims sizes ↔ dims.length ≤ sizes.length ∧
      ∀ i < dims.length, ¬ (dimSize dims i ≠ -1 ∧ dimSize dims i ≠ sizes.getD i 0) := by
  rw [Agrees]
  apply and_congr_right
  intro hLength
  simp only [dimSize_iff, forall_mem_iff_getElem, getElem_zip, length_zip]
  constructor
  · intro h i hi
    have hSize : i < sizes.length := lt_of_lt_of_le hi hLength
    have hAt := h i (lt_min hi hSize)
    rwa [getD_eq_getElem _ _ hi, getD_eq_getElem _ _ hSize]
  · intro h i hi
    have hAt := h i (lt_of_lt_of_le hi (min_le_left _ _))
    rwa [getD_eq_getElem, getD_eq_getElem] at hAt

theorem rank_eq (shape : Shape) (n : Nat) :
    ((n : Int) < shape.rank) ↔ n < (shape.getD []).length := by
  cases shape with
  | none =>
    simp only [Shape.rank, Shape.kUnknownRank, Option.getD_none, length_nil]
    omega
  | some dims => simp [Shape.rank]

theorem checkGradientShape_ok_iff (shape : Shape) (announced : Option (List Int)) :
    checkGradientShape shape announced = .ok () ↔
      ∀ sizes ∈ announced, Agrees (shape.getD []) sizes := by
  cases announced with
  | none => exact iff_of_true rfl fun sizes hMem => by cases hMem
  | some sizes =>
    simp only [checkGradientShape, rank_eq, mem_some, forall_eq', agrees_iff]
    split
    · rename_i hShort
      exact iff_of_false (fun h => by cases h) fun h => not_lt.mpr h.1 hShort
    · rename_i hLong
      rw [checkAll_ok_iff, and_iff_right (not_lt.mp hLong)]
      simp only [ite_eq_right_iff, reduceCtorEq, imp_false]

theorem checkIndices_ok_iff (shape : Shape) (indices : List Int) :
    checkIndices shape indices = .ok () ↔
      ∀ n ∈ (shape.getD []).getD 0 none, ∀ i ∈ indices, i < Int.ofNat n := by
  rw [checkIndices]
  cases hFirst : (shape.getD []).getD 0 none with
  | none =>
    rw [if_neg fun h => h.2 (by rw [dimSize, hFirst]; rfl)]
    exact iff_of_true rfl fun n hMem => by cases hMem
  | some n =>
    have hSize : dimSize (shape.getD []) 0 = Int.ofNat n := by
      rw [dimSize, hFirst]
      rfl
    have hDims : 0 < (shape.getD []).length := by
      by_contra hNone
      rw [getD_eq_default _ _ (not_lt.mp hNone)] at hFirst
      cases hFirst
    rw [if_pos ⟨hDims, by rw [hSize]; simp⟩, checkAll_ok_iff]
    simp only [hSize, mem_some, forall_eq', forall_mem_iff_getElem, ite_eq_right_iff, reduceCtorEq,
      imp_false, not_le]
    constructor
    · intro h i hi
      have hAt := h i hi
      rwa [getD_eq_getElem _ _ hi] at hAt
    · intro h i hi
      rw [getD_eq_getElem _ _ hi]
      exact h i hi

theorem checkAccumulated_ok_iff (s : State T) (inner : List Nat) :
    checkAccumulated s inner = .ok () ↔ inner = s.accumInner := by
  rw [checkAccumulated]
  split
  · rename_i hLength
    exact iff_of_false (fun h => by cases h) fun h => hLength (by rw [h])
  · rename_i hLength
    rw [not_not] at hLength
    simp only [checkAll_ok_iff, ite_eq_right_iff, reduceCtorEq, imp_false, not_not]
    constructor
    · intro h
      apply ext_getElem hLength.symm
      intro i hi hi'
      have hSame := h i hi
      rw [getD_eq_getElem _ _ hi, getD_eq_getElem _ _ hi'] at hSame
      exact hSame.symm
    · rintro rfl i hi
      rfl

theorem checkFirst_ok_iff (shape : Shape) (inner : List Nat) :
    checkFirst shape inner = .ok () ↔ Agrees (shape.getD []).tail (inner.map Int.ofNat) := by
  have hRank := rank_eq shape (inner.length + 1)
  rw [Nat.cast_succ] at hRank
  simp only [checkFirst, hRank, agrees_iff, drop_one, length_tail, length_map]
  split
  · rename_i hShort
    exact iff_of_false (fun h => by cases h) fun h => by omega
  · rename_i hLong
    rw [checkAll_ok_iff, and_iff_right (by omega)]
    have hSize : ∀ i, (inner.map Int.ofNat).getD i 0 = Int.ofNat (inner.getD i 0) := fun i => by
      exact getD_map _ _ Int.ofNat
    simp only [ite_eq_right_iff, reduceCtorEq, imp_false, hSize]
    rfl

/-- A failed validation is an error. -/
def Validates (x : Except Status Unit) : Prop := Ends (fun _ => True) (· ≠ Status.ok) x

theorem invalidArgument_ne_ok (message : String) : Errors.invalidArgument message ≠ .ok := by
  intro h
  cases h

theorem checkAll_validates (n : Nat) (p : Nat → Prop) [DecidablePred p] (message : Nat → String) :
    Validates (checkAll n fun i =>
      if p i then some (Errors.invalidArgument (message i)) else none) := by
  rw [checkAll]
  split
  · rename_i status hSome
    obtain ⟨i, -, hCheck⟩ := exists_of_findSome?_eq_some hSome
    split at hCheck
    · cases hCheck
      exact Ends.error (invalidArgument_ne_ok _)
    · cases hCheck
  · exact Ends.ok trivial

theorem checkGradientShape_validates (shape : Shape) (announced : Option (List Int)) :
    Validates (checkGradientShape shape announced) := by
  cases announced with
  | none => exact Ends.ok trivial
  | some sizes =>
    rw [checkGradientShape]
    split
    · exact Ends.error (invalidArgument_ne_ok _)
    · exact checkAll_validates _ _ _

theorem checkIndices_validates (shape : Shape) (indices : List Int) :
    Validates (checkIndices shape indices) := by
  rw [checkIndices]
  split
  · exact checkAll_validates _ _ _
  · exact Ends.ok trivial

theorem checkAccumulated_validates (s : State T) (inner : List Nat) :
    Validates (checkAccumulated s inner) := by
  rw [checkAccumulated]
  split
  · exact Ends.error (invalidArgument_ne_ok _)
  · exact checkAll_validates _ _ _

theorem checkFirst_validates (shape : Shape) (inner : List Nat) :
    Validates (checkFirst shape inner) := by
  rw [checkFirst]
  split
  · exact Ends.error (invalidArgument_ne_ok _)
  · exact checkAll_validates _ _ _

theorem validateShape_validates (shape : Shape) (s : State T) (g : IndexedSlices T)
    (announced : Option (List Int)) : Validates (validateShape shape s g announced) := by
  refine Ends.bind (checkGradientShape_validates shape announced) fun _ _ _ => ?_
  refine Ends.bind (checkIndices_validates shape g.indices) fun _ _ _ => ?_
  split
  · exact checkAccumulated_validates s g.inner
  · exact checkFirst_validates shape g.inner

end Validation

section Standing

variable [AddCommMonoid T]

/-- The state of the accumulator is what the ledger says. -/
structure Stands (s : State T) (ledger : Ledger T) : Prop where
  globalStep : s.currentGlobalStep = ledger.globalStep
  counter : s.counter = ledger.pending.length
  sum : ledger.pending ≠ [] → Sum s ledger.pending
  attempts : s.attempts = ledger.waiting
  positive : ∀ attempt ∈ ledger.waiting, 0 < attempt.elementsRequested

def Ledger.Idle (ledger : Ledger T) : Prop :=
  ∀ attempt ∈ ledger.waiting.head?, (ledger.pending.length : Int) < attempt.elementsRequested

theorem Sum.of_eq {s s' : State T} {gs : List (IndexedSlices T)} (h : Sum s gs)
    (hIdx : s'.accumIdx = s.accumIdx) (hCount : s'.countElement = s.countElement)
    (hInner : s'.accumInner = s.accumInner) (hRows : s'.accumRows = s.accumRows) : Sum s' gs := by
  constructor
  · exact hIdx ▸ h.increasing
  · exact hIdx ▸ h.mem_accumIdx
  · exact hInner ▸ h.inner
  · rw [hIdx, hCount, h.countElement]
  · rw [hIdx, hInner, hRows, h.accumRows]

variable {s : State T} {ledger : Ledger T} {g : IndexedSlices T}

theorem initial_stands : Stands (.initial : State T) .initial :=
  ⟨rfl, rfl, fun hNot => absurd rfl hNot, rfl, fun attempt hMem => by cases hMem⟩

omit [AddCommMonoid T] in
theorem initial_idle : (.initial : Ledger T).Idle := fun attempt hHead => by cases hHead

theorem sameSlices_iff (h : Stands s ledger) (inner : List Nat) :
    (if s.counter > 0 then checkAccumulated s inner else checkFirst shape inner) = .ok () ↔
      SameSlices shape ledger.pending inner := by
  have hCounter := h.counter
  have hSum := h.sum
  cases hPending : ledger.pending with
  | nil =>
    rw [hPending, length_nil] at hCounter
    rw [if_neg (by omega), checkFirst_ok_iff]
    rfl
  | cons first rest =>
    rw [hPending, length_cons] at hCounter
    rw [hPending] at hSum
    have hFirst := (hSum (cons_ne_nil _ _)).inner first mem_cons_self
    rw [if_pos (by omega), checkAccumulated_ok_iff, ← hFirst]
    rfl

theorem validateShape_ok_iff (shape : Shape) (h : Stands s ledger) (announced : Option (List Int)) :
    validateShape shape s g announced = .ok () ↔ Fitting shape ledger.pending announced g := by
  rw [Fitting, ← checkGradientShape_ok_iff, ← checkIndices_ok_iff, ← sameSlices_iff h]
  simp only [validateShape, bind_eq_ok, exists_unit]

/-- The validation takes the gradients that the ledger takes. -/
theorem getAndValidate_cases (shape : Shape) (h : Stands s ledger) (grad : Gradient T) :
    ((grad.slices.toList.filter fun g => Fitting shape ledger.pending grad.shape g) = [] ∧
      ∃ status, status ≠ .ok ∧
        getAndValidateTensorInputForApplyGrad shape s grad = .error status) ∨
    ∃ g, (grad.slices.toList.filter fun g => Fitting shape ledger.pending grad.shape g) = [g] ∧
      g.indices = grad.indices ∧
        getAndValidateTensorInputForApplyGrad shape s grad = .ok g := by
  rw [getAndValidateTensorInputForApplyGrad, Gradient.slices]
  cases grad.values with
  | none =>
    refine Or.inl ⟨rfl, ?_⟩
    dsimp only
    split
    · exact ⟨_, invalidArgument_ne_ok _, rfl⟩
    · exact ⟨_, invalidArgument_ne_ok _, rfl⟩
  | some values =>
    dsimp only
    by_cases hVector : grad.indicesShape.length = 1
    · rw [if_neg fun hNot => hNot hVector]
      by_cases hRows : values.rows.length = grad.indices.length
      · rw [dif_pos hRows, dif_pos ⟨hVector, hRows⟩]
        have hEnds := validateShape_validates shape s ⟨values, grad.indices, hRows⟩ grad.shape
        have hOk := validateShape_ok_iff (g := ⟨values, grad.indices, hRows⟩) shape h grad.shape
        cases hValid : validateShape shape s ⟨values, grad.indices, hRows⟩ grad.shape with
        | error status =>
          rw [hValid] at hEnds hOk
          refine Or.inl ⟨?_, status, hEnds, rfl⟩
          rw [Option.toList_some, filter_singleton, Bool.cond_decide, if_neg]
          intro hFitting
          cases hOk.mpr hFitting
        | ok u =>
          rw [hValid] at hOk
          refine Or.inr ⟨_, ?_, rfl, rfl⟩
          rw [Option.toList_some, filter_singleton, Bool.cond_decide, if_pos (hOk.mp rfl)]
      · rw [dif_neg hRows, dif_neg fun hBoth => hRows hBoth.2]
        exact Or.inl ⟨rfl, _, invalidArgument_ne_ok _, rfl⟩
    · rw [if_pos hVector, dif_neg fun hBoth => hVector hBoth.1]
      exact Or.inl ⟨rfl, _, invalidArgument_ne_ok _, rfl⟩

theorem addGradient_stands (h : Stands s ledger) (hIncreasing : g.indices.Pairwise (· < ·))
    (hSame : SameSlices shape ledger.pending g.inner) (hAdd : Addable ledger.pending g) :
    ∃ s', addGradient s g = some s' ∧
      Stands s' { ledger with pending := ledger.pending ++ [g] } := by
  have hCounter := h.counter
  have hLength : (ledger.pending ++ [g]).length = s.counter + 1 := by
    rw [length_append, length_singleton, hCounter]
  have hRoom : ¬ intMax ≤ s.counter := by
    have hFew := hAdd.counter
    omega
  rw [addGradient]
  rcases eq_or_ne ledger.pending [] with hNone | hSome
  · rw [hNone, length_nil] at hCounter
    obtain ⟨s₁, hAssigned, hSum, hCounter₁, hStep₁, hAttempts₁⟩ :=
      allocateAndAssignToAccumGrad_sum s hIncreasing (hAdd.first hNone)
    refine ⟨{ s₁ with counter := s₁.counter + 1 }, ?_, ?_⟩
    · rw [if_neg (by omega), hAssigned]
      simp only [bind_eq_bind, bind_some]
      rw [hCounter₁, if_neg hRoom]
    · refine ⟨hStep₁.trans h.globalStep, ?_, fun _ => ?_, hAttempts₁.trans h.attempts, h.positive⟩
      · rw [hLength, hCounter₁]
      · rw [hNone, nil_append]
        exact hSum.of_eq rfl rfl rfl rfl
  · have hPos := length_pos_iff.mpr hSome
    have hInner : g.inner = s.accumInner := by
      have hAll := (h.sum hSome).inner
      cases hPending : ledger.pending with
      | nil => exact absurd hPending hSome
      | cons first rest =>
        rw [hPending] at hSame hAll
        exact hSame.trans (hAll first mem_cons_self)
    obtain ⟨s₁, hAdded, hSum, hCounter₁, hStep₁, hAttempts₁⟩ :=
      addToAccumGrad_sum (h.sum hSome) hIncreasing hInner hSome hAdd
    refine ⟨{ s₁ with counter := s₁.counter + 1 }, ?_, ?_⟩
    · rw [if_pos (by omega), hAdded]
      simp only [bind_eq_bind, bind_some]
      rw [hCounter₁, if_neg hRoom]
    · refine ⟨hStep₁.trans h.globalStep, ?_, fun _ => ?_, hAttempts₁.trans h.attempts, h.positive⟩
      · rw [hLength, hCounter₁]
      · exact hSum.of_eq rfl rfl rfl rfl

end Standing

section Serving

variable [AddCommMonoid T] [Div T] [NatCast T]

variable {s : State T} {ledger : Ledger T} {gs : List (IndexedSlices T)} {attempt : Attempt}

theorem takeGradLockedHelper_average (shape : Shape) (attempt : Attempt) (hSum : Sum s gs)
    (hStep : s.currentGlobalStep < 2 ^ 63 - 1) (hFew : (distinct gs).length ≤ intMax) :
    ∃ s' taken, takeGradLockedHelper shape s attempt = some (s', taken) ∧ s'.counter = 0 ∧
      s'.currentGlobalStep = s.currentGlobalStep + 1 ∧ taken.attempt = attempt ∧
      AverageOf gs taken := by
  have hLength := length_distinct hSum.increasing hSum.mem_accumIdx
  have hRows := divideAccumGradByCounter_rows hSum
  rw [takeGradLockedHelper, if_neg (by omega)]
  dsimp only
  have hShort : ¬ intMax < s.accumIdx.length := by omega
  refine ⟨_, _, by rw [setOutput, divideAccumGradByCounter, if_neg hShort]; rfl, rfl, rfl, rfl, ?_⟩
  exact ⟨hSum.increasing, hSum.mem_accumIdx, hSum.inner, hRows⟩

omit [AddCommMonoid T] in
theorem tryAttemptLocked_idle {attempts : List Attempt}
    (h : ∀ attempt ∈ attempts.head?, (s.counter : Int) < attempt.elementsRequested) :
    tryAttemptLocked shape attempts s = some ({ s with attempts := attempts }, []) := by
  cases attempts with
  | nil => rfl
  | cons attempt rest =>
    have hWaits := h attempt rfl
    rw [tryAttemptLocked, if_neg (by omega)]

omit [AddCommMonoid T] in
theorem flushUnlocked_idle
    (h : ∀ attempt ∈ s.attempts.head?, (s.counter : Int) < attempt.elementsRequested) :
    flushUnlocked shape s = some (s, []) := by
  rw [flushUnlocked, flushLoop, tryAttemptLocked_idle h]
  rfl

omit [AddCommMonoid T] in
/-- A served call leaves no gradient, so that the calls behind it wait. -/
theorem flushUnlocked_cons {rest : List Attempt} {s' : State T} {taken : Taken T}
    (hAttempts : s.attempts = attempt :: rest)
    (hPos : ∀ attempt ∈ rest, 0 < attempt.elementsRequested)
    (h : attempt.elementsRequested ≤ s.counter)
    (hTake : takeGradLockedHelper shape s attempt = some (s', taken)) (hCounter : s'.counter = 0) :
    flushUnlocked shape s = some ({ s' with attempts := rest }, [taken]) := by
  have hIdle : ∀ attempt ∈ rest.head?, (s'.counter : Int) < attempt.elementsRequested := by
    intro attempt hHead
    rw [hCounter]
    exact hPos attempt (mem_of_mem_head? hHead)
  have hAgain : flushLoop shape (rest.length + 1) { s' with attempts := rest } =
      some ({ s' with attempts := rest }, []) := by
    rw [flushLoop, tryAttemptLocked_idle (s := { s' with attempts := rest }) hIdle]
    rfl
  rw [flushUnlocked, hAttempts, length_cons, flushLoop, hAttempts, tryAttemptLocked, if_pos h,
    hTake]
  simp only [bind_eq_bind, bind_some, tryAttemptLocked_idle hIdle]
  rw [hAgain]
  rfl

omit [AddCommMonoid T] [Div T] [NatCast T] in
theorem serve_of_idle (h : ledger.Idle) : ledger.serve = (ledger, []) := by
  rw [Ledger.serve]
  split
  · rfl
  · rename_i attempt rest hWaiting
    have hFew := h attempt (by rw [hWaiting]; rfl)
    rw [if_neg (not_le.mpr hFew)]

omit [AddCommMonoid T] [Div T] [NatCast T] in
theorem serve_idle (hPositive : ∀ attempt ∈ ledger.waiting, 0 < attempt.elementsRequested) :
    ledger.serve.1.Idle := by
  intro a hHead
  rw [Ledger.serve] at hHead ⊢
  split at hHead
  · rename_i hWaiting
    rw [hWaiting] at hHead
    cases hHead
  · rename_i attempt rest hWaiting
    rw [hWaiting, forall_mem_cons] at hPositive
    split at hHead
    · rename_i hEnough
      rw [if_pos hEnough]
      exact hPositive.2 a (mem_of_mem_head? hHead)
    · rename_i hFew
      rw [hWaiting, head?_cons, mem_some] at hHead
      rw [if_neg hFew, ← hHead]
      exact not_le.mp hFew

/-- A flush completes what the ledger serves. -/
theorem flushUnlocked_serves (shape : Shape) (h : Stands s ledger) (hServable : ledger.Servable) :
    ∃ s' taken, flushUnlocked shape s = some (s', taken) ∧ Stands s' ledger.serve.1 ∧
      Forall₂ Delivers ledger.serve.2 taken := by
  have hCounter := h.counter
  have hStep := h.globalStep
  have hPositive := h.positive
  rw [Ledger.serve]
  cases hWaiting : ledger.waiting with
  | nil =>
    refine ⟨s, [], flushUnlocked_idle ?_, h, Forall₂.nil⟩
    intro attempt hHead
    rw [h.attempts, hWaiting] at hHead
    cases hHead
  | cons attempt rest =>
    have hAttempts := h.attempts.trans hWaiting
    rw [hWaiting, forall_mem_cons] at hPositive
    rw [Ledger.Servable, hWaiting] at hServable
    dsimp only
    split
    · rename_i hEnough
      obtain ⟨hLess, hFew⟩ := hServable attempt rfl hEnough
      have hSome : ledger.pending ≠ [] := by
        intro hNone
        rw [hNone, length_nil] at hEnough
        omega
      obtain ⟨s', taken, hTake, hZero, hNext, hAttempt, hAverage⟩ :=
        takeGradLockedHelper_average shape attempt (h.sum hSome) (by omega) hFew
      refine ⟨_, _, flushUnlocked_cons hAttempts hPositive.2 (by omega) hTake hZero, ?_,
        Forall₂.cons ⟨hAttempt, hAverage⟩ Forall₂.nil⟩
      exact ⟨hNext.trans (by rw [hStep]), hZero, fun hNot => absurd rfl hNot, rfl, hPositive.2⟩
    · rename_i hFew
      refine ⟨s, [], flushUnlocked_idle ?_, h, Forall₂.nil⟩
      intro a hHead
      rw [hAttempts, head?_cons, mem_some] at hHead
      rw [← hHead]
      omega

end Serving

def Op.Increasing : Op T → Prop
  | .applyGrad _ grad => grad.indices.Pairwise (· < ·)
  | .setGlobalStep _ => True
  | .takeGrad _ _ => True

section Steps

variable [AddCommMonoid T] {s : State T} {ledger : Ledger T} {op : Op T} {ops : List (Op T)}

theorem applyLocked_stands {localStep : Int} {grad : Gradient T} (h : Stands s ledger)
    (hIncreasing : grad.indices.Pairwise (· < ·))
    (hFits : Fits shape ledger (.applyGrad localStep grad)) :
    ∃ s' status, applyLocked shape s localStep grad = some (s', status) ∧
      Stands s' (ledger.receive shape (.applyGrad localStep grad)) ∧
      (status = .ok ↔ ¬ ledger.Refuses shape (.applyGrad localStep grad)) := by
  have hAdd := hFits.1
  rw [Ledger.receive, Ledger.Refuses, Ledger.requests, append_nil]
  rw [Ledger.accepted] at hAdd ⊢
  rw [applyLocked, h.globalStep]
  by_cases hFresh : ledger.globalStep ≤ localStep
  · rw [if_pos hFresh] at hAdd ⊢
    rw [if_pos (ge_iff_le.mpr hFresh)]
    rcases getAndValidate_cases shape h grad with
      ⟨hNone, status, hError, hValid⟩ | ⟨g, hOne, hIndices, hValid⟩
    · rw [hNone, append_nil, hValid]
      exact ⟨s, status, rfl, h, iff_of_false hError fun hNot => hNot ⟨hFresh, rfl⟩⟩
    · rw [hOne] at hAdd ⊢
      rw [hValid]
      have hMem : g ∈ grad.slices.toList.filter fun g =>
          Fitting shape ledger.pending grad.shape g := by
        rw [hOne]
        exact mem_singleton_self g
      have hFitting : Fitting shape ledger.pending grad.shape g :=
        of_decide_eq_true (mem_filter.mp hMem).2
      obtain ⟨s', hAdded, hStands⟩ := addGradient_stands h (hIndices ▸ hIncreasing) hFitting.2.2
        (hAdd g (mem_singleton_self g))
      refine ⟨s', .ok, ?_, hStands, iff_of_true rfl fun hRefused => ?_⟩
      · dsimp only
        rw [hAdded]
        rfl
      · cases hRefused.2
  · rw [if_neg hFresh, if_neg hFresh, append_nil]
    exact ⟨s, .ok, rfl, h, iff_of_true rfl fun hRefused => hFresh hRefused.1⟩

theorem request_stands (h : Stands s ledger) (context : Nat) {numRequired : Int}
    (hPos : 0 < numRequired) :
    Stands { s with attempts := s.attempts ++ [⟨context, numRequired⟩] }
      { ledger with waiting := ledger.waiting ++ [⟨context, numRequired⟩] } := by
  refine ⟨h.globalStep, h.counter, fun hSome => (h.sum hSome).of_eq rfl rfl rfl rfl, ?_, ?_⟩
  · rw [← h.attempts]
  · intro attempt hMem
    rcases mem_append.mp hMem with hOld | hNew
    · exact h.positive attempt hOld
    · rw [mem_singleton.mp hNew]
      exact hPos

variable [Div T] [NatCast T]

theorem step_follows (h : Stands s ledger) (hIdle : ledger.Idle) (hIncreasing : op.Increasing)
    (hFits : Fits shape ledger op) :
    ∃ s' effect, step shape s op = some (s', effect) ∧ Stands s' (ledger.step shape op).1 ∧
      (effect.status = .ok ↔ ¬ ledger.Refuses shape op) ∧
      Forall₂ Delivers (ledger.step shape op).2 effect.taken := by
  cases op with
  | applyGrad localStep grad =>
    obtain ⟨s₁, status, hApply, h₁, hStatus⟩ := applyLocked_stands h hIncreasing hFits
    obtain ⟨s', taken, hFlush, hStands, hDelivers⟩ := flushUnlocked_serves shape h₁ hFits.2
    refine ⟨s', ⟨status, taken⟩, ?_, hStands, hStatus, hDelivers⟩
    rw [step, tryApplyGrad, hApply]
    simp only [bind_eq_bind, bind_some, hFlush]
  | setGlobalStep newGlobalStep =>
    have hReceived : Ledger.receive shape ledger (.setGlobalStep newGlobalStep) =
        { ledger with globalStep := newGlobalStep } := by
      rw [Ledger.receive, Ledger.accepted, Ledger.requests, append_nil, append_nil]
    have hServe : ledger.step shape (.setGlobalStep newGlobalStep) =
        ({ ledger with globalStep := newGlobalStep }, []) := by
      rw [Ledger.step, hReceived]
      exact serve_of_idle hIdle
    rw [hServe]
    refine ⟨_, _, rfl, ?_, iff_of_true rfl not_false, Forall₂.nil⟩
    exact ⟨rfl, h.counter, fun hSome => (h.sum hSome).of_eq rfl rfl rfl rfl, h.attempts,
      h.positive⟩
  | takeGrad context numRequired =>
    rw [Ledger.Refuses, step, tryTakeGrad]
    have hServable := hFits.2
    rw [Ledger.step]
    rw [Ledger.receive, Ledger.accepted, Ledger.requests, append_nil] at hServable ⊢
    split
    · rename_i hNone
      rw [append_nil, serve_of_idle hIdle]
      exact ⟨_, _, rfl, h, iff_of_false (invalidArgument_ne_ok _) (not_not.mpr hNone),
        Forall₂.nil⟩
    · rename_i hPos
      rw [if_neg hPos] at hServable
      obtain ⟨s', taken, hFlush, hStands, hDelivers⟩ := flushUnlocked_serves shape
        (request_stands h context (not_le.mp hPos)) hServable
      refine ⟨s', ⟨.ok, taken⟩, ?_, hStands, iff_of_true rfl hPos, hDelivers⟩
      simp only [hFlush, bind_eq_bind, bind_some]

omit [Div T] [NatCast T] in
theorem step_idle (h : Stands s ledger) (op : Op T) : (ledger.step shape op).1.Idle := by
  apply serve_idle
  intro attempt hMem
  rcases mem_append.mp hMem with hOld | hNew
  · exact h.positive attempt hOld
  · cases op with
    | applyGrad localStep grad => cases hNew
    | setGlobalStep newGlobalStep => cases hNew
    | takeGrad context numRequired =>
      rw [Ledger.requests] at hNew
      split at hNew
      · cases hNew
      · rename_i hPos
        rw [mem_singleton.mp hNew]
        exact not_le.mp hPos

theorem run_follows (hIncreasing : ∀ op ∈ ops, op.Increasing) (h : Stands s ledger)
    (hIdle : ledger.Idle) (hFits : RunFits shape ledger ops) :
    ∃ s' effects, run shape s ops = some (s', effects) ∧ Follows shape ledger ops effects := by
  induction ops generalizing s ledger with
  | nil => exact ⟨s, [], rfl, rfl⟩
  | cons op ops ih =>
    rw [forall_mem_cons] at hIncreasing
    obtain ⟨s₁, effect, hStep, h₁, hStatus, hDelivers⟩ :=
      step_follows h hIdle hIncreasing.1 hFits.1
    obtain ⟨s', effects, hRun, hFollows⟩ := ih hIncreasing.2 h₁ (step_idle h op) hFits.2
    refine ⟨s', effect :: effects, ?_, effect, effects, rfl, hStatus, hDelivers, hFollows⟩
    rw [run, hStep]
    simp only [bind_eq_bind, bind_some, hRun]

/-- The accumulator averages in every run whose operations meet the condition. -/
theorem sparseAccumulator_averages (shape : Shape) (ops : List (Op T))
    (hIncreasing : ∀ op ∈ ops, op.Increasing) (hFits : RunFits shape .initial ops) :
    Averages shape ops := by
  obtain ⟨s, effects, hRun, hFollows⟩ :=
    run_follows hIncreasing initial_stands initial_idle hFits
  exact ⟨s, effects, hRun, hFollows, (Ledger.counted_append_pending .initial ops).symm⟩

end Steps

def gradientOf (inner indices : List Nat) (rows : List (List ℚ))
    (hRows : ∀ row ∈ rows, row.length = inner.prod) : Gradient ℚ where
  indicesShape := [indices.length]
  indices := indices.map Int.ofNat
  length_indices := by simp
  values := some ⟨inner, rows, hRows⟩
  shape := none

def rowsOf (indices : List Nat) (rows : List (ℚ × ℚ)) : Gradient ℚ :=
  gradientOf [2] indices (rows.map fun row => [row.1, row.2]) fun row hRow => by
    obtain ⟨pair, -, rfl⟩ := mem_map.mp hRow
    rfl

/-- Two calls, and between the gradients a stale one and an empty one. -/
def overlapping : List (Op ℚ) :=
  [.setGlobalStep 3, .takeGrad 7 3, .takeGrad 8 1, .applyGrad 2 (rowsOf [1] [(9, 9)]),
    .applyGrad 3 (rowsOf [0, 2] [(1, 2), (3, 4)]), .applyGrad 5 (rowsOf [] []),
    .applyGrad 3 (rowsOf [2, 3] [(5, 8), (6, 7)]), .applyGrad 3 (rowsOf [0] [(1, 1)]),
    .applyGrad 4 (rowsOf [0] [(1, 1)])]

theorem sparseAccumulator_averages_overlapping : Averages (some [some 4, none]) overlapping :=
  sparseAccumulator_averages _ _
    (by simp [overlapping, Op.Increasing, rowsOf, gradientOf]) (by decide)

def scalarOf (indices : List Nat) (values : List ℚ) : Gradient ℚ :=
  gradientOf [] indices (values.map fun value => [value]) (by simp)

def emptyLast : List (Op ℚ) :=
  [.applyGrad 0 (scalarOf [0] [1]), .applyGrad 0 (scalarOf [] []), .takeGrad 7 2]

/-- The row of the index `0` is not copied when the empty gradient is added. -/
theorem emptyLast_run : run none .initial emptyLast =
    some (⟨0, 1, [], [0], [1], [], [[none]]⟩,
      [⟨.ok, []⟩, ⟨.ok, []⟩, ⟨.ok, [⟨⟨7, 2⟩, [0], [], [[none]], [-1]⟩]⟩]) := by
  have hFirst : step none .initial (.applyGrad 0 (scalarOf [0] [1])) =
      some (⟨1, 0, [], [0], [1], [], [[some 1]]⟩, ⟨.ok, []⟩) := rfl
  have hEmpty : ∃ g : IndexedSlices ℚ, g.indices = [] ∧ g.inner = [] ∧
      getAndValidateTensorInputForApplyGrad none ⟨1, 0, [], [0], [1], [], [[some 1]]⟩
        (scalarOf [] []) = .ok g := ⟨_, rfl, rfl, rfl⟩
  have hSecond : step none ⟨1, 0, [], [0], [1], [], [[some 1]]⟩ (.applyGrad 0 (scalarOf [] [])) =
      some (⟨2, 0, [], [0], [1], [], [[none]]⟩, ⟨.ok, []⟩) := by
    obtain ⟨g, hIndices, hInner, hValid⟩ := hEmpty
    have hEntries : entriesToCopy ⟨1, 0, [], [0], [1], [], [[some 1]]⟩ g = [.first 0] := by
      simp [entriesToCopy, hIndices, SortedMerge.merge]
    have hAdded : addToAccumGrad ⟨1, 0, [], [0], [1], [], [[some 1]]⟩ g =
        some ⟨1, 0, [], [0], [1], [], [[none]]⟩ := by
      rw [addToAccumGrad, hEntries, hInner]
      simp only [map_cons, map_nil, sumRow, hEntries, hIndices, hInner]
      rfl
    rw [step, tryApplyGrad, applyLocked, if_pos (le_refl 0), hValid]
    dsimp only
    rw [addGradient, if_pos Nat.one_pos, hAdded]
    rfl
  have hThird : step none ⟨2, 0, [], [0], [1], [], [[none]]⟩ (.takeGrad 7 2 : Op ℚ) =
      some (⟨0, 1, [], [0], [1], [], [[none]]⟩, ⟨.ok, [⟨⟨7, 2⟩, [0], [], [[none]], [-1]⟩]⟩) := rfl
  simp only [run, emptyLast, hFirst, hSecond, hThird, bind_eq_bind, bind_some]

/-- The average of the run would be `1`. -/
theorem emptyLast_not_averages : ¬ Averages none emptyLast := by
  rintro ⟨s, effects, hRun, hFollows, -⟩
  rw [emptyLast_run] at hRun
  cases hRun
  obtain ⟨_, _, hFirst, -, -, hFollows⟩ := hFollows
  cases hFirst
  obtain ⟨_, _, hSecond, -, -, hFollows⟩ := hFollows
  cases hSecond
  obtain ⟨_, _, hThird, -, hDelivers, -⟩ := hFollows
  cases hThird
  obtain ⟨⟨-, hAverage⟩, -⟩ := forall₂_cons.mp hDelivers
  cases hAverage.rows

end TensorFlowOnSpark.Kernels.SparseAccumulator
