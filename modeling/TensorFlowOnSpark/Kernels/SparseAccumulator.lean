import Mathlib.Algebra.BigOperators.Group.List.Basic
import TensorFlowOnSpark.Framework.ShapeInference
import TensorFlowOnSpark.Framework.TensorShapeMutators
import TensorFlowOnSpark.Lib.SortedMerge
import Mathlib.Data.List.Dedup
import Mathlib.Data.List.GetD
import Mathlib.Data.List.Infix

/-!
# The sparse accumulator

`SparseConditionalAccumulator` of `kernels/sparse_conditional_accumulator.h` with its two
base classes, when no allocation fails and no call is cancelled.
-/

namespace TensorFlowOnSpark.Kernels.SparseAccumulator

open Framework SortedMerge List

/-- `inner` are the dimensions of a slice. -/
structure Values (T : Type) where
  inner : List Nat
  rows : List (List T)
  length_row : ∀ row ∈ rows, row.length = inner.prod

structure IndexedSlices (T : Type) extends Values T where
  indices : List Int
  length_rows : rows.length = indices.length

/-- The inputs of `ApplyGrad`: `values` is `none` for a scalar, and there is a `shape` when the
attribute `has_known_shape` is set. -/
structure Gradient (T : Type) where
  indicesShape : List Nat
  indices : List Int
  length_indices : indices.length = indicesShape.prod
  values : Option (Values T)
  shape : Option (List Int)

/-- A call of `TakeGrad` that waits. -/
structure Attempt where
  context : Nat
  elementsRequested : Int

/-- The outputs of a call of `TakeGrad` that is done. -/
structure Taken (T : Type) where
  attempt : Attempt
  indices : List Int
  inner : List Nat
  rows : List (List (Option T))
  shape : List Int

/-- `accumInner` and `accumRows` are `accum_val_`; a value is `none` before it is written. -/
structure State (T : Type) where
  counter : Nat
  currentGlobalStep : Int
  attempts : List Attempt
  accumIdx : List Int
  countElement : List Nat
  accumInner : List Nat
  accumRows : List (List (Option T))

def State.initial {T : Type} : State T := ⟨0, 0, [], [], [], [], []⟩

def intMax : Nat := 2 ^ 31 - 1

section Model

variable {T : Type} (shape : Shape)

def checkAll (n : Nat) (check : Nat → Option Status) : Except Status Unit :=
  match (range n).findSome? check with
  | some status => .error status
  | none => .ok ()

/-- The sizes of the dimensions, `-1` for an unknown one. -/
def dimSize (dims : List Dim) (i : Nat) : Int := ((dims.getD i none).map Int.ofNat).getD (-1)

/-- The comparison with the shape that `has_known_shape` announces. -/
def checkGradientShape : Option (List Int) → Except Status Unit
  | none => .ok ()
  | some gradShape =>
    if (gradShape.length : Int) < shape.rank then
      .error (Errors.invalidArgument
        s!"Shape mismatch: expected shape rank at least {shape.rank}, got {gradShape.length}")
    else
      let dims := shape.getD []
      checkAll dims.length fun i =>
        if dimSize dims i ≠ -1 ∧ dimSize dims i ≠ gradShape.getD i 0 then
          some (Errors.invalidArgument
            (s!"Shape mismatch: expected shape dim {i} to be {dimSize dims i}, " ++
              s!"got {gradShape.getD i 0}"))
        else none

def checkIndices (indices : List Int) : Except Status Unit :=
  let dims := shape.getD []
  if 0 < dims.length ∧ dimSize dims 0 ≠ -1 then
    checkAll indices.length fun i =>
      if dimSize dims 0 ≤ indices.getD i 0 then
        some (Errors.invalidArgument
          (s!"Shape mismatch: index of slice {i} exceeded limits of shape; index is " ++
            s!"{indices.getD i 0} exceeded {dimSize dims 0}"))
      else none
  else .ok ()

def checkAccumulated (s : State T) (inner : List Nat) : Except Status Unit :=
  if s.accumInner.length ≠ inner.length then
    .error (Errors.invalidArgument
      (s!"Shape mismatch: expected values rank {s.accumInner.length + 1}, " ++
        s!"got {inner.length + 1}"))
  else
    checkAll inner.length fun i =>
      if s.accumInner.getD i 0 ≠ inner.getD i 0 then
        some (Errors.invalidArgument
          (s!"Shape mismatch: expected values dim {i + 1} to be {s.accumInner.getD i 0}, " ++
            s!"got {inner.getD i 0}"))
      else none

def checkFirst (inner : List Nat) : Except Status Unit :=
  if (inner.length + 1 : Int) < shape.rank then
    .error (Errors.invalidArgument
      s!"Shape mismatch: expected values rank at least {shape.rank}, got {inner.length + 1}")
  else
    let dims := (shape.getD []).drop 1
    checkAll dims.length fun i =>
      if dimSize dims i ≠ -1 ∧ dimSize dims i ≠ inner.getD i 0 then
        some (Errors.invalidArgument
          (s!"Shape mismatch: expected values dim {i + 1} to be {dimSize dims i}, " ++
            s!"got {inner.getD i 0}"))
      else none

def validateShape (s : State T) (grad : IndexedSlices T) (gradShape : Option (List Int)) :
    Except Status Unit := do
  checkGradientShape shape gradShape
  checkIndices shape grad.indices
  if s.counter > 0 then checkAccumulated s grad.inner else checkFirst shape grad.inner

def getAndValidateTensorInputForApplyGrad (s : State T) (grad : Gradient T) :
    Except Status (IndexedSlices T) :=
  if grad.indicesShape.length ≠ 1 then
    .error (Errors.invalidArgument
      ("Input indices should be vector but received shape: " ++ debugString grad.indicesShape))
  else
    match grad.values with
    | none => .error (Errors.invalidArgument "Values cannot be 0-dimensional.")
    | some values =>
      if h : values.rows.length = grad.indices.length then do
        let tensor : IndexedSlices T := ⟨values, grad.indices, h⟩
        validateShape shape s tensor grad.shape
        .ok tensor
      else
        .error (Errors.invalidArgument
          (s!"Expected {grad.indices.length} non-empty input values, " ++
            s!"got {values.rows.length}"))

def allocateAndAssignToAccumGrad (s : State T) (grad : IndexedSlices T) : Option (State T) :=
  -- `int i` counts the indices.
  if intMax < grad.indices.length then none
  else
    some { s with
      accumIdx := grad.indices
      countElement := replicate grad.indices.length 1
      accumInner := grad.inner
      accumRows := grad.rows.map (·.map some) }

/-- The second dimension of `flat_outer_dims`. -/
def flatColumns (rows : Nat) (inner : List Nat) : Nat :=
  if inner.length = 1 then inner.getD 0 0
  else if rows ≠ 0 then rows * inner.prod / rows
  else 0

/-- A row of `sum_flat` with `width` values after `columns` of them are assigned. -/
def assignSlice (columns width : Nat) (slice : List (Option T)) : List (Option T) :=
  slice.take columns ++ replicate (width - columns) none

section Add

variable [Add T] (s : State T) (grad : IndexedSlices T)

def entriesToCopy : List Source := merge 0 0 s.accumIdx grad.indices

def sumIndex : Source → Int
  | .first i => s.accumIdx.getD i 0
  | .both i _ => s.accumIdx.getD i 0
  | .second j => grad.indices.getD j 0

def sumCount : Source → Nat
  | .first i => s.countElement.getD i 0
  | .both i _ => s.countElement.getD i 0 + 1
  | .second _ => 1

def gradSlice (j : Nat) : List (Option T) := (grad.rows.getD j []).map some

def sumSlice : Source → List (Option T)
  | .first i => s.accumRows.getD i []
  | .both i j => zipWith (Option.map₂ (· + ·)) (gradSlice grad j) (s.accumRows.getD i [])
  | .second j => gradSlice grad j

def sumRow (e : Source) : List (Option T) :=
  -- The slices are as wide as the rows of the new gradient.
  assignSlice (flatColumns grad.indices.length grad.inner)
    (flatColumns (entriesToCopy s grad).length grad.inner) (sumSlice s grad e)

def addToAccumGrad : Option (State T) :=
  let entries := entriesToCopy s grad
  -- `set_dim` counts the elements of the sum.
  match TensorShape.recomputeLoop 1 ((entries.length :: grad.inner).map Int64.ofNat) with
  | none => none
  | some _ =>
    some { s with
      accumIdx := entries.map (sumIndex s grad)
      countElement := entries.map (sumCount s)
      accumInner := grad.inner
      accumRows := entries.map (sumRow s grad) }

end Add

variable [AddCommMonoid T] [Div T] [NatCast T]

def divideAccumGradByCounter (s : State T) : State T :=
  { s with
    accumRows :=
      zipWith (fun row count => row.map (Option.map (· / (count : T)))) s.accumRows
        s.countElement }

def setOutput (s : State T) (attempt : Attempt) : Option (Taken T) :=
  -- `int i` counts the indices.
  if intMax < s.accumIdx.length then none
  else
    let dims := shape.getD []
    some ⟨attempt, s.accumIdx, s.accumInner, s.accumRows,
      (if 0 < dims.length then dimSize dims 0 else -1) :: s.accumInner.map Int.ofNat⟩

def takeGradLockedHelper (s : State T) (attempt : Attempt) : Option (State T × Taken T) :=
  if 2 ^ 63 - 1 ≤ s.currentGlobalStep then none
  else do
    let s := { s with currentGlobalStep := s.currentGlobalStep + 1 }
    let s := divideAccumGradByCounter s
    let taken ← setOutput shape s attempt
    some ({ s with counter := 0 }, taken)

/-- The loop of `TryAttemptLocked` over the attempts. -/
def tryAttemptLocked : List Attempt → State T → Option (State T × List (Taken T))
  | [], s => some ({ s with attempts := [] }, [])
  | attempt :: rest, s =>
    if (s.counter : Int) ≥ attempt.elementsRequested then do
      let (s, taken) ← takeGradLockedHelper shape s attempt
      let (s, more) ← tryAttemptLocked rest s
      some (s, taken :: more)
    else some ({ s with attempts := attempt :: rest }, [])

/-- The loop of `FlushUnlocked`: a turn that makes progress takes an attempt away. -/
def flushLoop : Nat → State T → Option (State T × List (Taken T))
  | 0, s => some (s, [])
  | turns + 1, s => do
    let (s, taken) ← tryAttemptLocked shape s.attempts s
    if taken.length = 0 then some (s, [])
    else
      let (s, more) ← flushLoop turns s
      some (s, taken ++ more)

def flushUnlocked (s : State T) : Option (State T × List (Taken T)) :=
  flushLoop shape (s.attempts.length + 1) s

inductive Op (T : Type) where
  | applyGrad (localStep : Int) (grad : Gradient T)
  | setGlobalStep (newGlobalStep : Int)
  | takeGrad (context : Nat) (numRequired : Int)

/-- What an operation reports: its own status, and the calls of `TakeGrad` that it completes. -/
structure Effect (T : Type) where
  status : Status
  taken : List (Taken T)

def addGradient (s : State T) (grad : IndexedSlices T) : Option (State T) := do
  let s ← if s.counter > 0 then addToAccumGrad s grad else allocateAndAssignToAccumGrad s grad
  if intMax ≤ s.counter then none else some { s with counter := s.counter + 1 }

/-- The part of `TryApplyGrad` under the lock. -/
def applyLocked (s : State T) (localStep : Int) (grad : Gradient T) :
    Option (State T × Status) :=
  if localStep ≥ s.currentGlobalStep then
    match getAndValidateTensorInputForApplyGrad shape s grad with
    | .error status => some (s, status)
    | .ok tensor => do
      let s ← addGradient s tensor
      some (s, .ok)
  else some (s, .ok)

def tryApplyGrad (s : State T) (localStep : Int) (grad : Gradient T) :
    Option (State T × Effect T) := do
  let (s, status) ← applyLocked shape s localStep grad
  let (s, taken) ← flushUnlocked shape s
  some (s, ⟨status, taken⟩)

def tryTakeGrad (s : State T) (context : Nat) (numRequired : Int) :
    Option (State T × Effect T) :=
  if numRequired ≤ 0 then
    some (s, ⟨Errors.invalidArgument
      s!"Argument num_required must be positive, but was {numRequired}", []⟩)
  else do
    let s := { s with attempts := s.attempts ++ [⟨context, numRequired⟩] }
    let (s, taken) ← flushUnlocked shape s
    some (s, ⟨.ok, taken⟩)

def step (s : State T) : Op T → Option (State T × Effect T)
  | .applyGrad localStep grad => tryApplyGrad shape s localStep grad
  | .setGlobalStep newGlobalStep =>
    some ({ s with currentGlobalStep := newGlobalStep }, ⟨.ok, []⟩)
  | .takeGrad context numRequired => tryTakeGrad shape s context numRequired

def run (s : State T) : List (Op T) → Option (State T × List (Effect T))
  | [] => some (s, [])
  | op :: ops => do
    let (s, effect) ← step shape s op
    let (s, effects) ← run s ops
    some (s, effect :: effects)

end Model

variable {T : Type} [AddCommMonoid T]

def rowAt (g : IndexedSlices T) (i : Int) : List T := g.rows.getD (g.indices.idxOf i) []

def containing (i : Int) (gs : List (IndexedSlices T)) : List (IndexedSlices T) :=
  gs.filter fun g => i ∈ g.indices

def total (columns : Nat) (i : Int) (gs : List (IndexedSlices T)) : List T :=
  (range columns).map fun c => ((containing i gs).map fun g => (rowAt g i).getD c 0).sum

omit [AddCommMonoid T] in
theorem rowAt_eq {g : IndexedSlices T} (hIncreasing : g.indices.Pairwise (· < ·)) {i : Int}
    {j : Nat} (h : g.indices[j]? = some i) : g.rows.getD j [] = rowAt g i := by
  obtain ⟨hj, hGet⟩ := List.getElem?_eq_some_iff.mp h
  have hNodup : g.indices.Nodup := hIncreasing.imp fun hLess => ne_of_lt hLess
  rw [rowAt, ← hGet, hNodup.idxOf_getElem]

omit [AddCommMonoid T] in
theorem length_rowAt {g : IndexedSlices T} {i : Int} (h : i ∈ g.indices) :
    (rowAt g i).length = g.inner.prod := by
  have hj : g.indices.idxOf i < g.rows.length := by
    rw [g.length_rows]
    exact idxOf_lt_length_of_mem h
  rw [rowAt, getD_eq_getElem _ _ hj]
  exact g.length_row _ (getElem_mem hj)

omit [AddCommMonoid T] in
theorem containing_single (i : Int) (g : IndexedSlices T) :
    containing i [g] = if i ∈ g.indices then [g] else [] := by
  rw [containing, filter_singleton, Bool.cond_decide]

omit [AddCommMonoid T] in
theorem containing_append (i : Int) (gs : List (IndexedSlices T)) (g : IndexedSlices T) :
    containing i (gs ++ [g]) = containing i gs ++ containing i [g] :=
  filter_append _ _

variable {g : IndexedSlices T} {i : Int}

theorem total_single (h : i ∈ g.indices) : total g.inner.prod i [g] = rowAt g i := by
  have hContaining : containing i [g] = [g] := by
    rw [containing_single, if_pos h]
  apply ext_getElem
  · rw [total, length_map, length_range, length_rowAt h]
  · intro c hc hc'
    simp only [total, hContaining, getElem_map, getElem_range, map_cons,
      map_nil, sum_cons, sum_nil, add_zero]
    exact getD_eq_getElem _ _ hc'

theorem total_append (h : i ∈ g.indices) (gs : List (IndexedSlices T)) :
    total g.inner.prod i (gs ++ [g]) =
      zipWith (· + ·) (rowAt g i) (total g.inner.prod i gs) := by
  apply ext_getElem
  · simp [total, length_rowAt h]
  · intro c hc hc'
    have hColumn : c < (rowAt g i).length := by
      rw [length_zipWith] at hc'
      exact Nat.lt_of_lt_of_le hc' (Nat.min_le_left _ _)
    simp only [total, containing_append, containing_single, if_pos h, getElem_map, getElem_range,
      getElem_zipWith, map_append, map_cons, map_nil, sum_append,
      sum_cons, sum_nil, add_zero, getD_eq_getElem _ _ hColumn]
    exact add_comm _ _

theorem total_append_of_notMem (h : i ∉ g.indices) (columns : Nat) (gs : List (IndexedSlices T)) :
    total columns i (gs ++ [g]) = total columns i gs := by
  simp only [total, containing_append, containing_single, if_neg h, append_nil]

structure Sum (s : State T) (gs : List (IndexedSlices T)) : Prop where
  increasing : s.accumIdx.Pairwise (· < ·)
  mem_accumIdx (i : Int) : i ∈ s.accumIdx ↔ ∃ g ∈ gs, i ∈ g.indices
  inner : ∀ g ∈ gs, g.inner = s.accumInner
  countElement : s.countElement = s.accumIdx.map fun i => (containing i gs).length
  accumRows : s.accumRows = s.accumIdx.map fun i => (total s.accumInner.prod i gs).map some

def distinct (gs : List (IndexedSlices T)) : List Int := (gs.flatMap (·.indices)).dedup

omit [AddCommMonoid T] in
theorem length_distinct {gs : List (IndexedSlices T)} {is : List Int}
    (hIncreasing : is.Pairwise (· < ·)) (h : ∀ i, i ∈ is ↔ ∃ g ∈ gs, i ∈ g.indices) :
    is.length = (distinct gs).length := by
  have hNodup : is.Nodup := hIncreasing.imp fun hLess => ne_of_lt hLess
  apply Perm.length_eq
  apply (perm_ext_iff_of_nodup hNodup (nodup_dedup _)).mpr
  intro i
  rw [h, mem_dedup, mem_flatMap]

/-- The conditions under which a gradient can be added to those that are accumulated: nothing
overflows, no `CHECK` fails and the slices of the sum are all written. -/
structure Addable (gs : List (IndexedSlices T)) (g : IndexedSlices T) : Prop where
  counter : gs.length < intMax
  first : gs = [] → g.indices.length ≤ intMax
  sizes : gs ≠ [] → ∀ pre ∈ ((distinct (gs ++ [g])).length :: g.inner).inits, pre.prod ≤ 2 ^ 40
  written : g.indices = [] → g.inner.length = 1 ∨ g.inner.prod = 0 ∨ ∀ g' ∈ gs, g'.indices = []

instance (gs : List (IndexedSlices T)) (g : IndexedSlices T) : Decidable (Addable gs g) :=
  decidable_of_iff (gs.length < intMax ∧ (gs = [] → g.indices.length ≤ intMax) ∧
    (gs ≠ [] → ∀ pre ∈ ((distinct (gs ++ [g])).length :: g.inner).inits, pre.prod ≤ 2 ^ 40) ∧
    (g.indices = [] →
      g.inner.length = 1 ∨ g.inner.prod = 0 ∨ ∀ g' ∈ gs, g'.indices = []))
    ⟨fun ⟨hCounter, hFirst, hSizes, hWritten⟩ => ⟨hCounter, hFirst, hSizes, hWritten⟩,
      fun ⟨hCounter, hFirst, hSizes, hWritten⟩ => ⟨hCounter, hFirst, hSizes, hWritten⟩⟩

theorem allocateAndAssignToAccumGrad_sum (s : State T) (hIncreasing : g.indices.Pairwise (· < ·))
    (hFew : g.indices.length ≤ intMax) :
    ∃ s', allocateAndAssignToAccumGrad s g = some s' ∧ Sum s' [g] ∧ s'.counter = s.counter ∧
      s'.currentGlobalStep = s.currentGlobalStep ∧ s'.attempts = s.attempts := by
  rw [allocateAndAssignToAccumGrad, if_neg (not_lt.mpr hFew)]
  refine ⟨_, rfl, ?_, rfl, rfl, rfl⟩
  constructor
  · exact hIncreasing
  · intro i
    simp
  · intro g' hg'
    rw [mem_singleton.mp hg']
  · apply ext_getElem
    · rw [length_replicate, length_map]
    · intro j hj hj'
      rw [length_map] at hj'
      rw [getElem_replicate, getElem_map, containing_single, if_pos (getElem_mem hj')]
      rfl
  · apply ext_getElem
    · rw [length_map, length_map, g.length_rows]
    · intro j hj hj'
      rw [length_map] at hj hj'
      have hRow := rowAt_eq hIncreasing (getElem?_eq_getElem hj')
      rw [getElem_map, getElem_map]
      rw [total_single (getElem_mem hj'), ← hRow, getD_eq_getElem _ _ hj]

theorem recomputeLoop_isSome {dims : List Nat} {n : Nat}
    (h : ∀ pre ∈ dims.inits, n * pre.prod ≤ 2 ^ 40) :
    (TensorShape.recomputeLoop (.ofNat n) (dims.map Int64.ofNat)).isSome := by
  induction dims generalizing n with
  | nil => rfl
  | cons d dims ih =>
    have hNext : ∀ pre ∈ dims.inits, n * d * pre.prod ≤ 2 ^ 40 := by
      intro pre hPre
      have hPrefix : d :: pre <+: d :: dims :=
        cons_prefix_cons.mpr ⟨rfl, (mem_inits _ _).mp hPre⟩
      have hLonger := h (d :: pre) ((mem_inits _ _).mpr hPrefix)
      rw [prod_cons, ← mul_assoc] at hLonger
      exact hLonger
    have hSmall : n * d ≤ 2 ^ 40 := by simpa using hNext [] ((mem_inits _ _).mpr nil_prefix)
    have hInt : (Int64.ofNat (n * d)).toInt = (n * d : Nat) :=
      Int64.toInt_ofNat_of_lt (lt_of_le_of_lt hSmall (by decide))
    have hChecked : TensorShape.CheckedProduct (.ofNat n * .ofNat d) := by
      rw [← Int64.ofNat_mul, TensorShape.CheckedProduct, Int64.le_iff_toInt_le,
        Int64.le_iff_toInt_le, hInt]
      exact ⟨Int.natCast_nonneg _, Int.ofNat_le.mpr hSmall⟩
    rw [map_cons, TensorShape.recomputeLoop, if_pos hChecked, ← Int64.ofNat_mul]
    exact ih hNext

theorem flatColumns_eq {rows : Nat} {inner : List Nat}
    (h : rows ≠ 0 ∨ inner.length = 1 ∨ inner.prod = 0) : flatColumns rows inner = inner.prod := by
  rw [flatColumns]
  split
  · rename_i hOne
    obtain ⟨n, rfl⟩ := length_eq_one_iff.mp hOne
    simp
  · rename_i hNot
    split
    · rename_i hRows
      exact Nat.mul_div_cancel_left _ (Nat.pos_of_ne_zero hRows)
    · rename_i hNone
      exact ((h.resolve_left hNone).resolve_left hNot).symm

omit [AddCommMonoid T] in
theorem assignSlice_all {n : Nat} {slice : List (Option T)} (h : slice.length = n) :
    assignSlice n n slice = slice := by
  rw [assignSlice, ← h, take_length, Nat.sub_self, replicate_zero, append_nil]

section Add

variable {s : State T} {gs : List (IndexedSlices T)} {g : IndexedSlices T}

omit [AddCommMonoid T] in
theorem getD_map_of_getElem? {α β : Type} {l : List α} {k : Nat} {x : α} (f : α → β)
    (h : l[k]? = some x) (d : β) : (l.map f).getD k d = f x := by
  rw [getD_eq_getElem?_getD, getElem?_map, h]
  rfl

theorem zipWith_some (as bs : List T) :
    zipWith (Option.map₂ (· + ·)) (as.map some) (bs.map some) =
      (zipWith (· + ·) as bs).map some := by
  rw [zipWith_map, map_zipWith]
  rfl

/-- An entry of the sum has the index, the count and the slice that it should have. -/
theorem entry_sum (h : Sum s gs) (hIncreasing : g.indices.Pairwise (· < ·))
    (hInner : g.inner = s.accumInner) {e : Source} {i : Int}
    (hEntry : e.At s.accumIdx g.indices i) :
    sumIndex s g e = i ∧ sumCount s e = (containing i (gs ++ [g])).length ∧
      sumSlice s g e = (total g.inner.prod i (gs ++ [g])).map some := by
  cases e with
  | first k =>
    obtain ⟨hGet, hNot⟩ := hEntry
    refine ⟨?_, ?_, ?_⟩
    · rw [sumIndex, getD_eq_getElem?_getD, hGet]
      rfl
    · rw [sumCount, h.countElement, getD_map_of_getElem? _ hGet, containing_append,
        containing_single, if_neg hNot, append_nil]
    · rw [sumSlice, h.accumRows, getD_map_of_getElem? _ hGet, total_append_of_notMem hNot, hInner]
  | both k j =>
    obtain ⟨hGet, hGet'⟩ := hEntry
    have hMem := mem_of_getElem? hGet'
    refine ⟨?_, ?_, ?_⟩
    · rw [sumIndex, getD_eq_getElem?_getD, hGet]
      rfl
    · rw [sumCount, h.countElement, getD_map_of_getElem? _ hGet, containing_append,
        containing_single, if_pos hMem, length_append]
      rfl
    · rw [sumSlice, gradSlice, h.accumRows, getD_map_of_getElem? _ hGet, zipWith_some,
        total_append hMem, rowAt_eq hIncreasing hGet', hInner]
  | second j =>
    obtain ⟨hGet, hNot⟩ := hEntry
    have hMem := mem_of_getElem? hGet
    have hNone : containing i gs = [] := by
      rw [containing, filter_eq_nil_iff]
      intro g' hg' hi
      exact hNot ((h.mem_accumIdx i).mpr ⟨g', hg', of_decide_eq_true hi⟩)
    refine ⟨?_, ?_, ?_⟩
    · rw [sumIndex, getD_eq_getElem?_getD, hGet]
      rfl
    · rw [containing_append, containing_single, if_pos hMem, hNone]
      rfl
    · have hSingle : total g.inner.prod i (gs ++ [g]) = total g.inner.prod i [g] := by
        simp only [total, containing_append, hNone, nil_append]
      rw [sumSlice, gradSlice, hSingle, total_single hMem, rowAt_eq hIncreasing hGet]

theorem map_of_forall₂ {α β γ : Type} {R : α → β → Prop} {f : α → γ} {f' : β → γ} {as : List α}
    {bs : List β} (h : Forall₂ R as bs) (hR : ∀ a, ∀ b ∈ bs, R a b → f a = f' b) :
    as.map f = bs.map f' := by
  induction h with
  | nil => rfl
  | cons hHead _ ih =>
    rw [map_cons, map_cons, hR _ _ mem_cons_self hHead,
      ih fun a b hMem => hR a b (mem_cons_of_mem _ hMem)]

theorem mem_union_accumIdx (h : Sum s gs) (i : Int) :
    i ∈ union s.accumIdx g.indices ↔ ∃ g' ∈ gs ++ [g], i ∈ g'.indices := by
  rw [mem_union, h.mem_accumIdx]
  simp only [mem_append, mem_singleton]
  constructor
  · rintro (⟨g', hg', hi⟩ | hi)
    · exact ⟨g', Or.inl hg', hi⟩
    · exact ⟨g, Or.inr rfl, hi⟩
  · rintro ⟨g', hg' | rfl, hi⟩
    · exact Or.inl ⟨g', hg', hi⟩
    · exact Or.inr hi

theorem length_entriesToCopy (h : Sum s gs) (hIncreasing : g.indices.Pairwise (· < ·)) :
    (entriesToCopy s g).length = (distinct (gs ++ [g])).length :=
  (merge_all h.increasing hIncreasing).length_eq.trans
    (length_distinct (pairwise_union h.increasing hIncreasing) (mem_union_accumIdx h))

/-- A row of the sum is all of its slice. -/
theorem sumRow_eq (h : Sum s gs) (hIncreasing : g.indices.Pairwise (· < ·))
    (hInner : g.inner = s.accumInner) (hAdd : Addable gs g) {e : Source} {i : Int}
    (hEntry : e.At s.accumIdx g.indices i) (hMem : i ∈ union s.accumIdx g.indices) :
    sumRow s g e = (total g.inner.prod i (gs ++ [g])).map some := by
  have hSome : (entriesToCopy s g).length ≠ 0 := by
    rw [entriesToCopy, (merge_all h.increasing hIncreasing).length_eq]
    exact (length_pos_of_mem hMem).ne'
  have hColumns : g.indices.length ≠ 0 ∨ g.inner.length = 1 ∨ g.inner.prod = 0 := by
    rcases eq_or_ne g.indices [] with hNone | hNot
    · rcases hAdd.written hNone with hOne | hZero | hAll
      · exact Or.inr (Or.inl hOne)
      · exact Or.inr (Or.inr hZero)
      · obtain ⟨g', hg', hi⟩ := (mem_union_accumIdx h i).mp hMem
        rcases mem_append.mp hg' with hOld | hNew
        · rw [hAll g' hOld] at hi
          cases hi
        · rw [mem_singleton.mp hNew, hNone] at hi
          cases hi
    · exact Or.inl fun hZero => hNot (length_eq_zero_iff.mp hZero)
  rw [sumRow, flatColumns_eq (Or.inl hSome), flatColumns_eq hColumns,
    (entry_sum h hIncreasing hInner hEntry).2.2]
  apply assignSlice_all
  rw [length_map, total, length_map, length_range]

theorem addToAccumGrad_sum (h : Sum s gs) (hIncreasing : g.indices.Pairwise (· < ·))
    (hInner : g.inner = s.accumInner) (hNonempty : gs ≠ []) (hAdd : Addable gs g) :
    ∃ s', addToAccumGrad s g = some s' ∧ Sum s' (gs ++ [g]) ∧ s'.counter = s.counter ∧
      s'.currentGlobalStep = s.currentGlobalStep ∧ s'.attempts = s.attempts := by
  have hSizes : ∀ pre ∈ ((entriesToCopy s g).length :: g.inner).inits, 1 * pre.prod ≤ 2 ^ 40 := by
    intro pre hPre
    rw [length_entriesToCopy h hIncreasing] at hPre
    rw [one_mul]
    exact hAdd.sizes hNonempty pre hPre
  obtain ⟨n, (hLoop : TensorShape.recomputeLoop 1 _ = some n)⟩ :=
    Option.isSome_iff_exists.mp (recomputeLoop_isSome hSizes)
  have hEntries : Forall₂ (fun e i => e.At s.accumIdx g.indices i) (entriesToCopy s g)
      (union s.accumIdx g.indices) := merge_all h.increasing hIncreasing
  have hIndices : (entriesToCopy s g).map (sumIndex s g) = union s.accumIdx g.indices := by
    have hMap : (entriesToCopy s g).map (sumIndex s g) = (union s.accumIdx g.indices).map id :=
      map_of_forall₂ hEntries fun e i _ hEntry => (entry_sum h hIncreasing hInner hEntry).1
    rwa [map_id] at hMap
  have hAdded : addToAccumGrad s g = some { s with
      accumIdx := (entriesToCopy s g).map (sumIndex s g)
      countElement := (entriesToCopy s g).map (sumCount s)
      accumInner := g.inner
      accumRows := (entriesToCopy s g).map (sumRow s g) } := by
    rw [addToAccumGrad, hLoop]
  rw [hIndices] at hAdded
  refine ⟨_, hAdded, ?_, rfl, rfl, rfl⟩
  constructor
  · exact pairwise_union h.increasing hIncreasing
  · exact mem_union_accumIdx h
  · intro g' hg'
    rcases mem_append.mp hg' with hOld | hNew
    · exact (h.inner g' hOld).trans hInner.symm
    · rw [mem_singleton.mp hNew]
  · exact map_of_forall₂ hEntries fun e i _ hEntry =>
      (entry_sum h hIncreasing hInner hEntry).2.1
  · exact map_of_forall₂ hEntries fun e i hMem hEntry =>
      sumRow_eq h hIncreasing hInner hAdd hEntry hMem

end Add

section Average

variable [Div T] [NatCast T]

/-- What a call of `TakeGrad` should return for the gradients that are counted. -/
structure AverageOf (gs : List (IndexedSlices T)) (taken : Taken T) : Prop where
  increasing : taken.indices.Pairwise (· < ·)
  mem_indices (i : Int) : i ∈ taken.indices ↔ ∃ g ∈ gs, i ∈ g.indices
  inner : ∀ g ∈ gs, g.inner = taken.inner
  rows : taken.rows = taken.indices.map fun i =>
    (range taken.inner.prod).map fun c => some
      (((containing i gs).map fun g => (rowAt g i).getD c 0).sum / ((containing i gs).length : T))

theorem divideAccumGradByCounter_rows {s : State T} {gs : List (IndexedSlices T)} (h : Sum s gs) :
    (divideAccumGradByCounter s).accumRows = s.accumIdx.map fun i =>
      (range s.accumInner.prod).map fun c => some
        (((containing i gs).map fun g => (rowAt g i).getD c 0).sum /
          ((containing i gs).length : T)) := by
  rw [divideAccumGradByCounter, h.accumRows, h.countElement, zipWith_map, zipWith_self]
  simp only [total, map_map]
  rfl

end Average

end TensorFlowOnSpark.Kernels.SparseAccumulator
