import TensorFlowOnSpark.Framework.TensorShapeMutators
import TensorFlowOnSpark.Util.SparseTensor

/-!
# Splitting a sparse tensor

`SparseTensor::Split`.
-/

namespace TensorFlowOnSpark.Sparse

open List Function Nat

variable {α : Type} {entries rank : Nat}

def getSliceIndex (dim : Int) (splitSize residual : Nat) : Option Nat :=
  if 0 < splitSize ∧ 0 ≤ dim then
    if residual = 0 then some (dim.toNat / splitSize)
    else
      let offset := residual * (splitSize + 1)
      if dim.toNat < offset then some (dim.toNat / (splitSize + 1))
      else some (residual + (dim.toNat - offset) / splitSize)
  else none

def getDimensionInSlice (dim : Int) (splitSize residual : Nat) : Option Nat :=
  if 0 < splitSize ∧ 0 ≤ dim then
    if residual = 0 then some (dim.toNat % splitSize)
    else
      let offset := residual * (splitSize + 1)
      if dim.toNat < offset then some (dim.toNat % (splitSize + 1))
      else some ((dim.toNat - offset) % splitSize)
  else none

def getSliceShape (sliceIndex splitSize residual : Nat) : Option Nat :=
  if 0 < splitSize then
    if residual = 0 then some splitSize
    else if sliceIndex < residual then some (splitSize + 1)
    else some splitSize
  else none

/-- `set_dim` of a shape, whose elements are counted again. -/
def setDim (shape : Fin rank → Nat) (d : Fin rank) (size : Nat) : Option (Fin rank → Nat) :=
  let shape' := update shape d size
  match Framework.TensorShape.recomputeLoop 1 ((ofFn shape').map Int64.ofNat) with
  | none => none
  | some _ => some shape'

abbrev Entry (α : Type) (rank : Nat) := Row rank × α

structure Slice (α : Type) (rank : Nat) where
  cells : List (Option (Entry α rank))
  shape : Fin rank → Nat

/-- `output_indices_t` and `output_values_t`, and `values_inserted_in_slice`. -/
structure Filling (α : Type) (rank : Nat) where
  cells : Nat → List (Option (Entry α rank))
  inserted : Nat → Nat

section Loops

variable (splitDim : Fin rank) (splitSize residual numSplit : Nat)

def sliceOf (row : Row rank) : Option Nat :=
  getSliceIndex (toInt (row splitDim)) splitSize residual

def moveRow (row : Row rank) : Option (Row rank) :=
  (getDimensionInSlice (toInt (row splitDim)) splitSize residual).map fun dim : Nat =>
    update row splitDim (dim : Int)

def countLoop : List (Entry α rank) → (Nat → Nat) → Option (Nat → Nat)
  | [], numValues => some numValues
  | entry :: rest, numValues =>
    match sliceOf splitDim splitSize residual entry.1 with
    | none => none
    | some k =>
      if k < numSplit then countLoop rest (update numValues k (numValues k + 1)) else none

def fillLoop : List (Entry α rank) → Filling α rank → Option (Filling α rank)
  | [], s => some s
  | entry :: rest, s =>
    match sliceOf splitDim splitSize residual entry.1,
      moveRow splitDim splitSize residual entry.1 with
    | some k, some row =>
      if k < numSplit ∧ s.inserted k < (s.cells k).length then
        fillLoop rest
          { cells := update s.cells k
              ((s.cells k).set (s.inserted k) (some (row, entry.2)))
            inserted := update s.inserted k (s.inserted k + 1) }
      else none
    | _, _ => none

def sliceShape (shape : Fin rank → Nat) (k : Nat) : Option (Fin rank → Nat) :=
  (getSliceShape k splitSize residual).bind (setDim shape splitDim)

def splitLoops (t : SparseTensor α entries rank) : Option (List (Slice α rank)) :=
  match countLoop splitDim splitSize residual numSplit (ofFn t.entry) fun _ => 0 with
  | none => none
  | some numValues =>
    match (range numSplit).mapM (sliceShape splitDim splitSize residual t.shape) with
    | none => none
    | some shapes =>
      match fillLoop splitDim splitSize residual numSplit (ofFn t.entry)
          ⟨fun k => replicate (numValues k) none, fun _ => 0⟩ with
      | none => none
      | some s =>
        some ((range numSplit).zipWith (fun k shape => ⟨s.cells k, shape⟩) shapes)

end Loops

def split (t : SparseTensor α entries rank) (splitDim numSplit : Int) :
    Option (List (Slice α rank)) :=
  match column splitDim with
  | none => none
  | some d =>
    let splitDimSize := toInt (t.shape d)
    -- The loops count the entries with an `int`.
    if 0 < numSplit ∧ numSplit ≤ splitDimSize ∧ entries < rowLimit then
      let size := splitDimSize.toNat
      splitLoops d (size / numSplit.toNat) (size % numSplit.toNat) numSplit.toNat t
    else none

section Formulas

variable {splitSize residual numSplit : Nat}

def sizeOf (splitSize residual k : Nat) : Nat := if k < residual then splitSize + 1 else splitSize

/-- What the slices before the `k`-th one take up. -/
def preceding (splitSize residual k : Nat) : Nat :=
  ((range k).map (sizeOf splitSize residual)).sum

theorem preceding_eq (splitSize residual k : Nat) :
    preceding splitSize residual k = k * splitSize + min k residual := by
  induction k with
  | zero => simp [preceding]
  | succ k ih =>
    rw [preceding, range_succ, map_append, List.sum_append_nat, ← preceding, map_singleton,
      sum_singleton,
      sizeOf, succ_mul]
    split_ifs <;> omega

theorem getSliceShape_eq (hPos : 0 < splitSize) (k : Nat) :
    getSliceShape k splitSize residual = some (sizeOf splitSize residual k) := by
  rw [getSliceShape, sizeOf]
  split_ifs <;> first | rfl | omega

theorem formulas_agree (hPos : 0 < splitSize) (hResidual : residual < numSplit) {dim : Nat}
    (hDim : dim < numSplit * splitSize + residual) :
    ∃ k y, getSliceIndex dim splitSize residual = some k ∧
      getDimensionInSlice dim splitSize residual = some y ∧ k < numSplit ∧
        y < sizeOf splitSize residual k ∧ y + preceding splitSize residual k = dim := by
  have hChecks : 0 < splitSize ∧ (0 : Int) ≤ dim := ⟨hPos, Int.natCast_nonneg dim⟩
  rw [getSliceIndex, getDimensionInSlice, if_pos hChecks, if_pos hChecks, Int.toNat_natCast]
  simp only [preceding_eq, sizeOf]
  obtain rfl | hSome := eq_or_ne residual 0
  · refine ⟨_, _, if_pos rfl, if_pos rfl, (div_lt_iff_lt_mul hPos).mpr hDim, ?_, ?_⟩
    · exact mod_lt _ hPos
    · rw [min_zero]
      exact mod_add_div' dim splitSize
  · rw [if_neg hSome, if_neg hSome]
    obtain hFront | hBack := lt_or_ge dim (residual * (splitSize + 1))
    · rw [if_pos hFront, if_pos hFront]
      have hIndex : dim / (splitSize + 1) < residual :=
        (div_lt_iff_lt_mul splitSize.succ_pos).mpr hFront
      refine ⟨_, _, rfl, rfl, hIndex.trans hResidual, ?_, ?_⟩
      · rw [if_pos hIndex]
        exact mod_lt _ splitSize.succ_pos
      · rw [min_eq_left hIndex.le]
        exact mod_add_div' dim (splitSize + 1)
    · rw [if_neg hBack.not_gt, if_neg hBack.not_gt]
      have hOffset : residual * (splitSize + 1) = residual * splitSize + residual :=
        mul_succ ..
      have hRest : dim - residual * (splitSize + 1) < (numSplit - residual) * splitSize := by
        rw [Nat.sub_mul]
        omega
      have hIndex := (div_lt_iff_lt_mul hPos).mpr hRest
      refine ⟨_, _, rfl, rfl, add_lt_of_lt_sub' hIndex, ?_, ?_⟩
      · rw [if_neg (Nat.le_add_right ..).not_gt]
        exact mod_lt _ hPos
      · have hSplit := mod_add_div' (dim - residual * (splitSize + 1)) splitSize
        rw [min_eq_right (Nat.le_add_right ..), add_mul]
        omega

end Formulas

variable {es : List (Entry α rank)}

section Loops

variable {splitDim : Fin rank} {splitSize residual numSplit : Nat}

def Placed (splitDim : Fin rank) (splitSize residual numSplit : Nat) (entry : Entry α rank) :
    Prop :=
  ∃ k y : Nat, sliceOf splitDim splitSize residual entry.1 = some k ∧
    moveRow splitDim splitSize residual entry.1 = some (update entry.1 splitDim (y : Int)) ∧
      k < numSplit ∧ y < sizeOf splitSize residual k ∧
        (y : Int) + preceding splitSize residual k = entry.1 splitDim

theorem placed (hPos : 0 < splitSize) (hResidual : residual < numSplit) {entry : Entry α rank}
    (hNonneg : 0 ≤ entry.1 splitDim)
    (hLess : entry.1 splitDim < (numSplit * splitSize + residual : Nat))
    (hSmall : numSplit * splitSize + residual < rowLimit) :
    Placed splitDim splitSize residual numSplit entry := by
  obtain ⟨dim, hDim⟩ := Int.eq_ofNat_of_zero_le hNonneg
  rw [hDim] at hLess
  have hDimLess := Int.ofNat_lt.mp hLess
  have hInt : toInt (entry.1 splitDim) = dim := by
    rw [hDim]
    exact toInt_of_lt (hDimLess.trans hSmall)
  obtain ⟨k, y, hSlice, hPosition, hk, hy, hSum⟩ := formulas_agree hPos hResidual hDimLess
  refine ⟨k, y, by rw [sliceOf, hInt, hSlice], ?_, hk, hy, ?_⟩
  · rw [moveRow, hInt, hPosition]
    rfl
  · rw [hDim]
    exact congrArg Nat.cast hSum

def inSlice (splitDim : Fin rank) (splitSize residual k : Nat) (es : List (Entry α rank)) :
    List (Entry α rank) :=
  es.filter fun entry => sliceOf splitDim splitSize residual entry.1 = some k

def moveEntry (splitDim : Fin rank) (splitSize residual : Nat) (entry : Entry α rank) :
    Option (Entry α rank) :=
  (moveRow splitDim splitSize residual entry.1).map fun row => (row, entry.2)

theorem inSlice_cons (k : Nat) (entry : Entry α rank) (es : List (Entry α rank)) :
    inSlice splitDim splitSize residual k (entry :: es) =
      if sliceOf splitDim splitSize residual entry.1 = some k then
        entry :: inSlice splitDim splitSize residual k es
      else inSlice splitDim splitSize residual k es := by
  split_ifs <;> simp_all [inSlice]

section

variable (h : ∀ entry ∈ es, Placed splitDim splitSize residual numSplit entry)

include h

theorem countLoop_eq
    (numValues : Nat → Nat) :
    countLoop splitDim splitSize residual numSplit es numValues =
      some fun k => numValues k + (inSlice splitDim splitSize residual k es).length := by
  induction es generalizing numValues with
  | nil => rfl
  | cons entry es ih =>
    obtain ⟨k, y, hSlice, -, hk, -, -⟩ := h entry mem_cons_self
    rw [countLoop, hSlice]
    simp only [if_pos hk]
    rw [ih fun entry' hMem => h entry' (mem_cons_of_mem _ hMem)]
    congr 1
    funext k'
    rw [inSlice_cons, hSlice]
    obtain rfl | hNe := eq_or_ne k' k
    · rw [update_self, if_pos rfl, length_cons]
      omega
    · rw [update_of_ne hNe, if_neg fun hEq => hNe (Option.some.inj hEq).symm]

/-- The loop writes the entries of each slice one behind the other. -/
theorem fillLoop_eq
    {written : Nat → List (Option (Entry α rank))} :
    fillLoop splitDim splitSize residual numSplit es
        ⟨fun k => written k ++
          replicate (inSlice splitDim splitSize residual k es).length none,
          fun k => (written k).length⟩ =
      some ⟨fun k => written k ++ (inSlice splitDim splitSize residual k es).map
          (moveEntry splitDim splitSize residual),
        fun k => (written k).length + (inSlice splitDim splitSize residual k es).length⟩ := by
  induction es generalizing written with
  | nil => rfl
  | cons entry es ih =>
    obtain ⟨k, y, hSlice, hMove, hk, -, -⟩ := h entry mem_cons_self
    set moved : Entry α rank := (update entry.1 splitDim (y : Int), entry.2)
    have hMoved : moveEntry splitDim splitSize residual entry = some moved := by
      rw [moveEntry, hMove]
      rfl
    have hSame : inSlice splitDim splitSize residual k (entry :: es) =
        entry :: inSlice splitDim splitSize residual k es := by
      rw [inSlice_cons, if_pos hSlice]
    have hOther {k' : Nat} (hNe : k' ≠ k) : inSlice splitDim splitSize residual k' (entry :: es) =
        inSlice splitDim splitSize residual k' es := by
      rw [inSlice_cons, hSlice, if_neg fun hEq => hNe (Option.some.inj hEq).symm]
    have hRest := @ih (fun entry' hMem => h entry' (mem_cons_of_mem _ hMem))
      (update written k (written k ++ [some moved]))
    rw [fillLoop, hSlice, hMove]
    simp only
    rw [if_pos ⟨hk, by rw [hSame]; simp⟩]
    refine Eq.trans (congrArg _ ?_) (hRest.trans (congrArg some ?_))
    · congr 1 <;> funext k'
      · obtain rfl | hNe := eq_or_ne k' k
        · rw [hSame, length_cons, replicate_succ]
          simp [moved]
        · rw [update_of_ne hNe, update_of_ne hNe, hOther hNe]
      · obtain rfl | hNe := eq_or_ne k' k
        · simp
        · rw [update_of_ne hNe, update_of_ne hNe]
    · congr 1 <;> funext k'
      · obtain rfl | hNe := eq_or_ne k' k
        · rw [update_self, hSame, map_cons, hMoved, append_assoc]
          rfl
        · rw [update_of_ne hNe, hOther hNe]
      · obtain rfl | hNe := eq_or_ne k' k
        · simp [hSame]
          omega
        · rw [update_of_ne hNe, hOther hNe]

end

end Loops

def restore (splitDim : Fin rank) (offset : Nat) (entry : Entry α rank) : Entry α rank :=
  (update entry.1 splitDim (entry.1 splitDim + offset), entry.2)

structure SliceOf (shape : Fin rank → Nat) (splitDim : Fin rank) (offset : Nat)
    (own : List (Entry α rank)) (slice : Slice α rank) : Prop where
  shape_eq : slice.shape = update shape splitDim (slice.shape splitDim)
  cells_eq : ∃ moved : List (Entry α rank), slice.cells = moved.map some ∧
    moved.map (restore splitDim offset) = own ∧ ∀ entry ∈ moved, Inside slice.shape entry.1

/-- Each entry is in the slice of its own `slot`, and the slices make up the dimension. -/
structure Sliced (t : SparseTensor α entries rank) (splitDim : Fin rank) (numSplit : Nat)
    (slices : List (Slice α rank)) : Prop where
  length_eq : slices.length = numSplit
  sizes_sum : (slices.map fun slice => slice.shape splitDim).sum = t.shape splitDim
  entries_eq : ∃ slot : Entry α rank → Nat, (∀ i, slot (t.entry i) < numSplit) ∧
    ∀ k slice, slices[k]? = some slice →
      SliceOf t.shape splitDim ((slices.take k).map fun slice => slice.shape splitDim).sum
        ((ofFn t.entry).filter fun entry => slot entry = k) slice

section Results

variable {splitDim : Fin rank} {splitSize residual numSplit : Nat}

theorem setDim_cases (shape : Fin rank → Nat) (splitDim : Fin rank) (size : Nat) :
    setDim shape splitDim size = none ∨
      setDim shape splitDim size = some (update shape splitDim size) := by
  rw [setDim]
  cases Framework.TensorShape.recomputeLoop 1
    ((ofFn (update shape splitDim size)).map Int64.ofNat) with
  | none => exact .inl rfl
  | some n => exact .inr rfl

theorem mapM_cases {β : Type} {f : Nat → Option β} {g : Nat → β}
    (h : ∀ k, f k = none ∨ f k = some (g k)) (ks : List Nat) :
    (ks.mapM f = none ∧ ∃ k ∈ ks, f k = none) ∨
      (ks.mapM f = some (ks.map g) ∧ ∀ k ∈ ks, f k ≠ none) := by
  induction ks with
  | nil => exact .inr ⟨rfl, nofun⟩
  | cons k ks ih =>
    rw [mapM_cons, forall_mem_cons]
    cases h k with
    | inl hNone => exact .inl ⟨by rw [hNone]; rfl, k, mem_cons_self, hNone⟩
    | inr hSome =>
      cases ih with
      | inl hRest =>
        obtain ⟨hMap, k', hMem, hNone⟩ := hRest
        exact .inl ⟨by rw [hSome, hMap]; rfl, k', mem_cons_of_mem _ hMem, hNone⟩
      | inr hRest =>
        exact .inr ⟨by rw [hSome, hRest.1]; rfl, by rw [hSome]; nofun, hRest.2⟩

theorem exists_moved {shape : Fin rank → Nat} {k : Nat}
    (h : ∀ entry ∈ es, Placed splitDim splitSize residual numSplit entry ∧
      Inside shape entry.1 ∧ sliceOf splitDim splitSize residual entry.1 = some k) :
    ∃ moved : List (Entry α rank), es.map (moveEntry splitDim splitSize residual) = moved.map some ∧
      moved.map (restore splitDim (preceding splitSize residual k)) = es ∧
        ∀ entry ∈ moved,
          Inside (update shape splitDim (sizeOf splitSize residual k)) entry.1 := by
  induction es with
  | nil => exact ⟨[], rfl, rfl, nofun⟩
  | cons entry es ih =>
    obtain ⟨moved, hMoved, hRestored, hInside⟩ := ih fun entry' hMem =>
      h entry' (mem_cons_of_mem _ hMem)
    obtain ⟨⟨k', y, hSlice, hMove, -, hy, hSum⟩, hIn, hSame⟩ := h entry mem_cons_self
    obtain rfl := Option.some.inj (hSlice.symm.trans hSame)
    refine ⟨(update entry.1 splitDim (y : Int), entry.2) :: moved, ?_, ?_, ?_⟩
    · rw [map_cons, hMoved, moveEntry, hMove]
      rfl
    · simp only [map_cons, hRestored, restore, update_self, update_idem, hSum, update_eq_self]
    · refine forall_mem_cons.mpr ⟨fun d => ?_, hInside⟩
      obtain rfl | hNe := eq_or_ne d splitDim
      · simp only [update_self]
        exact ⟨Int.natCast_nonneg y, Int.ofNat_lt.mpr hy⟩
      · simp only [update_of_ne hNe]
        exact hIn d

/-- The slices that come out when no `CHECK` fails. -/
theorem splitLoops_sliced {t : SparseTensor α entries rank} (hPos : 0 < splitSize)
    (hSize : t.shape splitDim = numSplit * splitSize + residual) (hResidual : residual < numSplit)
    (h : ∀ i, Placed splitDim splitSize residual numSplit (t.entry i) ∧ Inside t.shape (t.ix i)) :
    ((∃ k < numSplit, setDim t.shape splitDim (sizeOf splitSize residual k) = none) ∧
      splitLoops splitDim splitSize residual numSplit t = none) ∨
    ((∀ k < numSplit, setDim t.shape splitDim (sizeOf splitSize residual k) ≠ none) ∧
      ∃ slices, splitLoops splitDim splitSize residual numSplit t = some slices ∧
        Sliced t splitDim numSplit slices) := by
  have hMem : ∀ entry ∈ ofFn t.entry,
      Placed splitDim splitSize residual numSplit entry ∧ Inside t.shape entry.1 := by
    intro entry hEntry
    obtain ⟨i, rfl⟩ := (mem_ofFn' ..).mp hEntry
    exact h i
  have hShape : sliceShape splitDim splitSize residual t.shape =
      fun k => setDim t.shape splitDim (sizeOf splitSize residual k) := by
    funext k
    rw [sliceShape, getSliceShape_eq hPos, Option.bind_some]
  have hCount := countLoop_eq (fun entry hEntry => (hMem entry hEntry).1) fun _ => 0
  have hFill := @fillLoop_eq _ _ _ _ _ _ _ (fun entry hEntry => (hMem entry hEntry).1) fun _ => []
  simp only [nil_append, length_nil, zero_add] at hCount hFill
  rw [splitLoops, hCount]
  simp only [hShape, hFill]
  obtain ⟨hNone, k, hk, hCheck⟩ | ⟨hShapes, hChecks⟩ := mapM_cases
    (fun k => setDim_cases t.shape splitDim (sizeOf splitSize residual k)) (range numSplit)
  · exact .inl ⟨⟨k, mem_range.mp hk, hCheck⟩, by rw [hNone]⟩
  · refine .inr ⟨fun k hk => hChecks k (mem_range.mpr hk), _, by rw [hShapes], ?_⟩
    rw [zipWith_map_right, zipWith_self]
    set slices := (range numSplit).map fun k =>
      (⟨(inSlice splitDim splitSize residual k (ofFn t.entry)).map
          (moveEntry splitDim splitSize residual),
        update t.shape splitDim (sizeOf splitSize residual k)⟩ : Slice α rank)
    have hSizes : slices.map (fun slice => slice.shape splitDim) =
        (range numSplit).map (sizeOf splitSize residual) := by
      simp only [slices, map_map, comp_def, update_self]
    refine ⟨by simp [slices], ?_, fun entry =>
      (sliceOf splitDim splitSize residual entry.1).getD 0, fun i => ?_, fun k slice hSlice => ?_⟩
    · rw [hSizes, ← preceding, preceding_eq, min_eq_right hResidual.le, hSize]
    · obtain ⟨k, y, hSlice, -, hk, -⟩ := (h i).1
      simp only [hSlice, Option.getD_some, hk]
    · obtain ⟨hk, hEq⟩ := List.getElem?_eq_some_iff.mp hSlice
      have hLess : k < numSplit := by simpa [slices] using hk
      have hSlice : slice = ⟨(inSlice splitDim splitSize residual k (ofFn t.entry)).map
            (moveEntry splitDim splitSize residual),
          update t.shape splitDim (sizeOf splitSize residual k)⟩ := by
        rw [← hEq]
        simp [slices]
      subst hSlice
      obtain ⟨moved, hMoved, hRestored, hInside⟩ := exists_moved (k := k)
        fun entry (hEntry : entry ∈ inSlice splitDim splitSize residual k (ofFn t.entry)) =>
          have hBoth := mem_filter.mp hEntry
          ⟨(hMem entry hBoth.1).1, (hMem entry hBoth.1).2, of_decide_eq_true hBoth.2⟩
      rw [map_take, hSizes, ← map_take, take_range, min_eq_left hLess.le]
      refine ⟨?_, moved, hMoved, hRestored.trans (filter_congr fun entry hEntry => ?_),
        hInside⟩
      · simp only [update_self]
      · obtain ⟨k', y, hSlice, -⟩ := (hMem entry hEntry).1
        simp [hSlice]

end Results

/-- `Split` gives the slices of the tensor. -/
def Splits (t : SparseTensor α entries rank) (splitDim : Fin rank) (numSplit : Nat) : Prop :=
  ∃ slices, split t (splitDim.val : Int) (numSplit : Int) = some slices ∧
    Sliced t splitDim numSplit slices

theorem splits_iff (t : SparseTensor α entries rank) (hInside : ∀ i, Inside t.shape (t.ix i))
    (splitDim : Fin rank) (hSmall : t.shape splitDim < rowLimit) {numSplit : Nat}
    (hPos : 0 < numSplit) (hLe : numSplit ≤ t.shape splitDim) :
    Splits t splitDim numSplit ↔ entries < rowLimit ∧
      ∀ k < numSplit, setDim t.shape splitDim (sizeOf (t.shape splitDim / numSplit)
        (t.shape splitDim % numSplit) k) ≠ none := by
  have hColumn : column (splitDim.val : Int) = some splitDim := by simp [column]
  have hChecks : (0 : Int) < numSplit ∧ (numSplit : Int) ≤ t.shape splitDim ∧ entries < rowLimit ↔
      entries < rowLimit := by omega
  rw [Splits, split, hColumn]
  simp only [toInt_of_lt hSmall, hChecks]
  split_ifs with hFew
  · rw [and_iff_right hFew]
    have hSize : t.shape splitDim = numSplit * (t.shape splitDim / numSplit) +
        t.shape splitDim % numSplit := (div_add_mod ..).symm
    have hSplitPos : 0 < t.shape splitDim / numSplit := div_pos hLe hPos
    have hResidual := mod_lt (t.shape splitDim) hPos
    have hCases := splitLoops_sliced hSplitPos hSize hResidual fun i =>
      ⟨placed hSplitPos hResidual (hInside i splitDim).1
        (hSize ▸ (hInside i splitDim).2) (hSize ▸ hSmall), hInside i⟩
    obtain ⟨⟨k, hk, hNone⟩, hLoops⟩ | ⟨hSome, hLoops⟩ := hCases
    · refine iff_of_false ?_ fun h => h k hk hNone
      rintro ⟨slices, hSlices, -⟩
      cases hLoops.symm.trans hSlices
    · exact iff_of_true hLoops hSome
  · exact iff_of_false (by simp) fun h => hFew h.1

def vector : SparseTensor Unit 2 1 where
  ix i _ := i.val
  vals _ := ()
  shape _ := 3
  shape_lt _ := by norm_num
  order := [0]
  order_length := rfl

theorem vector_splits_iff :
    ((∀ i, Inside vector.shape (vector.ix i)) ∧ vector.shape 0 < rowLimit ∧ 0 < 2 ∧
      2 ≤ vector.shape 0) ∧ Splits vector 0 2 := by
  have hInside : ∀ i, Inside vector.shape (vector.ix i) := by decide
  have hSmall (n : Nat) (h : n ≤ 3) : n < rowLimit := by
    rw [rowLimit]
    omega
  have hShape : vector.shape 0 < rowLimit := hSmall 3 le_rfl
  exact ⟨⟨hInside, hShape, by decide, by decide⟩,
    (splits_iff vector hInside 0 hShape (by decide) (by decide)).mpr
      ⟨hSmall 2 (by decide), by decide⟩⟩

/-- More entries than an `int` counts. -/
def manyEntries : SparseTensor Unit rowLimit 1 where
  ix _ _ := 0
  vals _ := ()
  shape _ := 1
  shape_lt _ := by norm_num
  order := [0]
  order_length := rfl

theorem manyEntries_not_splits : ¬Splits manyEntries 0 1 := by
  rintro ⟨slices, hSlices, -⟩
  have hNone : split manyEntries ((0 : Fin 1).val : Int) (1 : Nat) = none :=
    if_neg fun h => absurd h.2.2 (lt_irrefl _)
  exact nomatch hNone.symm.trans hSlices

end TensorFlowOnSpark.Sparse
