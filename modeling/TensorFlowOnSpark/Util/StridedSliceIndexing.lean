import TensorFlowOnSpark.Lib.BasicIndexing
import TensorFlowOnSpark.Util.StridedSlice

/-!
# Strided slices as indexing expressions

A full validation accepts what basic indexing does, and leaves the ranges and the shapes of it.
-/

namespace TensorFlowOnSpark.Util.StridedSlice

open Framework Fallible BasicIndexing Option Nat

def DenseDim.slice (d : DenseDim) : Slice where
  start := if d.beginMasked then none else some d.begin_
  stop := if d.endMasked then none else some d.end_
  step := d.stride

def DenseDim.item (d : DenseDim) : Item :=
  if d.shrink then .index d.begin_ else .slice d.slice

def itemOf : Option DenseDim → Item
  | none => .newAxis
  | some d => d.item

def ProcessedDim.selected (p : ProcessedDim) : List Int :=
  range p.begin_ p.end_ p.stride

theorem intervalSize_eq {b e s : Int} (h : s ≠ 0) : intervalSize (e - b) s = rangeLength b e s := by
  apply le_antisymm
  · apply Nat.le_of_not_lt
    intro hLess
    rw [lt_intervalSize h, ← lt_rangeLength h] at hLess
    exact lt_irrefl _ hLess
  · apply Nat.le_of_not_lt
    intro hLess
    rw [lt_rangeLength h, ← lt_intervalSize h] at hLess
    exact lt_irrefl _ hLess

theorem validRange_false (s : Slice) (n : Nat) (h : s.step ≠ 0) :
    validRange s.step n false = s.lower := by
  simp only [validRange, Slice.lower]
  split <;> split <;> omega

theorem validRange_true (s : Slice) (n : Nat) (h : s.step ≠ 0) :
    validRange s.step n true = s.upper n := by
  simp only [validRange, Slice.upper]
  split <;> split <;> omega

theorem canonical_clip (s : Slice) (n : Nat) (h : s.step ≠ 0) (x : Int) (isEnd : Bool) :
    canonical s.step n false x isEnd = s.clip n x := by
  have hLower : -1 ≤ s.lower ∧ s.lower ≤ 0 := by
    unfold Slice.lower
    split <;> omega
  have hUpper : (n : Int) - 1 ≤ s.upper n := by
    unfold Slice.upper
    split <;> omega
  rw [canonical, if_neg Bool.false_ne_true, validRange_false s n h, validRange_true s n h, forward,
    Slice.clip]
  by_cases hNegative : x < 0
  · split
    · omega
    · split <;> omega
  · split
    · omega
    · split <;> omega

theorem canonical_first (d : DenseDim) (n : Nat) (h : d.stride ≠ 0) :
    canonical d.stride n d.beginMasked d.begin_ false = d.slice.first n := by
  cases hMasked : d.beginMasked with
  | true =>
    have hStart : d.slice.start = none := if_pos hMasked
    rw [canonical, if_pos rfl, Slice.first, hStart, ← validRange_false d.slice n h,
      ← validRange_true d.slice n h]
    change _ = if d.stride < 0 then _ else _
    split <;> split <;> first | rfl | omega
  | false =>
    have hStart : d.slice.start = some d.begin_ := if_neg (Bool.eq_false_iff.mp hMasked)
    rw [Slice.first, hStart]
    exact canonical_clip d.slice n h d.begin_ false

theorem canonical_last (d : DenseDim) (n : Nat) (h : d.stride ≠ 0) :
    canonical d.stride n d.endMasked d.end_ true = d.slice.last n := by
  cases hMasked : d.endMasked with
  | true =>
    have hStop : d.slice.stop = none := if_pos hMasked
    rw [canonical, if_pos rfl, Slice.last, hStop, ← validRange_false d.slice n h,
      ← validRange_true d.slice n h]
    change _ = if d.stride < 0 then _ else _
    split <;> split <;> first | rfl | omega
  | false =>
    have hStop : d.slice.stop = some d.end_ := if_neg (Bool.eq_false_iff.mp hMasked)
    rw [Slice.last, hStop]
    exact canonical_clip d.slice n h d.end_ true

variable {i n : Nat} {d : DenseDim}

theorem processDim_slice (hShrink : d.shrink = false) (hStride : d.stride ≠ 0) :
    ∃ p, processDim true i d (some n) = .ok p ∧ p.selected = d.slice.selected n ∧
      p.size = some (d.slice.selected n).length := by
  unfold processDim
  rw [if_neg hStride]
  simp only [hShrink, bounds]
  refine ⟨_, rfl, ?_, ?_⟩
  · rw [canonical_first d n hStride, canonical_last d n hStride]
    rfl
  · rw [knownInterval, if_pos rfl, map_some, intervalSize_eq hStride,
      canonical_first d n hStride, canonical_last d n hStride, Slice.selected, length_range]
    rfl

theorem processDim_index (hShrink : d.shrink)
    (hStride : 0 < d.stride) (hIn : -(n : Int) ≤ d.begin_ ∧ d.begin_ < n) :
    ∃ p, processDim true i d (some n) = .ok p ∧
      p.selected = [if d.begin_ < 0 then d.begin_ + n else d.begin_] ∧ p.size = some 1 := by
  have hForward : forward n d.begin_ = if d.begin_ < 0 then d.begin_ + n else d.begin_ := by
    rw [forward, Int.add_comm]
  have hInside : ¬ (forward n d.begin_ < 0 ∨ forward n d.begin_ ≥ n) := by
    unfold forward
    split <;> omega
  unfold processDim
  rw [if_neg (by omega)]
  simp only [hShrink, true_and, if_neg (Int.not_le.mpr hStride), bounds, if_neg hInside]
  refine ⟨_, rfl, ?_, ?_⟩
  · rw [ProcessedDim.selected, range_single hStride, hForward]
  · rw [knownInterval, if_pos rfl, map_some, intervalSize_eq (by omega), ← length_range,
      range_single hStride]
    rfl

theorem processDim_shrunk {p : ProcessedDim} (hShrink : d.shrink)
    (h : processDim true i d (some n) = .ok p) :
    0 < d.stride ∧ -(n : Int) ≤ d.begin_ ∧ d.begin_ < n := by
  unfold processDim at h
  split at h
  · cases h
  · simp only [hShrink, true_and] at h
    split at h
    · cases h
    · rename_i hForward
      simp only [bounds, hShrink, if_true] at h
      split at h
      · cases h
      · rename_i hInside
        unfold forward at hInside
        split at hInside <;> omega

theorem processDim_stride {p : ProcessedDim}
    (h : processDim true i d (some n) = .ok p) : d.stride ≠ 0 := by
  unfold processDim at h
  split at h
  · cases h
  · assumption

theorem item_shrunk (h : d.shrink) : d.item = .index d.begin_ := if_pos h

theorem item_kept (h : d.shrink = false) : d.item = .slice d.slice :=
  if_neg (Bool.eq_false_iff.mp h)

structure Selects (items : List (Option DenseDim)) (r : Selection) (processed : List ProcessedDim) :
    Prop where
  selected : processed.map ProcessedDim.selected = r.selected
  size : processed.map ProcessedDim.size = r.selected.map fun indices => some indices.length
  final : finalOf (some 1) items (processed.map ProcessedDim.size) = r.shape.map some

variable {items : List (Option DenseDim)}

theorem processDims_of_select {dims : List Nat} {r : Selection} (i : Nat)
    (hForward : ∀ d ∈ dimsOf items, d.shrink → 0 < d.stride)
    (h : select (items.map itemOf) dims = some r) :
    ∃ processed, processDims true i (dimsOf items) (dims.map some) = .ok processed ∧
      Selects items r processed := by
  induction items generalizing i dims r with
  | nil =>
    cases dims with
    | nil =>
      obtain rfl := some.inj h
      exact ⟨[], rfl, rfl, rfl, rfl⟩
    | cons n dims => cases h
  | cons item items ih =>
    cases item with
    | none =>
      rw [List.map_cons, itemOf, select, map_eq_some_iff] at h
      obtain ⟨rest, hRest, rfl⟩ := h
      obtain ⟨processed, hProcessed, hSelects⟩ := ih i hForward hRest
      refine ⟨processed, hProcessed, hSelects.selected, hSelects.size, ?_⟩
      rw [finalOf, hSelects.final]
      rfl
    | some d =>
      rw [dimsOf_some, List.forall_mem_cons] at hForward
      rw [List.map_cons, itemOf] at h
      have hNext : ∀ {n : Nat} {dims : List Nat} {rest : Selection} {indices : List Int},
          select (items.map itemOf) dims = some rest →
          (∃ p, processDim true i d (some n) = .ok p ∧ p.selected = indices ∧
            p.size = some indices.length) →
          ∃ processed, processDims true i (dimsOf (some d :: items)) ((n :: dims).map some) =
              .ok processed ∧
            processed.map ProcessedDim.selected = indices :: rest.selected ∧
            processed.map ProcessedDim.size =
              (indices :: rest.selected).map (fun indices => some indices.length) ∧
            finalOf (some 1) (some d :: items) (processed.map ProcessedDim.size) =
              ((if d.shrink then rest.shape else indices.length :: rest.shape).map some) := by
        rintro n dims rest indices hRest ⟨p, hDim, hSelected, hSize⟩
        obtain ⟨processed, hProcessed, hSelects⟩ := ih (i + 1) hForward.2 hRest
        refine ⟨p :: processed, ?_, ?_, ?_, ?_⟩
        · rw [dimsOf_some, List.map_cons, processDims, hDim, hProcessed]
          rfl
        · rw [List.map_cons, hSelected, hSelects.selected]
        · rw [List.map_cons, hSize, hSelects.size]
          rfl
        · rw [List.map_cons, hSize, finalOf, hSelects.final]
          split <;> rfl
      cases hShrink : d.shrink with
      | true =>
        rw [item_shrunk hShrink] at h
        cases dims with
        | nil => cases h
        | cons n dims =>
          rw [select] at h
          split at h
          · rename_i hIn
            rw [map_eq_some_iff] at h
            obtain ⟨rest, hRest, rfl⟩ := h
            obtain ⟨processed, hProcessed, hSelected, hSize, hFinal⟩ :=
              hNext hRest (processDim_index hShrink (hForward.1 hShrink) hIn)
            rw [hShrink] at hFinal
            exact ⟨processed, hProcessed, hSelected, hSize, hFinal⟩
          · cases h
      | false =>
        rw [item_kept hShrink] at h
        cases dims with
        | nil => cases h
        | cons n dims =>
          rw [select] at h
          split at h
          · cases h
          · rename_i hStride
            rw [map_eq_some_iff] at h
            obtain ⟨rest, hRest, rfl⟩ := h
            obtain ⟨processed, hProcessed, hSelected, hSize, hFinal⟩ :=
              hNext hRest (processDim_slice hShrink hStride)
            rw [hShrink] at hFinal
            exact ⟨processed, hProcessed, hSelected, hSize, hFinal⟩

theorem select_of_processDims {dims : List Nat} {processed : List ProcessedDim}
    (hLength : (dimsOf items).length = dims.length)
    (h : processDims true i (dimsOf items) (dims.map some) = .ok processed) :
    (∀ d ∈ dimsOf items, d.shrink → 0 < d.stride) ∧
      ∃ r, select (items.map itemOf) dims = some r := by
  induction items generalizing i dims processed with
  | nil =>
    obtain rfl := List.length_eq_zero_iff.mp hLength.symm
    exact ⟨fun d hMem => absurd hMem List.not_mem_nil, _, rfl⟩
  | cons item items ih =>
    cases item with
    | none =>
      obtain ⟨hForward, r, hSelect⟩ := ih hLength h
      rw [List.map_cons, itemOf, select, hSelect]
      exact ⟨hForward, _, rfl⟩
    | some d =>
      cases dims with
      | nil => cases hLength
      | cons n dims =>
        rw [dimsOf_some] at h hLength ⊢
        rw [List.map_cons, processDims] at h
        simp only [bind_eq_ok] at h
        obtain ⟨p, hDim, rest, hRest, -⟩ := h
        obtain ⟨hForward, r, hSelect⟩ := ih (succ.inj hLength) hRest
        rw [List.forall_mem_cons, List.map_cons, itemOf]
        cases hShrink : d.shrink with
        | true =>
          obtain ⟨hStride, hIn⟩ := processDim_shrunk hShrink hDim
          refine ⟨⟨fun _ => hStride, hForward⟩, ?_⟩
          rw [item_shrunk hShrink, select, if_pos hIn, hSelect]
          exact ⟨_, rfl⟩
        | false =>
          refine ⟨⟨fun hNot => absurd hNot Bool.false_ne_true, hForward⟩, ?_⟩
          have hStride : d.slice.step ≠ 0 := processDim_stride hDim
          rw [item_kept hShrink, select, if_neg hStride, hSelect]
          exact ⟨_, rfl⟩

/-- What the entry `i` specifies where it is no ellipsis. -/
def entryOf (sparse : SparseSpec) (i : Nat) : Option DenseDim :=
  if sparse.masks.newAxis.getLsbD i then none else some (givenDim sparse i)

variable {entries : List Nat}

section Dense

variable {sparse : SparseSpec} {dims : Nat}

theorem buildDims_append (first rest : List Nat) (dense : DenseSpec) :
    buildDims sparse dims (first ++ rest) dense =
      buildDims sparse dims first dense >>= buildDims sparse dims rest := by
  induction first generalizing dense with
  | nil => rfl
  | cons i first ih =>
    rw [List.cons_append, buildDims, buildDims]
    cases buildDim sparse dims dense i with
    | error e => rfl
    | ok next => exact ih next

theorem entryOf_newAxis {i : Nat} (h : sparse.masks.newAxis.getLsbD i) :
    entryOf sparse i = none := if_pos h

theorem entryOf_given {i : Nat} (h : sparse.masks.newAxis.getLsbD i = false) :
    entryOf sparse i = some (givenDim sparse i) := if_neg (Bool.eq_false_iff.mp h)

section

variable (hPlain : ∀ i ∈ entries, sparse.masks.ellipsis.getLsbD i = false)

include hPlain

theorem buildDims_plain
    (dense : DenseSpec)
    (h : dense.filled.length + (dimsOf (entries.map (entryOf sparse))).length ≤ dims) :
    buildDims sparse dims entries dense =
      .ok ⟨dense.filled ++ dimsOf (entries.map (entryOf sparse)),
        dense.gather ++ gatherOf dense.filled.length (entries.map (entryOf sparse))⟩ := by
  induction entries generalizing dense with
  | nil =>
    rw [buildDims]
    simp [dimsOf, gatherOf]
  | cons i entries ih =>
    rw [List.forall_mem_cons] at hPlain
    rw [List.map_cons] at h ⊢
    rw [buildDims, buildDim, if_neg (Bool.eq_false_iff.mp hPlain.1)]
    cases hAxis : sparse.masks.newAxis.getLsbD i with
    | true =>
      rw [entryOf_newAxis hAxis] at h ⊢
      have hRest := ih hPlain.2 ⟨dense.filled, dense.gather ++ [Gather.newAxis]⟩ h
      rw [List.append_assoc] at hRest
      exact hRest
    | false =>
      rw [entryOf_given hAxis, dimsOf_some] at h ⊢
      rw [List.length_cons] at h
      have hNext : (dense.filled ++ [givenDim sparse i]).length +
          (dimsOf (entries.map (entryOf sparse))).length ≤ dims := by
        rw [List.length_append, List.length_singleton]
        omega
      have hRest := fun gather => ih hPlain.2 ⟨dense.filled ++ [givenDim sparse i], gather⟩ hNext
      rw [if_neg Bool.false_ne_true, if_neg (by omega), ok_bind, hRest, gatherOf]
      simp only [List.append_assoc, List.singleton_append, List.length_append,
        List.length_singleton]

theorem buildDims_over
    (dense : DenseSpec) (hFilled : dense.filled.length ≤ dims)
    (h : dims < dense.filled.length + (dimsOf (entries.map (entryOf sparse))).length) :
    ∃ status, buildDims sparse dims entries dense = .error status := by
  induction entries generalizing dense with
  | nil => exact absurd hFilled (not_le.mpr h)
  | cons i entries ih =>
    rw [List.forall_mem_cons] at hPlain
    rw [List.map_cons] at h
    rw [buildDims, buildDim, if_neg (Bool.eq_false_iff.mp hPlain.1)]
    cases hAxis : sparse.masks.newAxis.getLsbD i with
    | true =>
      rw [entryOf_newAxis hAxis] at h
      exact ih hPlain.2 ⟨dense.filled, dense.gather ++ [Gather.newAxis]⟩ hFilled h
    | false =>
      rw [entryOf_given hAxis, dimsOf_some, List.length_cons] at h
      rw [if_neg Bool.false_ne_true]
      split
      · exact ⟨_, rfl⟩
      · apply ih hPlain.2
        · simp only [List.length_append, List.length_singleton]
          omega
        · simp only [List.length_append, List.length_singleton]
          omega

end

/-- The ellipsis is the entry `e`, with `k` entries behind it. -/
structure Around (sparse : SparseSpec) (e k : Nat) : Prop where
  dims : sparse.dims = e + 1 + k
  ellipsis : sparse.masks.ellipsis.getLsbD e
  before : ∀ i ∈ List.range e, sparse.masks.ellipsis.getLsbD i = false
  after : ∀ i ∈ List.range' (e + 1) k, sparse.masks.ellipsis.getLsbD i = false
  newAxes : sparse.numAddAxisAfterEllipsis +
    (dimsOf ((List.range' (e + 1) k).map (entryOf sparse))).length = k

def itemsBefore (sparse : SparseSpec) (e : Nat) : List (Option DenseDim) :=
  (List.range e).map (entryOf sparse)

def itemsAfter (sparse : SparseSpec) (e k : Nat) : List (Option DenseDim) :=
  (List.range' (e + 1) k).map (entryOf sparse)

def givenDims (sparse : SparseSpec) (e k : Nat) : Nat :=
  (dimsOf (itemsBefore sparse e)).length + (dimsOf (itemsAfter sparse e k)).length

def denseItems (sparse : SparseSpec) (dims e k : Nat) : List (Option DenseDim) :=
  itemsBefore sparse e ++ List.replicate (dims - givenDims sparse e k) (some DenseDim.all) ++
    itemsAfter sparse e k

theorem range_around (e k : Nat) :
    List.range (e + 1 + k) = List.range e ++ e :: List.range' (e + 1) k := by
  rw [List.range_eq_range', List.range_eq_range', add_assoc, ← List.range'_append_1,
    add_comm 1 k, List.range'_succ, zero_add]

namespace Around

variable {e k : Nat} (h : Around sparse e k)

include h

theorem buildDims_before (hRank : (dimsOf (itemsBefore sparse e)).length ≤ dims) :
    buildDims sparse dims (List.range e) ⟨[], []⟩ =
      .ok ⟨dimsOf (itemsBefore sparse e), gatherOf 0 (itemsBefore sparse e)⟩ := by
  rw [← zero_add (dimsOf (itemsBefore sparse e)).length] at hRank
  exact buildDims_plain h.before ⟨[], []⟩ hRank

theorem buildDim_ellipsis {dense : DenseSpec}
    (hFilled : dense.filled.length = (dimsOf (itemsBefore sparse e)).length) :
    buildDim sparse dims dense e =
      .ok ⟨dense.filled ++ List.replicate (dims - givenDims sparse e k) DenseDim.all,
        dense.gather ++
          (List.range' dense.filled.length (dims - givenDims sparse e k)).map Gather.index⟩ := by
  have hDims := h.dims
  have hAxes := h.newAxes
  have hCount : (nextIndex sparse dims e - dense.filled.length).toNat =
      dims - givenDims sparse e k := by
    rw [nextIndex, givenDims, itemsAfter]
    omega
  rw [buildDim, if_pos h.ellipsis, hCount]

theorem buildDenseSpec_ok (hRank : givenDims sparse e k ≤ dims) :
    buildDenseSpec sparse dims =
      .ok ⟨dimsOf (denseItems sparse dims e k), gatherOf 0 (denseItems sparse dims e k)⟩ := by
  have hBefore := h.buildDims_before (le_trans (le_add_right _ _) hRank)
  rw [buildDenseSpec, h.dims, range_around, buildDims_append, hBefore, ok_bind, buildDims,
    h.buildDim_ellipsis rfl, ok_bind, buildDims_plain h.after]
  · simp only [denseItems, dimsOf_append, dimsOf_all, gatherOf_append, gatherOf_all, zero_add]
    rfl
  · simp only [List.length_append, List.length_replicate]
    rw [givenDims, itemsAfter] at *
    omega

theorem buildDenseSpec_error (hRank : dims < givenDims sparse e k) :
    ∃ status, buildDenseSpec sparse dims = .error status := by
  rw [buildDenseSpec, h.dims, range_around, buildDims_append]
  rcases lt_or_ge dims (dimsOf (itemsBefore sparse e)).length with hOver | hFits
  · rw [← zero_add (dimsOf (itemsBefore sparse e)).length] at hOver
    obtain ⟨status, hError⟩ := buildDims_over h.before ⟨[], []⟩ (zero_le dims) hOver
    rw [hError]
    exact ⟨status, rfl⟩
  · rw [h.buildDims_before hFits, ok_bind, buildDims, h.buildDim_ellipsis rfl]
    apply buildDims_over h.after
    · simp only [List.length_append, List.length_replicate]
      omega
    · simp only [List.length_append]
      rw [givenDims, itemsAfter] at *
      omega

end Around

end Dense

def expression (begin_ end_ strides : IndexTensor) (masks : Masks) : List Item :=
  (List.range strides.flat.length).map fun i =>
    if masks.ellipsis.getLsbD i then .ellipsis
    else if masks.newAxis.getLsbD i then .newAxis
    else if masks.shrinkAxis.getLsbD i then .index (begin_.flat.getD i 0)
    else .slice
      { start := if masks.begin_.getLsbD i then none else some (begin_.flat.getD i 0)
        stop := if masks.end_.getLsbD i then none else some (end_.flat.getD i 0)
        step := strides.flat.getD i 0 }

def ShrinksForward (strides : IndexTensor) (masks : Masks) : Prop :=
  ∀ i < strides.flat.length, masks.ellipsis.getLsbD i = false →
    masks.newAxis.getLsbD i = false → masks.shrinkAxis.getLsbD i →
      0 < strides.flat.getD i 0

theorem countNewAxes_append (masks : Masks) (first rest : List Nat) (seen : Bool) (count : Nat) :
    countNewAxes masks (first ++ rest) seen count =
      countNewAxes masks rest (countNewAxes masks first seen count).1
        (countNewAxes masks first seen count).2 := by
  induction first generalizing seen count with
  | nil => rfl
  | cons i first ih =>
    exact ih _ _

theorem countNewAxes_plain {masks : Masks}
    (hPlain : ∀ i ∈ entries, masks.ellipsis.getLsbD i = false) (seen : Bool) (count : Nat) :
    countNewAxes masks entries seen count =
      (seen, if seen then count + entries.countP masks.newAxis.getLsbD else count) := by
  induction entries generalizing count with
  | nil =>
    cases seen <;> rfl
  | cons i entries ih =>
    rw [List.forall_mem_cons] at hPlain
    rw [countNewAxes, hPlain.1, Bool.or_false, ih hPlain.2, List.countP_cons]
    cases seen with
    | false => rfl
    | true =>
      cases masks.newAxis.getLsbD i with
      | false => rfl
      | true =>
        simp only [if_true, Bool.and_self]
        rw [add_assoc, add_comm 1]

theorem countP_newAxis (sparse : SparseSpec) (entries : List Nat) :
    entries.countP sparse.masks.newAxis.getLsbD + (dimsOf (entries.map (entryOf sparse))).length =
      entries.length := by
  induction entries with
  | nil => rfl
  | cons i entries ih =>
    rw [List.countP_cons, List.map_cons, List.length_cons]
    cases hAxis : sparse.masks.newAxis.getLsbD i with
    | true =>
      rw [entryOf_newAxis hAxis, dimsOf_none, if_pos rfl]
      omega
    | false =>
      rw [entryOf_given hAxis, dimsOf_some, List.length_cons, if_neg Bool.false_ne_true]
      omega

theorem mem_dimsOf {sparse : SparseSpec} {d : DenseDim} :
    d ∈ dimsOf (entries.map (entryOf sparse)) ↔
      ∃ i ∈ entries, sparse.masks.newAxis.getLsbD i = false ∧ d = givenDim sparse i := by
  rw [dimsOf, List.mem_filterMap]
  constructor
  · rintro ⟨item, hMem, rfl⟩
    obtain ⟨i, hi, hEntry⟩ := List.mem_map.mp hMem
    cases hAxis : sparse.masks.newAxis.getLsbD i with
    | true =>
      rw [entryOf_newAxis hAxis] at hEntry
      cases hEntry
    | false =>
      rw [entryOf_given hAxis] at hEntry
      exact ⟨i, hi, hAxis, (some.inj hEntry).symm⟩
  · rintro ⟨i, hi, hAxis, rfl⟩
    exact ⟨some (givenDim sparse i), List.mem_map.mpr ⟨i, hi, entryOf_given hAxis⟩, rfl⟩

theorem consumed_items (items : List (Option DenseDim)) :
    consumed (items.map itemOf) = (dimsOf items).length := by
  induction items with
  | nil => rfl
  | cons item items ih =>
    rw [List.map_cons, consumed_cons, ih]
    cases item with
    | none => exact zero_add _
    | some d =>
      rw [itemOf, DenseDim.item]
      split <;> exact add_comm _ _

theorem not_mem_items (items : List (Option DenseDim)) : .ellipsis ∉ items.map itemOf := by
  intro hMem
  obtain ⟨item, -, hItem⟩ := List.mem_map.mp hMem
  cases item with
  | none => cases hItem
  | some d =>
    rw [itemOf, DenseDim.item] at hItem
    split at hItem <;> cases hItem

section Sparse

variable {begin_ end_ strides : IndexTensor} {masks : Masks}

theorem entryOf_sparseSpec (i : Nat) :
    entryOf (sparseSpec (some begin_) (some end_) strides masks) i =
      entryOf ⟨0, 0, some begin_, some end_, strides, masks⟩ i := by
  rw [sparseSpec]
  rcases countNewAxes masks (List.range strides.flat.length) false 0 with ⟨seen, count⟩
  cases seen <;> rfl

theorem expression_eq :
    expression begin_ end_ strides masks = (List.range strides.flat.length).map fun i =>
      if masks.ellipsis.getLsbD i then .ellipsis
      else itemOf (entryOf (sparseSpec (some begin_) (some end_) strides masks) i) := by
  apply List.map_congr_left
  intro i hMem
  rw [entryOf_sparseSpec, entryOf]
  split
  · rfl
  · split <;> rfl

theorem map_plain (hPlain : ∀ i ∈ entries, masks.ellipsis.getLsbD i = false)
    (g : Nat → Option DenseDim) :
    (entries.map fun i => if masks.ellipsis.getLsbD i then .ellipsis else itemOf (g i)) =
      (entries.map g).map itemOf := by
  rw [List.map_map]
  apply List.map_congr_left
  intro i hMem
  rw [hPlain i hMem]
  rfl

/-- The specification has its ellipsis at `e`, and the expression the same items. -/
structure Denotes (begin_ end_ strides : IndexTensor) (masks : Masks) (e k : Nat) : Prop where
  around : Around (sparseSpec (some begin_) (some end_) strides masks) e k
  entries : ∀ i, i < strides.flat.length ∧ masks.ellipsis.getLsbD i = false ↔
    i ∈ List.range e ∨ i ∈ List.range' (e + 1) k
  expand : ∀ rank, expand rank (expression begin_ end_ strides masks) =
    if rank < givenDims (sparseSpec (some begin_) (some end_) strides masks) e k then none
    else some
      ((denseItems (sparseSpec (some begin_) (some end_) strides masks) rank e k).map itemOf)

theorem map_denseItems (sparse : SparseSpec) (rank e k : Nat) :
    (denseItems sparse rank e k).map itemOf =
      (itemsBefore sparse e).map itemOf ++
        List.replicate (rank - givenDims sparse e k) (.slice .all) ++
        (itemsAfter sparse e k).map itemOf := by
  rw [denseItems, List.map_append, List.map_append, List.map_replicate]
  rfl

/-- The ellipsis is one of the entries. -/
theorem denotes_given {e : Nat} (hEntry : e < strides.flat.length)
    (hEllipsis : masks.ellipsis.getLsbD e)
    (hOne : ∀ i, masks.ellipsis.getLsbD i → i = e) :
    Denotes begin_ end_ strides masks e (strides.flat.length - (e + 1)) := by
  obtain ⟨k, hk⟩ : ∃ k, strides.flat.length = e + 1 + k := Nat.exists_eq_add_of_le hEntry
  have hRest : strides.flat.length - (e + 1) = k := by omega
  have hOther : ∀ i, i ≠ e → masks.ellipsis.getLsbD i = false := by
    intro i hNot
    rw [Bool.eq_false_iff]
    exact fun hBit => hNot (hOne i hBit)
  have hBefore : ∀ i ∈ List.range e, masks.ellipsis.getLsbD i = false :=
    fun i hMem => hOther i (Nat.ne_of_lt (List.mem_range.mp hMem))
  have hAfter : ∀ i ∈ List.range' (e + 1) k, masks.ellipsis.getLsbD i = false :=
    fun i hMem => hOther i (ne_of_gt (List.mem_range'_1.mp hMem).1)
  have hCount : countNewAxes masks (List.range strides.flat.length) false 0 =
      (true, (List.range' (e + 1) k).countP masks.newAxis.getLsbD) := by
    rw [hk, range_around, countNewAxes_append, countNewAxes_plain hBefore, countNewAxes, hEllipsis]
    simp only [Bool.false_or, Bool.false_and, Bool.false_eq_true, if_false]
    rw [countNewAxes_plain hAfter, if_pos rfl, zero_add]
  have hSparse : sparseSpec (some begin_) (some end_) strides masks =
      ⟨strides.flat.length, (List.range' (e + 1) k).countP masks.newAxis.getLsbD, some begin_,
        some end_, strides, masks⟩ := by
    rw [sparseSpec, hCount]
    rfl
  rw [hRest]
  refine ⟨⟨?_, ?_, ?_, ?_, ?_⟩, ?_, ?_⟩
  · rw [hSparse]
    exact hk
  · rw [hSparse]
    exact hEllipsis
  · rw [hSparse]
    exact hBefore
  · rw [hSparse]
    exact hAfter
  · have hAxes := countP_newAxis (sparseSpec (some begin_) (some end_) strides masks)
      (List.range' (e + 1) k)
    rw [List.length_range'] at hAxes
    rw [hSparse] at hAxes ⊢
    exact hAxes
  · intro i
    rw [List.mem_range, List.mem_range'_1]
    constructor
    · rintro ⟨hLess, hBit⟩
      have hNot : i ≠ e := by
        rintro rfl
        rw [hEllipsis] at hBit
        cases hBit
      omega
    · intro hMem
      exact ⟨by omega, hOther i (by omega)⟩
  · intro rank
    rw [map_denseItems, givenDims, ← consumed_items, ← consumed_items, expression_eq, hk,
      range_around, List.map_append, List.map_cons, map_plain hBefore, map_plain hAfter, hEllipsis]
    exact expand_ellipsis (not_mem_items _) (not_mem_items _) rank

theorem denotes_appended (hLess : strides.flat.length < 32)
    (hNone : ∀ i < strides.flat.length, masks.ellipsis.getLsbD i = false) :
    Denotes begin_ end_ strides masks strides.flat.length 0 := by
  have hPlain : ∀ i ∈ List.range strides.flat.length, masks.ellipsis.getLsbD i = false :=
    fun i hMem => hNone i (List.mem_range.mp hMem)
  have hSparse : sparseSpec (some begin_) (some end_) strides masks =
      ⟨strides.flat.length + 1, 0, some begin_, some end_, strides,
        { masks with ellipsis := masks.ellipsis ||| (1 : Mask) <<< strides.flat.length }⟩ := by
    rw [sparseSpec, countNewAxes_plain hPlain]
    rfl
  refine ⟨⟨?_, ?_, ?_, ?_, ?_⟩, ?_, ?_⟩
  · rw [hSparse]
  · rw [hSparse]
    simp [hLess]
  · rw [hSparse]
    intro i hMem
    have hi := List.mem_range.mp hMem
    simp [hPlain i hMem, hi]
  · intro i hMem
    cases hMem
  · rw [hSparse]
    rfl
  · intro i
    rw [List.mem_range]
    constructor
    · exact fun h => Or.inl h.1
    · rintro (hi | hi)
      · exact ⟨hi, hNone i hi⟩
      · cases hi
  · intro rank
    rw [map_denseItems, givenDims, ← consumed_items, ← consumed_items, expression_eq,
      map_plain hPlain]
    exact (expand_plain (not_mem_items _) rank).trans (by simp [itemsAfter, itemsBefore, consumed])

theorem exists_denotes (hLess : strides.flat.length < 32)
    (hOne : ∀ i j, masks.ellipsis.getLsbD i → masks.ellipsis.getLsbD j → i = j) :
    ∃ e k, Denotes begin_ end_ strides masks e k := by
  by_cases hGiven : ∃ e < strides.flat.length, masks.ellipsis.getLsbD e
  · obtain ⟨e, hEntry, hEllipsis⟩ := hGiven
    exact ⟨e, _, denotes_given hEntry hEllipsis (fun i hBit => hOne i e hBit hEllipsis)⟩
  · refine ⟨_, _, denotes_appended hLess ?_⟩
    intro i hi
    rw [Bool.eq_false_iff]
    exact fun hBit => hGiven ⟨i, hi, hBit⟩

end Sparse

theorem forward_iff {begin_ end_ strides : IndexTensor} {masks : Masks} {e k : Nat}
    (h : Denotes begin_ end_ strides masks e k) (rank : Nat) :
    ShrinksForward strides masks ↔
      ∀ d ∈ dimsOf (denseItems (sparseSpec (some begin_) (some end_) strides masks) rank e k),
        d.shrink → 0 < d.stride := by
  have hEntry : ∀ i, givenDim (sparseSpec (some begin_) (some end_) strides masks) i =
      givenDim ⟨0, 0, some begin_, some end_, strides, masks⟩ i ∧
      (sparseSpec (some begin_) (some end_) strides masks).masks.newAxis = masks.newAxis := by
    intro i
    rw [sparseSpec]
    rcases countNewAxes masks (List.range strides.flat.length) false 0 with ⟨seen, count⟩
    cases seen <;> exact ⟨rfl, rfl⟩
  have hMem : ∀ d, d ∈ dimsOf (denseItems (sparseSpec (some begin_) (some end_) strides masks)
        rank e k) ↔
      d ∈ List.replicate (rank - givenDims (sparseSpec (some begin_) (some end_) strides masks) e k)
        DenseDim.all ∨
      ∃ i, (i < strides.flat.length ∧ masks.ellipsis.getLsbD i = false) ∧
        masks.newAxis.getLsbD i = false ∧
          d = givenDim ⟨0, 0, some begin_, some end_, strides, masks⟩ i := by
    intro d
    simp only [denseItems, itemsBefore, itemsAfter, dimsOf_append, dimsOf_all, List.mem_append,
      mem_dimsOf, h.entries, (hEntry 0).2]
    grind
  constructor
  · intro hForward d hd hShrink
    rcases (hMem d).mp hd with hAll | ⟨i, ⟨hi, hEllipsis⟩, hAxis, rfl⟩
    · rw [List.eq_of_mem_replicate hAll] at hShrink
      cases hShrink
    · exact hForward i hi hEllipsis hAxis hShrink
  · intro hForward i hi hEllipsis hAxis hShrink
    exact hForward _ ((hMem _).mpr (Or.inr ⟨i, ⟨hi, hEllipsis⟩, hAxis, rfl⟩)) hShrink

theorem length_denseItems {sparse : SparseSpec} {rank e k : Nat}
    (h : givenDims sparse e k ≤ rank) : (dimsOf (denseItems sparse rank e k)).length = rank := by
  rw [givenDims] at h
  simp only [denseItems, givenDims, dimsOf_append, dimsOf_all, List.length_append,
    List.length_replicate]
  omega

theorem and_pred_of_single {x : Mask}
    (hOne : ∀ i j, x.getLsbD i → x.getLsbD j → i = j) : x &&& (x - 1) = 0 := by
  have hPower : ∀ i : Fin 32, BitVec.twoPow 32 i &&& (BitVec.twoPow 32 i - 1) = 0 := by decide
  by_cases hBit : ∃ i, x.getLsbD i
  · obtain ⟨i, hi⟩ := hBit
    have hLess : i < 32 := BitVec.lt_of_getLsbD hi
    have hx : x = BitVec.twoPow 32 i := by
      apply BitVec.eq_of_getLsbD_eq
      intro j hj
      rw [BitVec.getLsbD_twoPow, Bool.eq_iff_iff]
      simp only [hLess, decide_true, Bool.true_and, decide_eq_true_eq]
      constructor
      · exact fun hBit => hOne i j hi hBit
      · rintro rfl
        exact hi
    rw [hx]
    exact hPower ⟨i, hLess⟩
  · have hx : x = 0#32 := by
      apply BitVec.eq_of_getLsbD_eq
      intro j hj
      rw [BitVec.getLsbD_zero, Bool.eq_false_iff]
      exact fun hSet => hBit ⟨j, hSet⟩
    rw [hx]
    rfl

section Whole

variable {n : Nat} {begin_ end_ strides : IndexTensor} {masks : Masks} {dims : List Nat}
variable (hBegin : begin_.shape = [n]) (hEnd : end_.shape = [n]) (hStrides : strides.shape = [n])
variable (hLess : n < 31)
variable (hOne : ∀ i j, masks.ellipsis.getLsbD i = true → masks.ellipsis.getLsbD j = true → i = j)

theorem length_of_vector {t : IndexTensor} (h : t.shape = [n]) : t.flat.length = n := by
  rw [t.length_flat, h, List.prod_singleton]

include hBegin hEnd hStrides hLess hOne

theorem validate_eq :
    validateStridedSliceOp (some begin_) (some end_) strides masks (dims.map some) =
    buildDenseSpec (sparseSpec (some begin_) (some end_) strides masks) dims.length >>= fun dense =>
      processDims true 0
          (dense.filled ++ List.replicate (dims.length - dense.filled.length) DenseDim.zero)
          (dims.map some) >>= fun processed =>
        .ok ⟨processed, gatherShape (processed.map ProcessedDim.size) dense.gather⟩ := by
  have hVector : ∀ {t : IndexTensor}, t.shape = [n] → t.isVector := by
    intro t h
    rw [IndexTensor.isVector, h]
    rfl
  have hShapes : ¬ (boundIsWrong strides (some 32) (some begin_) ∨
      boundIsWrong strides none (some end_) ∨ ¬ strides.isVector) := by
    simp only [boundIsWrong, hVector hBegin, hVector hEnd, hVector hStrides,
      length_of_vector hBegin, length_of_vector hEnd, length_of_vector hStrides]
    simp
    omega
  have hEllipses : ¬ (masks.ellipsis ≠ 0 ∧ masks.ellipsis &&& (masks.ellipsis - 1) ≠ 0) :=
    fun h => h.2 (and_pred_of_single hOne)
  rw [validateStridedSliceOp, if_neg hShapes, if_neg hEllipses, List.length_map]
  rfl

/-- A validation accepts what basic indexing does, and has the same ranges and shapes. -/
theorem validate_basicIndex :
    ((∃ v, validateStridedSliceOp (some begin_) (some end_) strides masks (dims.map some) = .ok v) ↔
      ShrinksForward strides masks ∧
        ∃ r, basicIndex (expression begin_ end_ strides masks) dims = some r) ∧
    ∀ v, validateStridedSliceOp (some begin_) (some end_) strides masks (dims.map some) = .ok v →
      ∃ r, basicIndex (expression begin_ end_ strides masks) dims = some r ∧
        r.selected.length = dims.length ∧
        v.processed.map ProcessedDim.selected = r.selected ∧
        v.processingShape = r.selected.map (fun indices => some indices.length) ∧
        v.finalShape = r.shape.map some := by
  have hEntries : strides.flat.length < 32 := by
    rw [length_of_vector hStrides]
    omega
  obtain ⟨e, k, hDenotes⟩ : ∃ e k, Denotes begin_ end_ strides masks e k :=
    exists_denotes hEntries hOne
  have hIndex := hDenotes.expand dims.length
  have hValidate := @validate_eq _ _ _ _ _ dims hBegin hEnd hStrides hLess hOne
  rcases lt_or_ge dims.length
      (givenDims (sparseSpec (some begin_) (some end_) strides masks) e k) with hOver | hRank
  · obtain ⟨status, hError⟩ := hDenotes.around.buildDenseSpec_error hOver
    rw [if_pos hOver] at hIndex
    rw [hError] at hValidate
    rw [hValidate, basicIndex, hIndex]
    refine ⟨⟨?_, ?_⟩, ?_⟩
    · rintro ⟨v, hv⟩
      cases hv
    · rintro ⟨-, r, hr⟩
      cases hr
    · intro v hv
      cases hv
  · have hLength := length_denseItems hRank
    have hForward := forward_iff hDenotes dims.length
    rw [if_neg (not_lt.mpr hRank)] at hIndex
    rw [hDenotes.around.buildDenseSpec_ok hRank, ok_bind] at hValidate
    simp only [hLength, Nat.sub_self, List.replicate_zero, List.append_nil] at hValidate
    rw [hValidate, basicIndex, hIndex]
    refine ⟨⟨?_, ?_⟩, ?_⟩
    · rintro ⟨v, hv⟩
      obtain ⟨processed, hProcessed, -⟩ := bind_eq_ok.mp hv
      obtain ⟨hShrinks, hSelect⟩ := select_of_processDims hLength hProcessed
      exact ⟨hForward.mpr hShrinks, hSelect⟩
    · rintro ⟨hShrinks, r, hSelect⟩
      obtain ⟨processed, hProcessed, -⟩ :=
        processDims_of_select 0 (hForward.mp hShrinks) hSelect
      exact ⟨_, bind_eq_ok.mpr ⟨processed, hProcessed, rfl⟩⟩
    · intro v hv
      obtain ⟨processed, hProcessed, hv⟩ := bind_eq_ok.mp hv
      obtain ⟨hShrinks, r, hSelect⟩ := select_of_processDims hLength hProcessed
      obtain ⟨processed', hProcessed', hSelects⟩ := processDims_of_select 0 hShrinks hSelect
      obtain rfl := Except.ok.inj (hProcessed.symm.trans hProcessed')
      obtain rfl := Except.ok.inj hv
      have hCount : processed.length = dims.length := by
        rw [← (processDims_specified hLength.symm hProcessed).length_eq, hLength]
      refine ⟨r, hSelect, ?_, hSelects.selected, hSelects.size, ?_⟩
      · rw [← hSelects.selected, List.length_map, hCount]
      · rw [gatherShape_gatherOf, List.drop_zero, hSelects.final]
        rw [List.length_map, hCount, hLength, zero_add]

end Whole

/-- `x[1:, ..., newaxis, -1]` of a shape `[4, 5, 6]`. -/
theorem validate_basicIndex_volume :
    ((∃ v, validateStridedSliceOp (some (vector [1, 0, 0, -1])) (some (vector [0, 0, 0, 0]))
        (vector [1, 1, 1, 1]) ⟨0, 1, 2, 4, 8⟩ ([4, 5, 6].map some) = .ok v) ↔
      ShrinksForward (vector [1, 1, 1, 1]) ⟨0, 1, 2, 4, 8⟩ ∧
        ∃ r, basicIndex (expression (vector [1, 0, 0, -1]) (vector [0, 0, 0, 0])
          (vector [1, 1, 1, 1]) ⟨0, 1, 2, 4, 8⟩) [4, 5, 6] = some r) ∧
    ∀ v, validateStridedSliceOp (some (vector [1, 0, 0, -1])) (some (vector [0, 0, 0, 0]))
        (vector [1, 1, 1, 1]) ⟨0, 1, 2, 4, 8⟩ ([4, 5, 6].map some) = .ok v →
      ∃ r, basicIndex (expression (vector [1, 0, 0, -1]) (vector [0, 0, 0, 0])
          (vector [1, 1, 1, 1]) ⟨0, 1, 2, 4, 8⟩) [4, 5, 6] = some r ∧
        r.selected.length = [4, 5, 6].length ∧
        v.processed.map ProcessedDim.selected = r.selected ∧
        v.processingShape = r.selected.map (fun indices => some indices.length) ∧
        v.finalShape = r.shape.map some := by
  have hSingle : ∀ i j, (2 : Mask).getLsbD i → (2 : Mask).getLsbD j → i = j := by
    have hBit : ∀ i, (2 : Mask).getLsbD i → i = 1 := by
      intro i hi
      rcases i with _ | _ | i
      · cases hi
      · rfl
      · have hLess := BitVec.lt_of_getLsbD hi
        have hAll : ∀ i : Fin 32, 2 ≤ i.val → (2 : Mask).getLsbD i = false := by decide
        rw [hAll ⟨i + 2, hLess⟩ (le_add_left _ _)] at hi
        cases hi
    intro i j hi hj
    rw [hBit i hi, hBit j hj]
  exact validate_basicIndex (n := 4) rfl rfl rfl (by decide) hSingle

end TensorFlowOnSpark.Util.StridedSlice
