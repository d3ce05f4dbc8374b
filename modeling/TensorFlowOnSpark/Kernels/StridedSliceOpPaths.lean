import TensorFlowOnSpark.Kernels.StridedSliceOp

/-!
# The paths of the strided slice kernel

Whichever branch `Compute` takes, its output has the final shape and the elements of the slice,
but for two branches: the slice of the first dimension, when it begins past its end, and the
copy of rows, when the rows are not counted by an `int` or are not those of the output.
-/

variable {ns : List Nat}

namespace TensorFlowOnSpark.Kernels.StridedSliceOp

open Framework Fallible RowMajor Util.StridedSlice List Nat Int

variable {α : Type}

def sizes (v : Validated) : List Nat := v.processingShape.map (Option.getD · 0)

def finalSizes (v : Validated) : List Nat := v.finalShape.map (Option.getD · 0)

def begins (v : Validated) : List Int := v.processed.map ProcessedDim.begin_

def ends (v : Validated) : List Int := v.processed.map ProcessedDim.end_

def strides (v : Validated) : List Int := v.processed.map ProcessedDim.stride

/-- The elements of the input at `begin + k * stride`, over the processing shape. -/
def elements (t : Tensor α) (v : Validated) : List (Option α) :=
  sliced t.shape t.data (begins v) (strides v) (sizes v)

def Computes (t : Tensor α) (v : Validated) (result : Except Failure (Output α)) : Prop :=
  result = .ok ⟨finalSizes v, elements t v⟩ ∧ ∀ x ∈ elements t v, x.isSome

def sizeOf (p : ProcessedDim) : Nat := intervalSize (p.end_ - p.begin_) p.stride

section Accepted

variable {i : Nat} {dims : List Nat} {processed : List ProcessedDim}

variable (h : ProcessedFrom i dims processed)
include h

theorem forall₂_processed : Forall₂ (fun n p => ∃ j, Processed j n p) dims processed := by
  induction dims generalizing i processed with
  | nil =>
    cases processed with
    | nil => exact Forall₂.nil
    | cons p processed => exact h.elim
  | cons n dims ih =>
    cases processed with
    | nil => exact h.elim
    | cons p processed => exact Forall₂.cons ⟨i, h.1⟩ (ih h.2)

theorem map_size : processed.map ProcessedDim.size = (processed.map sizeOf).map some := by
  have hAll := forall₂_processed h
  clear h
  induction hAll with
  | nil => rfl
  | cons hHead _ ih =>
    obtain ⟨j, hj⟩ := hHead
    rw [map_cons, map_cons, map_cons, ih, hj.size, sizeOf]

theorem sizes_le : Forall₂ (· ≤ ·) (processed.map sizeOf) dims := by
  rw [forall₂_map_left_iff]
  exact (forall₂_processed h).flip.imp fun _ _ ⟨_, hj⟩ => hj.size_le

theorem place_inBounds {k : List Nat} (hk : Forall₂ (· < ·) k (processed.map sizeOf)) :
    InBounds dims (place (processed.map ProcessedDim.begin_)
      (processed.map ProcessedDim.stride) k) := by
  have hAll := forall₂_processed h
  clear h
  induction hAll generalizing k with
  | nil =>
    cases hk
    trivial
  | cons hHead _ ih =>
    obtain ⟨j, hj⟩ := hHead
    obtain ⟨k₀, rest, hLess, hRest, rfl⟩ := forall₂_cons_right_iff.mp hk
    exact ⟨hj.inBounds hLess, ih hRest⟩

end Accepted

section Shapes

variable {items : List (Option DenseDim)}

theorem prod_finalOf (h : Forall₂ (fun d n => d.shrink → n = 1) (dimsOf items) ns) :
    (finalOf 1 items ns).prod = ns.prod := by
  induction items generalizing ns with
  | nil =>
    cases h
    rfl
  | cons item items ih =>
    cases item with
    | none => rw [finalOf, prod_cons, one_mul, ih h]
    | some d =>
      cases h with
      | @cons _ n _ ns hHead hTail =>
        simp only [finalOf]
        split
        · rename_i hShrink
          rw [ih hTail, prod_cons, hHead hShrink, one_mul]
        · rw [prod_cons, ih hTail, prod_cons]

theorem elementsFit_finalOf {n : Nat} (h : Forall₂ (fun d n => d.shrink → n = 1) (dimsOf items) ns)
    (hn : n ≤ kMaxElements) (hFit : elementsFit n ns) :
    elementsFit n (finalOf 1 items ns) := by
  induction items generalizing ns n with
  | nil => rfl
  | cons item items ih =>
    cases item with
    | none =>
      simp only [finalOf, elementsFit, mul_one, Bool.and_eq_true, decide_eq_true_eq]
      exact ⟨hn, ih h hn hFit⟩
    | some d =>
      cases h with
      | @cons _ m _ ns hHead hTail =>
        simp only [elementsFit, Bool.and_eq_true, decide_eq_true_eq] at hFit
        simp only [finalOf]
        split
        · rename_i hShrink
          rw [hHead hShrink, mul_one] at hFit
          exact ih hTail hn hFit.2
        · simp only [elementsFit, Bool.and_eq_true, decide_eq_true_eq]
          exact ⟨hFit.1, ih hTail hFit.1 hFit.2⟩

theorem length_finalOf_le {β : Type} (one : β) (items : List (Option DenseDim)) (ns : List β) :
    (finalOf one items ns).length ≤ items.length := by
  induction items generalizing ns with
  | nil => exact Nat.le_refl 0
  | cons item items ih =>
    cases item with
    | none => exact succ_le_succ (ih ns)
    | some d =>
      cases ns with
      | nil => exact zero_le _
      | cons n ns =>
        simp only [finalOf]
        split
        · exact le_succ_of_le (ih ns)
        · exact succ_le_succ (ih ns)

theorem tensorShape_map (hLength : ns.length ≤ 254) (hFit : elementsFit 1 ns) :
    tensorShape (ns.map some) = .ok ns := by
  have hSizes : (ns.map some).map (Option.getD · 0) = ns := by
    rw [map_map]
    exact map_id ns
  simp only [tensorShape, hSizes]
  rw [if_pos ⟨by simp, hLength, hFit⟩]

end Shapes

structure Accepted (t : Tensor α) (v : Validated) : Prop where
  processed : ProcessedFrom 0 t.shape v.processed
  items : ∃ items, v.Of t.shape.length items
  rank : t.shape.length ≤ 6

namespace Accepted

variable {t : Tensor α} {v : Validated} (h : Accepted t v)

include h

theorem sizes_eq : sizes v = v.processed.map sizeOf := by
  rw [sizes, Validated.processingShape, map_size h.processed, map_map]
  exact map_id _

theorem length_processed : v.processed.length = t.shape.length :=
  (forall₂_processed h.processed).length_eq.symm

theorem processing : tensorShape v.processingShape = .ok (sizes v) := by
  have hRank := h.rank
  rw [Validated.processingShape, map_size h.processed, h.sizes_eq]
  apply tensorShape_map
  · rw [length_map, h.length_processed]
    omega
  · exact elementsFit_mono (sizes_le h.processed) (Nat.le_refl 1) t.fits

theorem final : tensorShape v.finalShape = .ok (finalSizes v) ∧
    (finalSizes v).prod = (sizes v).prod := by
  have hRank := h.rank
  obtain ⟨items, hOf⟩ := h.items
  have hShape : v.finalShape = (finalOf 1 items (sizes v)).map some := by
    rw [hOf.finalShape, Validated.processingShape, map_size h.processed, h.sizes_eq, finalOf_map]
  have hSizes : finalSizes v = finalOf 1 items (sizes v) := by
    rw [finalSizes, hShape, map_map]
    exact map_id _
  have hShrunk : Forall₂ (fun d n => d.shrink → n = 1) (dimsOf items) (sizes v) := by
    have hBoth : Forall₂ (fun d s => d.shrink → s = some 1) (dimsOf items)
        (v.processed.map ProcessedDim.size) := forall₂_map_right_iff.mpr hOf.shrunk
    rw [map_size h.processed, forall₂_map_right_iff] at hBoth
    rw [h.sizes_eq]
    exact hBoth.imp fun _ _ hOne hShrink => Option.some.inj (hOne hShrink)
  have hFit : elementsFit 1 (sizes v) := by
    rw [h.sizes_eq]
    exact elementsFit_mono (sizes_le h.processed) (Nat.le_refl 1) t.fits
  constructor
  · rw [hShape, hSizes]
    apply tensorShape_map
    · have hLength := length_finalOf_le 1 items (sizes v)
      have hItems := hOf.length
      omega
    · exact elementsFit_finalOf hShrunk (by decide) hFit
  · rw [hSizes, prod_finalOf hShrunk]

theorem elements_isSome : ∀ x ∈ elements t v, x.isSome := by
  intro x hx
  obtain ⟨k, hk, rfl⟩ := mem_map.mp hx
  rw [h.sizes_eq, mem_indices] at hk
  exact at?_isSome (place_inBounds h.processed hk) (Nat.le_of_eq t.length_data.symm)

end Accepted

def TakesAll (dims : List Nat) (processed : List ProcessedDim) : Prop :=
  Forall₂ (fun (n : Nat) p => p.stride = 1 ∧ p.begin_ = 0 ∧ p.end_ = (n : Int)) dims processed

namespace TakesAll

variable {dims : List Nat} {processed : List ProcessedDim}

theorem maps (h : TakesAll dims processed) :
    processed.map ProcessedDim.begin_ = replicate dims.length 0 ∧
      processed.map ProcessedDim.stride = replicate dims.length 1 ∧
      processed.map sizeOf = dims := by
  induction h with
  | nil => exact ⟨rfl, rfl, rfl⟩
  | @cons n p _ _ hHead _ ih =>
    obtain ⟨hStride, hBegin, hEnd⟩ := hHead
    have hSize : sizeOf p = n := by
      rw [sizeOf, hStride, hBegin, hEnd]
      have hLess := lt_intervalSize (b := 0) (e := n) (s := 1) (by decide)
      simp only [zero_add, mul_one, ofNat_lt] at hLess
      exact Nat.le_antisymm (Nat.le_of_not_lt fun hNot => Nat.lt_irrefl _ ((hLess n).mp hNot))
        (Nat.le_of_not_lt fun hNot => Nat.lt_irrefl _ ((hLess _).mpr hNot))
    simp only [map_cons, length_cons, replicate_succ, ih, hBegin, hStride, hSize, and_self]

end TakesAll

variable {dims : List Nat} {processed : List ProcessedDim}

theorem takesAll_of_identity {i : Nat}
    (h : ProcessedFrom i dims processed)
    (hAll : ∀ p ∈ processed, p.isIdentity) : TakesAll dims processed := by
  have hProcessed := forall₂_processed h
  clear h
  induction hProcessed with
  | nil => exact Forall₂.nil
  | cons hHead _ ih =>
    obtain ⟨j, hj⟩ := hHead
    rw [forall_mem_cons] at hAll
    exact Forall₂.cons (hj.isIdentity.mp hAll.1) (ih hAll.2)

theorem takesAll_of_sliceDim0 {i : Nat}
    (h : ProcessedFrom (i + 1) dims processed)
    (hAll : ∀ p ∈ processed, p.sliceDim0) : TakesAll dims processed := by
  induction dims generalizing i processed with
  | nil =>
    cases processed with
    | nil => exact Forall₂.nil
    | cons p processed => exact h.elim
  | cons n dims ih =>
    cases processed with
    | nil => exact h.elim
    | cons p processed =>
      rw [forall_mem_cons] at hAll
      rcases h.1.sliceDim0.mp hAll.1 with ⟨hZero, -⟩ | hWhole
      · exact absurd hZero (succ_ne_zero i)
      · exact Forall₂.cons hWhole (ih h.2 hAll.2)

namespace Accepted

variable {t : Tensor α} {v : Validated} (h : Accepted t v)

include h

theorem elements_of_takesAll (hAll : TakesAll t.shape v.processed) :
    elements t v = t.data.map some ∧ sizes v = t.shape := by
  obtain ⟨hBegins, hStrides, hSizes⟩ := hAll.maps
  rw [elements, h.sizes_eq, begins, strides, hBegins, hStrides, hSizes,
    sliced_all _ _ (Nat.le_of_eq t.length_data.symm), ← t.length_data, take_length]
  exact ⟨rfl, rfl⟩

theorem computes_identity (hIdentity : v.isIdentity) :
    Computes t v (copyFrom (t.shape, t.data) (finalSizes v)) := by
  have hAll : TakesAll t.shape v.processed :=
    takesAll_of_identity h.processed (all_eq_true.mp hIdentity)
  obtain ⟨hElements, hSizes⟩ := h.elements_of_takesAll hAll
  have hProd : t.shape.prod = (finalSizes v).prod := by
    rw [h.final.2, hSizes]
  refine ⟨?_, h.elements_isSome⟩
  rw [copyFrom, check, if_pos hProd, hElements]
  rfl

end Accepted

theorem slice_of_le (t : Tensor α) {n : Nat} (hShape : t.shape = n :: dims)
    {b e : Int} (hb : 0 ≤ b) (hLe : b ≤ e) (he : e ≤ n) :
    slice t b e = .ok ((e - b).toNat :: dims,
      (t.data.drop (b.toNat * dims.prod)).take ((e - b).toNat * dims.prod)) := by
  have hProd : t.shape.prod = n * dims.prod := by rw [hShape, prod_cons]
  have hLength := t.length_data
  have hEnd : b.toNat + (e - b).toNat ≤ n := by omega
  have hRoom := mul_le_mul_right dims.prod hEnd
  rw [Nat.add_mul, ← hProd, ← hLength] at hRoom
  have hRank : 1 ≤ t.shape.length := by rw [hShape]; exact le_add_left 1 _
  have hHead : t.shape.headD 0 = n := by rw [hShape]; rfl
  simp only [slice, check, hRank, hb, hLe, he, hHead, if_true, ok_bind]
  split
  · rename_i hWhole
    obtain ⟨rfl, rfl⟩ := hWhole
    simp only [sub_zero, toNat_natCast, toNat_zero, zero_mul, drop_zero]
    rw [hShape, ← hProd, ← hLength, take_length]
  · rename_i hPart
    have hPositive : 0 < n := by omega
    have hFit : elementsFit 1 ((e - b).toNat :: dims) := by
      apply elementsFit_mono _ (Nat.le_refl 1) t.fits
      rw [hShape]
      exact Forall₂.cons (by omega) (forall₂_refl dims)
    have hSet : t.shape.set 0 (e - b).toNat = (e - b).toNat :: dims := by rw [hShape]; rfl
    have hElems : t.shape.prod / n = dims.prod := by
      rw [hProd, Nat.mul_div_cancel_left _ hPositive]
    simp only [hPositive, hSet, hFit, hElems, hRoom, if_true, ok_bind]

theorem slice_of_gt (t : Tensor α) {b e : Int} (h : e < b) : ∀ part, slice t b e ≠ .ok part := by
  intro part hOk
  have hNot : ¬ b ≤ e := by omega
  simp only [slice, bind_eq_ok, hNot] at hOk
  obtain ⟨_, -, _, -, _, hFails, -⟩ := hOk
  cases hFails

namespace Accepted

variable {t : Tensor α} {v : Validated} (h : Accepted t v)

include h

/-- The branch of the first dimension is right exactly when the slice does not begin past its
end. -/
theorem computes_dim0_iff (hNotIdentity : v.isIdentity ≠ true) (hDim0 : v.sliceDim0) :
    Computes t v (do
        check (1 ≤ t.shape.length)
        let part ← slice t (nth (begins v) 0) (nth (ends v) 0)
        copyFrom part (finalSizes v)) ↔
      nth (begins v) 0 ≤ nth (ends v) 0 := by
  have hProcessed := h.processed
  have hFlags : ∀ p ∈ v.processed, p.sliceDim0 := all_eq_true.mp hDim0
  obtain ⟨n, dims, hShape⟩ : ∃ n dims, t.shape = n :: dims := by
    apply exists_cons_of_ne_nil
    intro hNil
    rw [hNil] at hProcessed
    apply hNotIdentity
    rw [Validated.isIdentity]
    cases hv : v.processed with
    | nil => rfl
    | cons p rest =>
      rw [hv] at hProcessed
      exact hProcessed.elim
  rw [hShape] at hProcessed
  obtain ⟨p, rest, hv⟩ : ∃ p rest, v.processed = p :: rest := by
    apply exists_cons_of_ne_nil
    intro hNil
    rw [hNil] at hProcessed
    exact hProcessed
  rw [hv] at hProcessed hFlags
  rw [forall_mem_cons] at hFlags
  obtain ⟨hp, hRest⟩ := hProcessed
  have hStride : p.stride = 1 := by
    rcases hp.sliceDim0.mp hFlags.1 with hFirst | hWhole
    · exact hFirst.2
    · exact hWhole.1
  obtain ⟨hLow, -, hHigh⟩ := hp.ahead (by omega)
  have hBegin : nth (begins v) 0 = p.begin_ := by
    rw [begins, hv]
    rfl
  have hEnd : nth (ends v) 0 = p.end_ := by
    rw [ends, hv]
    rfl
  have hRank : 1 ≤ t.shape.length := by
    rw [hShape]
    exact le_add_left 1 _
  rw [hBegin, hEnd, check, if_pos hRank, ok_bind]
  constructor
  · rintro ⟨hOk, -⟩
    by_contra hNot
    simp only [bind_eq_ok] at hOk
    obtain ⟨part, hPart, -⟩ := hOk
    exact slice_of_gt t (by omega) part hPart
  · intro hLe
    obtain ⟨hBegins, hStrides, hSizes⟩ := (takesAll_of_sliceDim0 hRest hFlags.2).maps
    have hSize : sizeOf p = (p.end_ - p.begin_).toNat := hp.size_of_simple hStride
    have hAll : sizes v = (p.end_ - p.begin_).toNat :: dims := by
      rw [h.sizes_eq, hv, map_cons, hSize, hSizes]
    have hLength : n * dims.prod ≤ t.data.length :=
      Nat.le_of_eq (by rw [t.length_data, hShape, prod_cons])
    have hElements : elements t v =
        ((t.data.drop (p.begin_.toNat * dims.prod)).take
          ((p.end_ - p.begin_).toNat * dims.prod)).map some := by
      rw [elements, hAll, begins, strides, hv, map_cons, map_cons, hStride, hBegins,
        hStrides, hShape]
      exact sliced_block dims t.data hLow (by omega) hLength (sliced_all dims)
    have hProd : ((p.end_ - p.begin_).toNat :: dims).prod = (finalSizes v).prod := by
      rw [h.final.2, hAll]
    refine ⟨?_, h.elements_isSome⟩
    rw [slice_of_le t hShape hLow hLe hHigh, ok_bind, copyFrom, check, if_pos hProd, hElements]
    rfl

end Accepted

variable {data : List α}

theorem copyRow_next {source : Nat} {target : Int} {n : Nat}
    {done rest : List (Option α)} (hSource : source + n ≤ data.length)
    (hTarget : target = done.length) (hRest : n ≤ rest.length) :
    copyRow data source target n (done ++ rest) =
      .ok (done ++ ((data.drop source).take n).map some ++ rest.drop n) := by
  have hFits : 0 ≤ (source : Int) ∧ (source : Int) + n ≤ data.length ∧ 0 ≤ target ∧
      target + n ≤ (done ++ rest).length := by
    rw [length_append]
    omega
  rw [copyRow, if_pos hFits, hTarget]
  simp

theorem copyRow_leaves {source target : Int} {n : Nat} {out out' : List (Option α)}
    (h : copyRow data source target n out = .ok out') :
    target + n ≤ out.length ∧ out'.length = out.length ∧
      ∀ j : Nat, target + n ≤ j → out'[j]? = out[j]? := by
  rw [copyRow] at h
  split at h
  · rename_i hFits
    have hRow : (((data.drop source.toNat).take n).map some).length = n := by
      rw [length_map, length_take, length_drop]
      omega
    have hBefore : (out.take target.toNat).length = target.toNat := by
      rw [length_take]
      omega
    rw [← Except.ok.inj h]
    refine ⟨hFits.2.2.2, ?_, ?_⟩
    · rw [length_append, length_append, length_drop]
      omega
    · intro j hj
      rw [getElem?_append_right (by rw [length_append]; omega), length_append, getElem?_drop]
      congr 1
      omega
  · cases h

section Rows

variable {data : List α} {width column finalWidth : Int} {n : Nat}

/-- The rows are copied one behind the other; `done` is what has been written. -/
theorem copyRows_next {width column : Nat} (hColumn : column + n ≤ width) (rows : Nat) (rowIn : Nat)
    (rowOut : Int) (done rest : List (Option α)) (hIn : ((rowIn + rows : Nat) : Int) ≤ intMax)
    (hOut : rowOut + rows ≤ intMax) (hData : (rowIn + rows) * width ≤ data.length)
    (hTargets : ∀ k : Nat, k < rows → (rowOut + k) * finalWidth = done.length + k * n)
    (hRest : rest.length = rows * n) :
    copyRows data width column finalWidth n rows rowIn rowOut (done ++ rest) =
      .ok (done ++ ((List.range rows).flatMap fun k =>
        (data.drop ((rowIn + k) * width + column)).take n).map some) := by
  induction rows generalizing rowIn rowOut done rest with
  | zero =>
    rw [Nat.zero_mul] at hRest
    rw [length_eq_zero_iff.mp hRest]
    simp [copyRows]
  | succ rows ih =>
    have hRow : (rowIn + 1) * width ≤ (rowIn + (rows + 1)) * width :=
      Nat.mul_le_mul_right _ (by omega)
    rw [succ_mul] at hRow hRest
    have hSource : rowIn * width + column + n ≤ data.length := by omega
    have hTarget : rowOut * finalWidth = done.length := by
      have hFirst := hTargets 0 (by omega)
      simpa using hFirst
    have hRoom : n ≤ rest.length := by omega
    have hCopy := copyRow_next hSource hTarget hRoom
    rw [natCast_add, natCast_mul] at hCopy
    have hLength : (((data.drop (rowIn * width + column)).take n).map some).length = n := by
      rw [length_map, length_take, length_drop]
      omega
    have hRowIn : increment rowIn = .ok ((rowIn + 1 : Nat) : Int) := by
      rw [increment, if_pos (by omega)]
      rfl
    have hRowOut : increment rowOut = .ok (rowOut + 1) := by
      rw [increment, if_pos (by omega)]
    rw [copyRows, hCopy, ok_bind, hRowIn, ok_bind, hRowOut, ok_bind, ih]
    · rw [append_assoc, range_succ_eq_map, flatMap_cons, map_append, flatMap_map]
      simp only [Nat.add_zero, Nat.add_assoc, Nat.add_comm 1]
    · omega
    · omega
    · rw [Nat.add_assoc, Nat.add_comm 1]
      exact hData
    · intro k hk
      have hNext := hTargets (k + 1) (by omega)
      rw [length_append]
      push_cast at hNext ⊢
      rw [Int.add_assoc, Int.add_comm 1, hNext, Int.add_mul]
      omega
    · rw [length_drop]
      omega

theorem copyRows_overflow {stop : Int} (hStop : intMax < stop) (rows : Nat) (rowIn rowOut : Int)
    (out out' : List (Option α)) (hRowIn : rowIn ≤ intMax) (hRows : (stop - rowIn).toNat = rows) :
    copyRows data width column finalWidth n rows rowIn rowOut out ≠ .ok out' := by
  induction rows generalizing rowIn rowOut out with
  | zero => omega
  | succ rows ih =>
    intro hOk
    simp only [copyRows, bind_eq_ok] at hOk
    obtain ⟨next, -, rowIn', hIncrement, rowOut', -, hRest⟩ := hOk
    rw [increment] at hIncrement
    split at hIncrement
    · rename_i hLess
      obtain rfl := Except.ok.inj hIncrement
      exact ih (rowIn + 1) rowOut' next (by omega) (by omega) hRest
    · cases hIncrement

theorem copyRows_leaves (rows : Nat) (rowIn rowOut : Int) (out out' : List (Option α))
    (h : copyRows data width column finalWidth n rows rowIn rowOut out = .ok out') :
    (∀ k : Nat, k < rows → (rowOut + k) * finalWidth + n ≤ out.length) ∧
      ∀ j : Nat, (∀ k : Nat, k < rows → (rowOut + k) * finalWidth + n ≤ j) →
        out'[j]? = out[j]? := by
  induction rows generalizing rowIn rowOut out with
  | zero =>
    rw [← Except.ok.inj h]
    exact ⟨fun k hk => absurd hk (not_lt_zero k), fun j _ => rfl⟩
  | succ rows ih =>
    simp only [copyRows, bind_eq_ok] at h
    obtain ⟨next, hCopy, rowIn', -, rowOut', hIncrement, hRest⟩ := h
    obtain ⟨hFits, hLength, hSame⟩ := copyRow_leaves hCopy
    have hNext : rowOut' = rowOut + 1 := by
      rw [increment] at hIncrement
      split at hIncrement
      · exact (Except.ok.inj hIncrement).symm
      · cases hIncrement
    obtain ⟨hFits', hSame'⟩ := ih rowIn' rowOut' next hRest
    rw [hNext, hLength] at hFits'
    rw [hNext] at hSame'
    constructor
    · intro k hk
      cases k with
      | zero => simpa using hFits
      | succ k =>
        have hRow := hFits' k (by omega)
        rw [add_assoc, add_comm 1] at hRow
        exact_mod_cast hRow
    · intro j hj
      have hFirst := hj 0 (by omega)
      rw [hSame', hSame j (by simpa using hFirst)]
      intro k hk
      have hRow := hj (k + 1) (by omega)
      rw [add_assoc, add_comm 1]
      exact_mod_cast hRow

end Rows

theorem rows_short {finalWidth n m : Nat} (hm : 0 < m) (hFits : m * finalWidth + n ≤ (m + 1) * n)
    (hDiffer : finalWidth ≠ n) {k : Nat} (hk : k ≤ m) : k * finalWidth + n ≤ (m + 1) * n - 1 := by
  rw [succ_mul] at hFits ⊢
  have hLe : finalWidth ≤ n := Nat.le_of_mul_le_mul_left (Nat.le_of_add_le_add_right hFits) hm
  have hLess : m * (finalWidth + 1) ≤ m * n := mul_le_mul_left m (by omega)
  have hRow : k * finalWidth ≤ m * finalWidth := mul_le_mul_right _ hk
  rw [mul_succ] at hLess
  omega

/-- The rows of the slice are counted by an `int`, and they are those of the output: there is
one of them, or they are as long. -/
def RowsFit (v : Validated) : Prop :=
  nth (ends v) 0 ≤ intMax ∧
    (nth (ends v) 0 ≤ nth (begins v) 0 + 1 ∨
      ((finalSizes v).getD 1 0 : Int) = nth (ends v) 1 - nth (begins v) 1)

instance (v : Validated) : Decidable (RowsFit v) :=
  inferInstanceAs (Decidable (_ ∧ _))

namespace Accepted

variable {t : Tensor α} {v : Validated} (h : Accepted t v)

include h

/-- The branch that copies rows is right exactly when they fit. -/
theorem computes_matrix_iff (hSimple : v.isSimpleSlice = true) (hRank : t.shape.length = 2)
    (hSome : 0 < (sizes v).prod) :
    Computes t v (copyMatrix t (begins v) (ends v) (finalSizes v)) ↔ RowsFit v := by
  have hProcessed := h.processed
  have hLength := h.length_processed
  obtain ⟨n₀, n₁, hShape⟩ := length_eq_two.mp hRank
  obtain ⟨p₀, p₁, hv⟩ := length_eq_two.mp (hLength.trans hRank)
  rw [hShape, hv] at hProcessed
  obtain ⟨hp₀, hp₁, -⟩ := hProcessed
  have hFlags := all_eq_true.mp hSimple
  rw [hv, forall_mem_cons, forall_mem_singleton] at hFlags
  have hStride₀ := hp₀.isSimpleSlice.mp hFlags.1
  have hStride₁ := hp₁.isSimpleSlice.mp hFlags.2
  have hSize₀ : sizeOf p₀ = (p₀.end_ - p₀.begin_).toNat := hp₀.size_of_simple hStride₀
  have hSize₁ : sizeOf p₁ = (p₁.end_ - p₁.begin_).toNat := hp₁.size_of_simple hStride₁
  obtain ⟨hLow₀, -, hHigh₀⟩ := hp₀.ahead (by omega)
  obtain ⟨hLow₁, -, hHigh₁⟩ := hp₁.ahead (by omega)
  have hBegins : begins v = [p₀.begin_, p₁.begin_] := by rw [begins, hv]; rfl
  have hEnds : ends v = [p₀.end_, p₁.end_] := by rw [ends, hv]; rfl
  have hSizes : sizes v = [(p₀.end_ - p₀.begin_).toNat, (p₁.end_ - p₁.begin_).toNat] := by
    rw [h.sizes_eq, hv, map_cons, map_cons, hSize₀, hSize₁]
    rfl
  obtain ⟨b₀, hb₀⟩ := eq_ofNat_of_zero_le hLow₀
  obtain ⟨b₁, hb₁⟩ := eq_ofNat_of_zero_le hLow₁
  obtain ⟨rows, hRows⟩ : ∃ rows, (p₀.end_ - p₀.begin_).toNat = rows := ⟨_, rfl⟩
  obtain ⟨n, hn⟩ : ∃ n, (p₁.end_ - p₁.begin_).toNat = n := ⟨_, rfl⟩
  rw [hRows, hn] at hSizes
  rw [hSizes, prod_cons, prod_singleton] at hSome
  have hRowsPositive : 0 < rows := Nat.pos_of_mul_pos_right hSome
  have hnPositive : 0 < n := Nat.pos_of_mul_pos_left hSome
  have hProd : (finalSizes v).prod = rows * n := by
    rw [h.final.2, hSizes, prod_cons, prod_singleton]
  have hData : n₀ * n₁ ≤ t.data.length :=
    Nat.le_of_eq (by rw [t.length_data, hShape, prod_cons, prod_singleton])
  have hElements : elements t v = ((List.range rows).flatMap fun k =>
      (t.data.drop ((b₀ + k) * n₁ + b₁)).take n).map some := by
    rw [elements, hBegins, strides, hv, hSizes, hShape, map_cons, map_cons, hStride₀,
      hStride₁, hb₀, hb₁]
    exact sliced_rows t.data hData (by omega) (by omega)
  have hWidth : ((t.shape.getD 1 0 : Nat) : Int) = n₁ := by rw [hShape]; rfl
  simp only [RowsFit, copyMatrix, hBegins, hEnds, nth, getD_cons_zero, getD_cons_succ, hn,
    hProd, hWidth]
  by_cases hInt : p₀.end_ ≤ intMax
  · have hMod : p₀.begin_.bmod (2 ^ 32) = b₀ := by
      rw [hb₀]
      apply bmod_eq_of_le_mul_two <;> simp only [intMax] at hInt <;> omega
    have hCount : (p₀.end_ - (b₀ : Int)).toNat = rows := by rw [← hb₀, hRows]
    rw [hMod, hCount, and_iff_right hInt]
    constructor
    · rintro ⟨hOk, hIsSome⟩
      simp only [bind_eq_ok] at hOk
      obtain ⟨out, hCopy, hOut⟩ := hOk
      obtain ⟨-, rfl⟩ := Output.mk.inj (Except.ok.inj hOut)
      obtain ⟨hFits, hSame⟩ := copyRows_leaves rows _ _ _ _ hCopy
      by_contra hNot
      push Not at hNot
      obtain ⟨m, rfl⟩ : ∃ m, rows = m + 1 := ⟨rows - 1, by omega⟩
      have hLast := hFits m (Nat.lt_succ_self m)
      rw [Int.zero_add, length_replicate] at hLast
      have hUnwritten : (elements t v)[(m + 1) * n - 1]? = some none := by
        have hEnd : (m + 1) * n - 1 < (m + 1) * n := sub_lt hSome Nat.zero_lt_one
        rw [hSame, getElem?_replicate, if_pos hEnd]
        intro k hk
        have hNot : (finalSizes v).getD 1 0 ≠ n := by omega
        have hRow := rows_short (by omega) (by exact_mod_cast hLast) hNot (le_of_lt_succ hk)
        rw [Int.zero_add]
        exact_mod_cast hRow
      have hIsSome' := hIsSome none (mem_of_getElem? hUnwritten)
      cases hIsSome'
    · intro hFit
      have hTargets : ∀ k : Nat, k < rows →
          (0 + (k : Int)) * ((finalSizes v).getD 1 0 : Nat) =
            ([] : List (Option α)).length + k * n := by
        intro k hk
        rcases hFit with hOne | hSame
        · have hZero : k = 0 := by omega
          simp [hZero]
        · rw [length_nil, Int.zero_add, Int.natCast_zero, Int.zero_add]
          congr 1
          omega
      have hCopy := copyRows_next (show b₁ + n ≤ n₁ by omega)
        rows b₀ 0 [] (List.replicate (rows * n) none) (by omega) (by omega)
        (Nat.le_trans (Nat.mul_le_mul_right n₁ (by omega)) hData) hTargets (by simp)
      rw [nil_append, ← hElements, ← hb₁] at hCopy
      exact ⟨by rw [hCopy]; rfl, h.elements_isSome⟩
  · constructor
    · rintro ⟨hOk, -⟩
      simp only [bind_eq_ok] at hOk
      obtain ⟨out, hCopy, -⟩ := hOk
      have hBound := bmod_lt (x := p₀.begin_) (m := 2 ^ 32) (by decide)
      exact absurd hCopy (copyRows_overflow (by omega) _ _ _ _ _
        (by simp only [intMax]; omega) rfl)
    · rintro ⟨hFits, -⟩
      exact absurd hFits hInt

end Accepted

namespace Accepted

variable {t : Tensor α} {v : Validated} (h : Accepted t v)

include h

theorem inBounds_indices :
    ∀ k ∈ indices (sizes v), InBounds t.shape (place (begins v) (strides v) k) := by
  intro k hk
  rw [h.sizes_eq, mem_indices] at hk
  exact place_inBounds h.processed hk

theorem simple_maps (hSimple : v.isSimpleSlice) :
    strides v = replicate (begins v).length 1 ∧
      sizes v = ((ends v).zipWith (· - ·) (begins v)).map toNat := by
  have hFlags := all_eq_true.mp hSimple
  have hAll := forall₂_processed h.processed
  have hStrides : ∀ p ∈ v.processed, p.stride = 1 ∧ sizeOf p = (p.end_ - p.begin_).toNat := by
    intro p hp
    obtain ⟨j, hj, hGet⟩ := mem_iff_getElem.mp hp
    obtain ⟨i, hi⟩ := (forall₂_iff_get.mp hAll).2 j (hAll.length_eq ▸ hj) hj
    rw [get_eq_getElem, get_eq_getElem, hGet] at hi
    have hStride := hi.isSimpleSlice.mp (hFlags p hp)
    exact ⟨hStride, hi.size_of_simple hStride⟩
  rw [h.sizes_eq, begins, ends, strides, length_map, zipWith_map]
  constructor
  · rw [eq_replicate_iff, length_map]
    refine ⟨rfl, ?_⟩
    intro s hs
    obtain ⟨p, hp, rfl⟩ := mem_map.mp hs
    exact (hStrides p hp).1
  · rw [zipWith_self, map_map]
    exact map_congr_left fun p hp => (hStrides p hp).2

theorem steps : Forall₂ (fun b n => b.2.2 ≠ 0 ∧ Steps b.1 b.2.1 b.2.2 n)
    ((begins v).zip ((ends v).zip (strides v))) (sizes v) := by
  have hAll := forall₂_processed h.processed
  rw [h.sizes_eq, begins, ends, strides, zip_map', zip_map', forall₂_map_left_iff,
    forall₂_map_right_iff, forall₂_same]
  intro p hp
  obtain ⟨j, hj, hGet⟩ := mem_iff_getElem.mp hp
  obtain ⟨i, hi⟩ := (forall₂_iff_get.mp hAll).2 j (hAll.length_eq ▸ hj) hj
  rw [get_eq_getElem, get_eq_getElem, hGet] at hi
  exact ⟨hi.stride, lt_intervalSize hi.stride⟩

theorem computes_general (eigen : Eigen α) :
    Computes t v (handleStridedSliceCase eigen t (begins v) (ends v) (strides v) (sizes v)
      (finalSizes v) v.isSimpleSlice) := by
  refine ⟨?_, h.elements_isSome⟩
  rw [handleStridedSliceCase, check, if_pos h.final.2.symm]
  cases hSimple : v.isSimpleSlice with
  | false =>
    have hElements := eigen.stridedSlice_eq t.shape t.data (begins v) (ends v) (strides v) (sizes v)
      t.length_data h.steps h.inBounds_indices
    rw [elements, ← hElements]
    rfl
  | true =>
    obtain ⟨hStrides, hSizes⟩ := h.simple_maps hSimple
    have hInBounds := h.inBounds_indices
    rw [hStrides, hSizes] at hInBounds
    have hElements := eigen.slice_eq t.shape t.data (begins v) _ t.length_data hInBounds
    rw [elements, hStrides, hSizes, ← hElements]
    rfl

theorem computes_empty (hNone : (sizes v).prod = 0) :
    Computes t v (.ok ⟨finalSizes v, replicate (finalSizes v).prod none⟩) := by
  have hElements : elements t v = [] := by
    rw [elements, sliced, indices_eq_nil hNone]
    rfl
  refine ⟨?_, h.elements_isSome⟩
  rw [h.final.2, hNone, hElements]
  rfl

end Accepted

def takesRows (align : Nat) (type : ElementType) (t : Tensor α) (v : Validated) : Bool :=
  !v.isIdentity && !takesDim0 align type t v && decide (0 < (sizes v).prod) && isMatrixCopy type t v

theorem Accepted.computes_iff {t : Tensor α} {v : Validated} (h : Accepted t v) (eigen : Eigen α)
    (align : Nat) (type : ElementType) :
    Computes t v (computeValidated eigen align type t v) ↔
      (takesDim0 align type t v → nth (begins v) 0 ≤ nth (ends v) 0) ∧
        (takesRows align type t v → RowsFit v) := by
  rw [computeValidated, h.processing, ok_bind, h.final.1, ok_bind]
  cases hIdentity : v.isIdentity with
  | true =>
    simp only [takesRows, takesDim0, hIdentity, Bool.not_true, Bool.false_and, Bool.false_eq_true,
      false_implies, and_self, iff_true]
    exact h.computes_identity hIdentity
  | false =>
    cases hDim0 : takesDim0 align type t v with
    | true =>
      have hSlice : v.sliceDim0 := by
        simp only [takesDim0, Bool.and_eq_true] at hDim0
        exact hDim0.1.2
      simp only [takesRows, hDim0, Bool.not_true, Bool.and_false, Bool.false_and,
        Bool.false_eq_true, false_implies, and_true, true_implies]
      exact h.computes_dim0_iff (by rw [hIdentity]; exact Bool.false_ne_true) hSlice
    | false =>
      by_cases hSome : 0 < (sizes v).prod
      · rw [if_pos hSome]
        cases hMatrix : isMatrixCopy type t v with
        | true =>
          simp only [takesRows, hIdentity, hDim0, hSome, hMatrix, Bool.not_false, decide_true,
            Bool.and_self, Bool.false_eq_true, false_implies, true_implies, true_and]
          simp only [isMatrixCopy, Bool.and_eq_true, beq_iff_eq] at hMatrix
          exact h.computes_matrix_iff hMatrix.1.1.1.1 hMatrix.1.1.1.2 hSome
        | false =>
          have hRank := h.rank
          have hDims : 1 ≤ (sizes v).length ∧ (sizes v).length ≤ 6 := by
            rw [h.sizes_eq, length_map, h.length_processed]
            refine ⟨?_, hRank⟩
            by_contra hNot
            have hNil : v.processed = [] := by
              apply eq_nil_of_length_eq_zero
              rw [h.length_processed]
              omega
            rw [Validated.isIdentity, hNil] at hIdentity
            cases hIdentity
          rw [if_pos hDims]
          simp only [takesRows, hMatrix, Bool.and_false, Bool.false_eq_true, false_implies,
            and_self, iff_true]
          exact h.computes_general eigen
      · simp only [takesRows, hSome, decide_false, Bool.and_false, Bool.false_and,
          Bool.false_eq_true, false_implies, and_self, iff_true]
        exact h.computes_empty (Nat.eq_zero_of_not_pos hSome)

/-- The kernel gives the slice that is meant exactly when it does not slice the first dimension
from behind its end, and does not copy rows that do not fit. -/
theorem compute_computes_iff (eigen : Eigen α) (align : Nat) (type : ElementType) {t : Tensor α}
    (hRank : t.shape.length ≤ 6) {begin_ end_ strides_ : IndexTensor} {masks : Masks}
    {v : Validated}
    (hValid : validateStridedSliceOp (some begin_) (some end_) strides_ masks (t.shape.map some) =
      .ok v) :
    Computes t v (compute eigen align type t begin_ end_ strides_ masks) ↔
      (takesDim0 align type t v → nth (begins v) 0 ≤ nth (ends v) 0) ∧
        (takesRows align type t v → RowsFit v) := by
  obtain ⟨hProcessed, hItems⟩ := validate_accepts hValid
  have h : Accepted t v := ⟨hProcessed, hItems, hRank⟩
  rw [compute, hValid]
  exact h.computes_iff eigen align type

theorem map_some_filterMap {xs : List (Option α)} (h : ∀ x ∈ xs, x.isSome) :
    (xs.filterMap id).map some = xs := by
  induction xs with
  | nil => rfl
  | cons x xs ih =>
    rw [forall_mem_cons] at h
    obtain ⟨y, rfl⟩ := Option.isSome_iff_exists.mp h.1
    exact congrArg (some y :: ·) (ih h.2)

theorem sliced_isSome {dims : List Nat} {starts steps : List Int}
    (hLength : data.length = dims.prod) (h : ∀ k ∈ indices ns, InBounds dims (place starts steps k))
    :
    ∀ x ∈ sliced dims data starts steps ns, x.isSome := by
  intro x hx
  obtain ⟨k, hk, rfl⟩ := mem_map.mp hx
  exact at?_isSome (h k hk) (Nat.le_of_eq hLength.symm)

/-- The slices computed element by element. -/
def Eigen.reference (α : Type) : Eigen α where
  slice dims data starts sizes :=
    (sliced dims data starts (replicate starts.length 1) (sizes.map toNat)).filterMap id
  stridedSlice dims data starts stops strides :=
    (sliced dims data starts strides ((starts.zip (stops.zip strides)).map fun b =>
      intervalSize (b.2.1 - b.1) b.2.2)).filterMap id
  slice_eq := by
    intro dims data starts sizes hLength hInBounds
    exact map_some_filterMap (sliced_isSome hLength hInBounds)
  stridedSlice_eq := by
    intro dims data starts stops strides sizes hLength hSteps hInBounds
    have hSizes : (starts.zip (stops.zip strides)).map
        (fun b => intervalSize (b.2.1 - b.1) b.2.2) = sizes := by
      rw [← forall₂_eq_eq_eq, forall₂_map_left_iff]
      apply hSteps.imp
      rintro b n ⟨hStride, hSteps⟩
      apply Nat.le_antisymm
      · apply Nat.le_of_not_lt
        intro hLess
        exact Nat.lt_irrefl _ ((hSteps _).mpr ((lt_intervalSize hStride _).mp hLess))
      · apply Nat.le_of_not_lt
        intro hLess
        exact Nat.lt_irrefl _ ((lt_intervalSize hStride _).mpr ((hSteps _).mp hLess))
    rw [hSizes]
    exact map_some_filterMap (sliced_isSome hLength hInBounds)

def numbered (shape : List Nat) (h : elementsFit 1 shape) : Tensor Nat :=
  ⟨shape, range shape.prod, length_range, h⟩

/-- `x[1:3]` of a vector. -/
theorem compute_computes_iff_vector :
    Computes (numbered [4] rfl) ⟨[⟨1, 3, 1, some 2, false, true, true⟩], [some 2]⟩
        (compute (Eigen.reference Nat) 32 ⟨4, true⟩ (numbered [4] rfl) (vector [1]) (vector [3])
          (vector [1]) ⟨0, 0, 0, 0, 0⟩) ↔
      (takesDim0 32 ⟨4, true⟩ (numbered [4] rfl)
          ⟨[⟨1, 3, 1, some 2, false, true, true⟩], [some 2]⟩ →
        nth (begins ⟨[⟨1, 3, 1, some 2, false, true, true⟩], [some 2]⟩) 0 ≤
          nth (ends ⟨[⟨1, 3, 1, some 2, false, true, true⟩], [some 2]⟩) 0) ∧
      (takesRows 32 ⟨4, true⟩ (numbered [4] rfl)
          ⟨[⟨1, 3, 1, some 2, false, true, true⟩], [some 2]⟩ →
        RowsFit ⟨[⟨1, 3, 1, some 2, false, true, true⟩], [some 2]⟩) :=
  compute_computes_iff (Eigen.reference Nat) 32 ⟨4, true⟩ (by decide) rfl

/-- `x[3:1]` of a matrix whose rows are aligned fails a check of `Tensor::Slice`; the column
`x[tf.newaxis, :, 0]` of a matrix is copied past the end of the output. -/
theorem degenerate_and_newAxis_fail :
    compute (Eigen.reference Nat) 32 ⟨4, true⟩ (numbered [4, 8] rfl) (vector [3]) (vector [1])
        (vector [1]) ⟨0, 0, 0, 0, 0⟩ = .error .check ∧
      compute (Eigen.reference Nat) 32 ⟨4, true⟩ (numbered [3, 4] rfl) (vector [0, 0, 0])
        (vector [0, 0, 1]) (vector [1, 1, 1]) ⟨2, 2, 0, 1, 4⟩ = .error .undefined := by
  constructor
  · rfl
  · rfl

end TensorFlowOnSpark.Kernels.StridedSliceOp
