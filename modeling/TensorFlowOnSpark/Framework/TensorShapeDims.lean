import TensorFlowOnSpark.Framework.TensorShape

/-!
# Which representation a list of dimensions ends up in

`AddDim` starts from the empty shape and changes the representation when the next
dimension does not fit the present one.
-/

namespace TensorFlowOnSpark.Framework.TensorShape

open Bytes List Nat

section Write

variable {s : TensorShape} {start : Nat} {src : List UInt8} (h : start + src.length ≤ 16)

theorem getD_write (i : Nat) : (s.write start src h).buf.getD i 0 =
    if start ≤ i ∧ i < start + src.length then src.getD (i - start) 0 else s.buf.getD i 0 := by
  simp only [write, getD_eq_getElem?_getD]
  rw [getElem?_writeAt (by rw [s.buf_length]; exact h)]
  split <;> rfl

theorem tag_write (hEnd : start + src.length ≤ 15) : (s.write start src h).tag = s.tag := by
  rw [tag, getD_write h, if_neg (by omega)]
  rfl

theorem ndims_write (hApart : start + src.length ≤ 14 ∨ 15 ≤ start) :
    (s.write start src h).ndims = s.ndims := by
  rw [ndims, getD_write h, if_neg (by omega)]
  rfl

theorem load_write_disjoint {at' width : Nat}
    (hApart : at' + width ≤ start ∨ start + src.length ≤ at') :
    (s.write start src h).load at' width = s.load at' width := by
  rw [load, load, write, slice_writeAt_disjoint (by rw [s.buf_length]; exact h) hApart]

theorem pointer_write_disjoint (hApart : 8 ≤ start) :
    (s.write start src h).pointer = s.pointer := by
  rw [pointer, pointer, write, slice_writeAt_disjoint (by rw [s.buf_length]; exact h) (by omega)]

end Write

@[simp] theorem tag_setTag (s : TensorShape) (t : UInt8) : (s.setTag t).tag = t := by
  rw [tag, setTag, getD_write (by simp)]
  rfl

@[simp] theorem tag_setNdims (s : TensorShape) (n : Nat) : (s.setNdims n).tag = s.tag :=
  tag_write (by simp) (by simp)

theorem ndims_setNdims (s : TensorShape) {n : Nat} (h : n < 256) : (s.setNdims n).ndims = n := by
  rw [ndims, setNdims, getD_write (by simp)]
  simpa using h

variable {start width : Nat} {x : Int64} {s : TensorShape} {dims : List Int64} {heap : Heap}

theorem load_setNdims (s : TensorShape) (n : Nat) (h : start + width ≤ 14) :
    (s.setNdims n).load start width = s.load start width :=
  load_write_disjoint (by simp) (by omega)

theorem toNat_toBitVec_of_nonneg (h : 0 ≤ x) : (x.toBitVec.toNat : Int) = x.toInt := by
  have hInt : 0 ≤ x.toBitVec.toInt := Int64.le_iff_toInt_le.mp h
  change (x.toBitVec.toNat : Int) = x.toBitVec.toInt
  rw [BitVec.toInt_eq_toNat_cond] at hInt ⊢
  split at hInt <;> omega

theorem load_of_slice (hSlice : slice s.buf start width = bytesOf width x) (hWidth : 0 < width)
    (hPos : 0 ≤ x) (hFits : x.toInt < 2 ^ (8 * width - 1)) : s.load start width = x := by
  have hNat := toNat_toBitVec_of_nonneg hPos
  have hHalf : x.toBitVec.toNat < 2 ^ (8 * width - 1) := by
    have : (x.toBitVec.toNat : Int) < 2 ^ (8 * width - 1) := hNat ▸ hFits
    exact_mod_cast this
  have hPow : 2 ^ (8 * width) = 2 * 2 ^ (8 * width - 1) := by
    rw [← pow_succ']
    congr 1
    omega
  have hFull : x.toBitVec.toNat < 256 ^ width := by
    rw [show (256 : Nat) = 2 ^ 8 from rfl, ← pow_mul]
    omega
  rw [load, hSlice, bytesOf, decodeLE_encodeLE hFull, BitVec.toInt_eq_toNat_of_lt,
    BitVec.toNat_ofNat, mod_eq_of_lt (by omega), hNat, Int64.ofInt_toInt]
  rw [BitVec.toNat_ofNat, mod_eq_of_lt (by omega)]
  omega

theorem load_write_same {h : start + (bytesOf width x).length ≤ 16} (hWidth : 0 < width)
    (hPos : 0 ≤ x) (hFits : x.toInt < 2 ^ (8 * width - 1)) :
    (s.write start (bytesOf width x) h).load start width = x := by
  have hSame : slice (writeAt s.buf start (bytesOf width x)) start (bytesOf width x).length =
      bytesOf width x := slice_writeAt_same (by rw [s.buf_length]; exact h)
  rw [length_bytesOf] at hSame
  exact load_of_slice hSame hWidth hPos hFits

theorem toInt_lt_of_lt_maxRep16 (h : x < maxRep16) : x.toInt < 2 ^ (8 * 2 - 1) :=
  Int64.lt_iff_toInt_lt.mp h

theorem toInt_lt_of_lt_maxRep32 (h : x < maxRep32) : x.toInt < 2 ^ (8 * 4 - 1) :=
  (Int64.lt_iff_toInt_lt.mp h).trans (by decide)

variable {vals : List Int64}

theorem as32_write_all (h : 0 + (vals.flatMap (bytesOf 4)).length ≤ 16)
    (hPos : ∀ v ∈ vals, 0 ≤ v) (hFits : ∀ v ∈ vals, v < maxRep32) :
    (range vals.length).map (s.write 0 (vals.flatMap (bytesOf 4)) h).as32 = vals := by
  have hLength : (vals.flatMap (bytesOf 4)).length = vals.length * 4 := by
    simp [length_flatMap]
  apply ext_getElem
  · simp
  · intro i hi hi'
    rw [getElem_map, getElem_range]
    have hSlice : slice (writeAt s.buf 0 (vals.flatMap (bytesOf 4))) (4 * i) 4 =
        bytesOf 4 vals[i] := by
      rw [slice_writeAt_within (by rw [s.buf_length]; exact h) (by omega) (by omega), Nat.sub_zero,
        slice_flatMap (length_bytesOf 4) vals i hi']
    exact load_of_slice hSlice (by decide) (hPos _ (getElem_mem hi'))
      (toInt_lt_of_lt_maxRep32 (hFits _ (getElem_mem hi')))

theorem pointer_write_same {address : UInt64} {h : 0 + (encodeLE 8 address.toNat).length ≤ 16} :
    (s.write 0 (encodeLE 8 address.toNat) h).pointer = address := by
  have hSame : slice (writeAt s.buf 0 (encodeLE 8 address.toNat)) 0
      (encodeLE 8 address.toNat).length = encodeLE 8 address.toNat :=
    slice_writeAt_same (by rw [s.buf_length]; exact h)
  rw [length_encodeLE] at hSame
  rw [pointer, write, hSame, ofNat_decodeLE_uint64]

def Inline (dims : List Int64) : Prop :=
  (dims.length ≤ 6 ∧ ∀ d ∈ dims, d < maxRep16) ∨ (dims.length ≤ 3 ∧ ∀ d ∈ dims, d < maxRep32)

theorem Inline.of_append {rest : List Int64} (h : Inline (dims ++ rest)) : Inline dims := by
  rcases h with ⟨hLength, hFits⟩ | ⟨hLength, hFits⟩
  · left
    exact ⟨by simp at hLength; omega, fun d hd => hFits d (mem_append_left _ hd)⟩
  · right
    exact ⟨by simp at hLength; omega, fun d hd => hFits d (mem_append_left _ hd)⟩

variable {size : Int64}

theorem map_range_append {f g : Nat → Int64}
    (hRead : (range dims.length).map f = dims) (hOld : ∀ i < dims.length, g i = f i)
    (hNew : g dims.length = size) :
    (range (dims ++ [size]).length).map g = dims ++ [size] := by
  rw [length_append, length_singleton, range_succ, map_append]
  have hMap : (range dims.length).map g = (range dims.length).map f :=
    map_congr_left fun i hi => hOld i (mem_range.mp hi)
  rw [hMap, hRead, map_singleton, hNew]

theorem forall_mem_append_singleton {P : Int64 → Prop}
    (h : ∀ d ∈ dims, P d) (hSize : P size) : ∀ d ∈ dims ++ [size], P d := by
  intro d hd
  rcases mem_append.mp hd with hd | hd
  · exact h d hd
  · rw [mem_singleton.mp hd]
    exact hSize

variable {heap' : Heap} {s' : TensorShape}

open Function

def dataType (s : TensorShape) : UInt8 := s.buf.getD 13 0

def setDataType (s : TensorShape) (dt : UInt8) : TensorShape := s.write 13 [dt] (by simp)

def Owns (s : TensorShape) (address : UInt64) : Prop :=
  s.tag = repOutOfLine ∧ s.pointer = address

/-- `delete as64()->dims_`, if there is one. -/
def release (heap : Heap) (s : TensorShape) : Heap :=
  if s.tag = repOutOfLine then update heap s.pointer none else heap

inductive Reads (heap : Heap) (s : TensorShape) (dims : List Int64) : Prop where
  | rep16 (tag : s.tag = rep16) (length : dims.length ≤ 6) (fits : ∀ d ∈ dims, d < maxRep16)
      (read : (range dims.length).map s.as16 = dims)
  | rep32 (tag : s.tag = rep32) (length : dims.length ≤ 3) (fits : ∀ d ∈ dims, d < maxRep32)
      (read : (range dims.length).map s.as32 = dims)
  | outOfLine (tag : s.tag = repOutOfLine) (vector : heap s.pointer = some dims)

structure Layout (heap : Heap) (s : TensorShape) (dims : List Int64) : Prop where
  ndims : s.ndims = dims.length
  nonneg : ∀ d ∈ dims, 0 ≤ d
  reads : Reads heap s dims

/-- The address that `new` would return is not in use once the shape has freed its own vector. -/
def Spare (heap : Heap) (s : TensorShape) (fresh : UInt64) : Prop := release heap s fresh = none

/-- What may change when a shape is changed: its own vector and the address that `new` returns. -/
structure Mutates (fresh : UInt64) (heap : Heap) (s : TensorShape) (heap' : Heap)
    (s' : TensorShape) : Prop where
  frame : ∀ address, address ≠ fresh → ¬s.Owns address → heap' address = heap address
  owner : ∀ address, s'.Owns address → address = fresh ∨ s.Owns address
  live : ∀ address, address = fresh ∨ s.Owns address →
    ((heap' address).isSome ↔ s'.Owns address)

variable {s : TensorShape} {heap : Heap} {dims : List Int64}

theorem not_owns_of_tag (hTag : s.tag ≠ repOutOfLine) (address : UInt64) :
    ¬s.Owns address := fun h => hTag h.1

variable {address : UInt64}

theorem release_of_not_owns (h : ¬s.Owns address) : release heap s address = heap address := by
  rw [release]
  split
  · rename_i hTag
    rw [update_of_ne]
    rintro rfl
    exact h ⟨hTag, rfl⟩
  · rfl

theorem release_of_owns (h : s.Owns address) :
    release heap s address = none := by
  rw [release, if_pos h.1, ← h.2, update_self]

theorem release_of_tag (hTag : s.tag ≠ repOutOfLine) : release heap s = heap := if_neg hTag

theorem dataType_write {start : Nat} {src : List UInt8}
    (h : start + src.length ≤ 16) (hApart : start + src.length ≤ 13 ∨ 14 ≤ start) :
    (s.write start src h).dataType = s.dataType := by
  rw [dataType, getD_write h, if_neg (by omega)]
  rfl

@[simp] theorem dataType_setTag (s : TensorShape) (t : UInt8) :
    (s.setTag t).dataType = s.dataType :=
  dataType_write (by simp) (Or.inr (by decide))

@[simp] theorem dataType_setNdims (s : TensorShape) (n : Nat) :
    (s.setNdims n).dataType = s.dataType :=
  dataType_write (by simp) (Or.inr (by decide))

@[simp] theorem dataType_setDataType (s : TensorShape) (dt : UInt8) :
    (s.setDataType dt).dataType = dt := by
  rw [dataType, setDataType, getD_write (by simp)]
  rfl

@[simp] theorem tag_setDataType (s : TensorShape) (dt : UInt8) : (s.setDataType dt).tag = s.tag :=
  tag_write (by simp) (by simp)

theorem ndims_setDataType (s : TensorShape) (dt : UInt8) : (s.setDataType dt).ndims = s.ndims :=
  ndims_write (by simp) (Or.inl (by simp))

theorem ndims_setTag (s : TensorShape) (t : UInt8) : (s.setTag t).ndims = s.ndims :=
  ndims_write (by simp) (Or.inr (by decide))

theorem pointer_setNdims (s : TensorShape) (n : Nat) : (s.setNdims n).pointer = s.pointer :=
  pointer_write_disjoint (by simp) (by decide)

theorem pointer_setDataType (s : TensorShape) (dt : UInt8) :
    (s.setDataType dt).pointer = s.pointer :=
  pointer_write_disjoint (by simp) (by decide)

theorem Reads.of_eq (h : Reads heap s dims)
    (hTag : s'.tag = s.tag) (hLoad : ∀ start width, start + width ≤ 13 →
      s'.load start width = s.load start width) (hPointer : s'.pointer = s.pointer) :
    Reads heap s' dims := by
  cases h with
  | rep16 tag length fits read =>
    refine .rep16 (hTag.trans tag) length fits (Eq.trans ?_ read)
    apply map_congr_left
    intro i hi
    have hLess := mem_range.mp hi
    exact hLoad _ _ (by omega)
  | rep32 tag length fits read =>
    refine .rep32 (hTag.trans tag) length fits (Eq.trans ?_ read)
    apply map_congr_left
    intro i hi
    have hLess := mem_range.mp hi
    exact hLoad _ _ (by omega)
  | outOfLine tag vector =>
    exact .outOfLine (hTag.trans tag) ((congrArg heap hPointer).trans vector)

theorem Reads.with_count (h : Reads heap s dims) (n : Nat) (product : Int64) :
    Reads heap { s.setNdims n with numElements := product } dims :=
  h.of_eq (tag_setNdims s n) (fun _ _ hEnd => load_setNdims s n (by omega))
    (pointer_setNdims s n)

theorem Reads.setDataType
    (h : Reads heap s dims) (dt : UInt8) : Reads heap (s.setDataType dt) dims :=
  h.of_eq (tag_setDataType s dt)
    (fun _ _ hEnd => load_write_disjoint (by simp) (Or.inl hEnd)) (pointer_setDataType s dt)

theorem Reads.of_heap_eq (h : Reads heap s dims)
    (hHeap : ∀ address, s.Owns address → heap' address = heap address) : Reads heap' s dims := by
  cases h with
  | rep16 tag length fits read => exact .rep16 tag length fits read
  | rep32 tag length fits read => exact .rep32 tag length fits read
  | outOfLine tag vector => exact .outOfLine tag ((hHeap _ ⟨tag, rfl⟩).trans vector)

theorem Layout.dimSizes_eq (h : Layout heap s dims) : s.dimSizes heap = some dims := by
  rw [dimSizes, h.ndims]
  cases h.reads with
  | rep16 hTag _ _ hRead => rw [if_pos hTag, hRead]
  | rep32 hTag _ _ hRead => rw [if_neg (by rw [hTag]; decide), if_pos hTag, hRead]
  | outOfLine hTag hVector =>
    rw [if_neg (by rw [hTag]; decide), if_neg (by rw [hTag]; decide), hVector]
    simp

theorem Layout.length_le (h : Layout heap s dims) : dims.length ≤ 255 := by
  have hLess : (s.buf.getD 14 0).toNat < 256 := UInt8.toNat_lt _
  have hNdims : (s.buf.getD 14 0).toNat = dims.length := h.ndims
  omega

namespace Mutates

variable {fresh : UInt64} {heap heap' : Heap} {s s' : TensorShape}

theorem of_inline (hSpare : Spare heap s fresh) (hHeap : heap' = release heap s)
    (hTag : s'.tag ≠ repOutOfLine) : Mutates fresh heap s heap' s' where
  frame address _ hNot := by rw [hHeap, release_of_not_owns hNot]
  owner address hOwns := absurd hOwns.1 hTag
  live address hCase := by
    have hNone : heap' address = none := by
      rw [hHeap]
      cases hCase with
      | inl hFresh => rw [hFresh]; exact hSpare
      | inr hOwns => exact release_of_owns hOwns
    rw [hNone]
    exact iff_of_false (by simp) (not_owns_of_tag hTag address)

variable {vals : List Int64}

theorem of_fresh
    (hHeap : heap' = update (release heap s) fresh (some vals))
    (hOwns : s'.Owns fresh) : Mutates fresh heap s heap' s' where
  frame address hNe hNot := by
    rw [hHeap, update_of_ne hNe, release_of_not_owns hNot]
  owner address hOwns' := Or.inl (hOwns'.2.symm.trans hOwns.2)
  live address hCase := by
    obtain rfl | hNe := eq_or_ne address fresh
    · rw [hHeap, update_self]
      exact iff_of_true rfl hOwns
    · have hOld := hCase.resolve_left hNe
      rw [hHeap, update_of_ne hNe, release_of_owns hOld]
      exact iff_of_false (by simp) fun hOwns' => hNe (hOwns'.2.symm.trans hOwns.2)

theorem of_kept (hSpare : Spare heap s fresh) (hOwns : s.Owns address)
    (hHeap : heap' = update heap address (some vals)) (hOwns' : s'.Owns address)
    : Mutates fresh heap s heap' s' where
  frame other _ hNot := by
    rw [hHeap, update_of_ne]
    rintro rfl
    exact hNot hOwns
  owner other hOther := Or.inr (by rw [← hOther.2, hOwns'.2]; exact hOwns)
  live other hCase := by
    obtain rfl | hNe := eq_or_ne other address
    · rw [hHeap, update_self]
      exact iff_of_true rfl hOwns'
    · have hNot : ¬s.Owns other := fun hOther => hNe (hOther.2.symm.trans hOwns.2)
      have hFresh := hCase.resolve_right hNot
      have hNone : heap other = none := by
        rw [← @release_of_not_owns s heap other hNot, hFresh]
        exact hSpare
      rw [hHeap, update_of_ne hNe, hNone]
      exact iff_of_false (by simp) fun hOther => hNe (hOther.2.symm.trans hOwns'.2)

theorem refl (hSpare : Spare heap s fresh)
    (hLive : ∀ address, s.Owns address → (heap address).isSome) :
    Mutates fresh heap s heap s where
  frame _ _ _ := rfl
  owner _ := Or.inr
  live address hCase := by
    obtain hOwns | hNot := Classical.em (s.Owns address)
    · exact iff_of_true (hLive address hOwns) hOwns
    · refine iff_of_false ?_ hNot
      rw [← @release_of_not_owns s heap address hNot, hCase.resolve_right hNot, hSpare]
      simp

theorem spare (h : Mutates fresh heap s heap' s') : Spare heap' s' fresh := by
  obtain hOwns | hNot := Classical.em (s'.Owns fresh)
  · exact release_of_owns hOwns
  · have hLive := h.live fresh (Or.inl rfl)
    rw [Spare, release_of_not_owns hNot]
    cases hHeap : heap' fresh with
    | none => rfl
    | some vals =>
      rw [hHeap] at hLive
      exact absurd (hLive.mp rfl) hNot

variable {s'' : TensorShape}

theorem trans {heap'' : Heap} (h : Mutates fresh heap s heap' s')
    (h' : Mutates fresh heap' s' heap'' s'') : Mutates fresh heap s heap'' s'' where
  frame address hNe hNot := by
    have hNot' : ¬s'.Owns address := fun hOwns => (h.owner address hOwns).elim hNe hNot
    rw [h'.frame address hNe hNot', h.frame address hNe hNot]
  owner address hOwns := (h'.owner address hOwns).elim Or.inl (h.owner address)
  live address hCase := by
    obtain hNear | hFar := Classical.em (address = fresh ∨ s'.Owns address)
    · exact h'.live address hNear
    · rw [not_or] at hFar
      have hLive := h.live address hCase
      rw [h'.frame address hFar.1 hFar.2, hLive]
      exact iff_of_false hFar.2 fun hOwns =>
        (h'.owner address hOwns).elim hFar.1 hFar.2

theorem congr_right (h : Mutates fresh heap s heap' s')
    (hTag : s''.tag = s'.tag) (hPointer : s''.pointer = s'.pointer) :
    Mutates fresh heap s heap' s'' := by
  have hOwns : ∀ address, s''.Owns address ↔ s'.Owns address := by
    intro address
    rw [Owns, Owns, hTag, hPointer]
  exact ⟨h.frame, fun address hOther => h.owner address ((hOwns address).mp hOther),
    fun address hCase => (h.live address hCase).trans (hOwns address).symm⟩

end Mutates

theorem pointer_fits (fresh : UInt64) : 0 + (encodeLE 8 fresh.toNat).length ≤ 16 := by simp

theorem owns_fresh (s : TensorShape) (fresh : UInt64) :
    let s' := (s.setTag repOutOfLine).write 0 (encodeLE 8 fresh.toNat) (pointer_fits fresh)
    s'.Owns fresh ∧ s'.ndims = s.ndims ∧ s'.dataType = s.dataType := by
  refine ⟨⟨?_, pointer_write_same⟩, ?_, ?_⟩
  · exact (tag_write (pointer_fits fresh) (by simp)).trans (tag_setTag _ _)
  · exact (ndims_write (pointer_fits fresh) (Or.inl (by simp))).trans (ndims_setTag _ _)
  · exact (dataType_write (pointer_fits fresh) (Or.inl (by simp))).trans (dataType_setTag _ _)

structure Stores (fresh : UInt64) (heap : Heap) (s : TensorShape) (dims : List Int64)
    (heap' : Heap) (s' : TensorShape) : Prop where
  reads : Reads heap' s' dims
  mutates : Spare heap s fresh → Mutates fresh heap s heap' s'
  ndims : s'.ndims = s.ndims
  dataType : s'.dataType = s.dataType
  numElements : s'.numElements = s.numElements

section Push

variable {fresh : UInt64} {heap : Heap} {s : TensorShape} {dims : List Int64} {size : Int64}

theorem changeRep_stores (hTag : s.tag ≠ repOutOfLine) (hPos : ∀ v ∈ dims, 0 ≤ v) :
    Stores fresh heap s dims (changeRep fresh heap s dims).1 (changeRep fresh heap s dims).2 := by
  rw [changeRep]
  split
  · rename_i hBranch
    have hFits : ∀ v ∈ dims, v < maxRep32 := by simpa using hBranch.2
    have hLength : (dims.flatMap (bytesOf 4)).length = dims.length * 4 := by
      simp [length_flatMap]
    have hTag' := (@tag_write (s.setTag rep32) 0 (dims.flatMap (bytesOf 4)) (by omega)
      (by omega)).trans (tag_setTag _ _)
    exact
      { reads := .rep32 hTag' hBranch.1 hFits (as32_write_all (by omega) hPos hFits)
        mutates := fun hSpare =>
          .of_inline hSpare (release_of_tag hTag).symm (by rw [hTag']; decide)
        ndims := (ndims_write (by omega) (Or.inl (by omega))).trans (ndims_setTag _ _)
        dataType := (dataType_write (by omega) (Or.inl (by omega))).trans (dataType_setTag _ _)
        numElements := rfl }
  · obtain ⟨hOwns, hNdims, hType⟩ := owns_fresh s fresh
    exact
      { reads := .outOfLine hOwns.1 (by rw [hOwns.2]; exact update_self ..)
        mutates := fun _ => .of_fresh (by rw [release_of_tag hTag]) hOwns
        ndims := hNdims
        dataType := hType
        numElements := rfl }

variable {dims' : List Int64}

theorem write_stores {start : Nat} {src : List UInt8}
    (h : start + src.length ≤ 16) (hEnd : start + src.length ≤ 13)
    (hTag : s.tag ≠ repOutOfLine) (hReads : Reads heap (s.write start src h) dims') :
    Stores fresh heap s dims' heap (s.write start src h) where
  reads := hReads
  mutates hSpare := .of_inline hSpare (release_of_tag hTag).symm
    (by rw [tag_write h (by omega)]; exact hTag)
  ndims := ndims_write h (Or.inl (by omega))
  dataType := dataType_write h (Or.inl hEnd)
  numElements := rfl

theorem vector_stores (hTag : s.tag = repOutOfLine) :
    Stores fresh heap s dims' (update heap s.pointer (some dims')) s where
  reads := .outOfLine hTag (update_self ..)
  mutates hSpare := .of_kept hSpare ⟨hTag, rfl⟩ rfl ⟨hTag, rfl⟩
  ndims := rfl
  dataType := rfl
  numElements := rfl

theorem pushDim_stores (fresh : UInt64) (hLayout : Layout heap s dims) (hSize : 0 ≤ size) :
    ∃ heap' s', pushDim fresh heap s size = some (heap', s') ∧
      Stores fresh heap s (dims ++ [size]) heap' s' := by
  have hNdims := hLayout.ndims
  have hPos := forall_mem_append_singleton hLayout.nonneg hSize
  cases hLayout.reads with
  | rep16 hTag hLength hFits hRead =>
    have hNotOut : s.tag ≠ repOutOfLine := by rw [hTag]; decide
    obtain hBranch | hBranch := Classical.em (s.ndims < 6 ∧ size < maxRep16)
    · rw [pushDim, dif_pos ⟨hTag, hBranch⟩]
      refine ⟨_, _, rfl, write_stores _ (by simp; omega) hNotOut (.rep16 ?_ (by simp; omega)
        (forall_mem_append_singleton hFits hBranch.2) (map_range_append hRead ?_ ?_))⟩
      · exact (tag_write (by simp; omega) (by simp; omega)).trans hTag
      · intro i hi
        exact load_write_disjoint (by simp; omega) (by omega)
      · rw [← hNdims]
        exact load_write_same (by decide) hSize (toInt_lt_of_lt_maxRep16 hBranch.2)
    · have hNot32 : s.tag ≠ rep32 := by rw [hTag]; decide
      rw [pushDim, dif_neg fun h => hBranch h.2, dif_neg fun h => hNot32 h.1, if_neg hNotOut,
        hLayout.dimSizes_eq]
      exact ⟨_, _, rfl, changeRep_stores hNotOut hPos⟩
  | rep32 hTag hLength hFits hRead =>
    have hNot16 : s.tag ≠ rep16 := by rw [hTag]; decide
    have hNotOut : s.tag ≠ repOutOfLine := by rw [hTag]; decide
    obtain hBranch | hBranch := Classical.em (s.ndims < 3 ∧ size < maxRep32)
    · rw [pushDim, dif_neg fun h => hNot16 h.1, dif_pos ⟨hTag, hBranch⟩]
      refine ⟨_, _, rfl, write_stores _ (by simp; omega) hNotOut (.rep32 ?_ (by simp; omega)
        (forall_mem_append_singleton hFits hBranch.2) (map_range_append hRead ?_ ?_))⟩
      · exact (tag_write (by simp; omega) (by simp; omega)).trans hTag
      · intro i hi
        exact load_write_disjoint (by simp; omega) (by omega)
      · rw [← hNdims]
        exact load_write_same (by decide) hSize (toInt_lt_of_lt_maxRep32 hBranch.2)
    · rw [pushDim, dif_neg fun h => hNot16 h.1, dif_neg fun h => hBranch h.2, if_neg hNotOut,
        hLayout.dimSizes_eq]
      exact ⟨_, _, rfl, changeRep_stores hNotOut hPos⟩
  | outOfLine hTag hVector =>
    have hNot16 : s.tag ≠ rep16 := by rw [hTag]; decide
    have hNot32 : s.tag ≠ rep32 := by rw [hTag]; decide
    rw [pushDim, dif_neg fun h => hNot16 h.1, dif_neg fun h => hNot32 h.1, if_pos hTag, hVector]
    exact ⟨_, _, rfl, vector_stores hTag⟩

/-- The representation is the smallest that `AddDim` finds for the sizes. -/
structure Least (s : TensorShape) (dims : List Int64) : Prop where
  large : s.tag = rep32 → ¬(dims.length ≤ 6 ∧ ∀ d ∈ dims, d < maxRep16)
  long : s.tag = repOutOfLine → ¬Inline dims

theorem Least.of_rep16 (hTag : s.tag = rep16) : Least s dims where
  large h := absurd (hTag.symm.trans h) (by decide)
  long h := absurd (hTag.symm.trans h) (by decide)

theorem not_small_append {rest : List Int64} (h : ¬(dims.length ≤ 6 ∧ ∀ d ∈ dims, d < maxRep16)) :
    ¬((dims ++ rest).length ≤ 6 ∧ ∀ d ∈ dims ++ rest, d < maxRep16) := by
  rintro ⟨hLength, hFits⟩
  rw [length_append] at hLength
  exact h ⟨by omega, fun d hd => hFits d (mem_append_left _ hd)⟩

theorem changeRep_least (fresh : UInt64) (heap : Heap) (s : TensorShape)
    (hNot : ¬(dims.length ≤ 6 ∧ ∀ d ∈ dims, d < maxRep16)) :
    Least (changeRep fresh heap s dims).2 dims := by
  rw [changeRep]
  split
  · rename_i hBranch
    have hLength : (dims.flatMap (bytesOf 4)).length = dims.length * 4 := by
      simp [length_flatMap]
    have hTag := (@tag_write (s.setTag rep32) 0 (dims.flatMap (bytesOf 4)) (by omega)
      (by omega)).trans (tag_setTag _ _)
    exact ⟨fun _ => hNot, fun h => absurd (hTag.symm.trans h) (by decide)⟩
  · rename_i hBranch
    have hTag := (owns_fresh s fresh).1.1
    refine ⟨fun h => absurd (hTag.symm.trans h) (by decide), fun _ => ?_⟩
    rintro (hSmall | ⟨hLength, hFits⟩)
    · exact hNot hSmall
    · exact hBranch ⟨hLength, by simpa using hFits⟩

theorem pushDim_least (hLayout : Layout heap s dims) (h : Least s dims)
    (hPush : pushDim fresh heap s size = some (heap', s')) : Least s' (dims ++ [size]) := by
  have hNdims := hLayout.ndims
  rw [pushDim] at hPush
  split at hPush
  · rename_i hBranch
    cases hPush
    exact .of_rep16 ((tag_write _ (by simp; omega)).trans hBranch.1)
  · rename_i hNot16
    split at hPush
    · rename_i hBranch
      cases hPush
      have hTag : (s.write (4 * s.ndims) (bytesOf 4 size) (by simp; omega)).tag = rep32 :=
        (tag_write _ (by simp; omega)).trans hBranch.1
      exact ⟨fun _ => not_small_append (h.large hBranch.1),
        fun hOut => absurd (hTag.symm.trans hOut) (by decide)⟩
    · split at hPush
      · rename_i hTag
        split at hPush
        · cases hPush
          exact ⟨fun h32 => absurd (hTag.symm.trans h32) (by decide),
            fun _ hInline => h.long hTag hInline.of_append⟩
        · cases hPush
      · rw [hLayout.dimSizes_eq] at hPush
        have hShape : (changeRep fresh heap s (dims ++ [size])).2 = s' :=
          congrArg Prod.snd (Option.some.inj hPush)
        rw [← hShape]
        apply changeRep_least
        cases hLayout.reads with
        | rep16 hTag _ _ _ =>
          rintro ⟨hLength, hFits⟩
          rw [length_append, length_singleton] at hLength
          exact hNot16 ⟨hTag, by omega, hFits size (by simp)⟩
        | rep32 hTag _ _ _ => exact not_small_append (h.large hTag)
        | outOfLine hTag _ => contradiction

end Push

/-- What `AddDim` makes of the empty shape. -/
structure Represents (heap : Heap) (s : TensorShape) (dims : List Int64) : Prop where
  layout : Layout heap s dims
  least : Least s dims

theorem Represents.tag_inline_iff (h : Represents heap s dims) :
    s.tag = rep16 ∨ s.tag = rep32 ↔ Inline dims := by
  cases h.layout.reads with
  | rep16 hTag hLength hFits _ => exact ⟨fun _ => .inl ⟨hLength, hFits⟩, fun _ => .inl hTag⟩
  | rep32 hTag hLength hFits _ => exact ⟨fun _ => .inr ⟨hLength, hFits⟩, fun _ => .inr hTag⟩
  | outOfLine hTag _ =>
    have hLong := h.least.long hTag
    rw [hTag]
    exact iff_of_false (by decide) hLong

theorem tag_empty (raw : TensorShape) : raw.empty.tag = rep16 := by
  have hTag : ((raw.setTag rep16).setNdims 0).tag = rep16 := by simp
  exact (tag_write (by simp) (by simp)).trans hTag

theorem represents_empty (heap : Heap) (raw : TensorShape) : Represents heap raw.empty [] := by
  have hNdims : raw.empty.ndims = 0 := by
    have hType : ((raw.setTag rep16).setNdims 0).ndims = 0 := ndims_setNdims _ (by decide)
    exact (ndims_write (by simp) (by simp)).trans hType
  exact ⟨⟨hNdims, by simp, .rep16 (tag_empty raw) (by simp) (by simp) rfl⟩,
    .of_rep16 (tag_empty raw)⟩

theorem addDim_represents {size : Int64} {fresh : UInt64} (hRep : Represents heap s dims)
    (h : addDim fresh heap s size = some (heap', s')) : Represents heap' s' (dims ++ [size]) := by
  rw [addDim] at h
  split at h
  swap
  · cases h
  rename_i hChecks
  obtain ⟨heap₁, s₁, hPush, hStores⟩ := pushDim_stores fresh hRep.layout hChecks.1
  have hLeast := pushDim_least hRep.layout hRep.least hPush
  rw [hPush] at h
  simp only at h
  split at h
  swap
  · cases h
  cases h
  have hLength : s.ndims + 1 < 256 := by
    have := hChecks.2
    rw [maxDimensions] at this
    omega
  have hTag : ({ s₁.setNdims (s.ndims + 1) with numElements := s₁.numElements * size } :
      TensorShape).tag = s₁.tag := tag_setNdims s₁ _
  refine ⟨⟨?_, forall_mem_append_singleton hRep.layout.nonneg hChecks.1,
    hStores.reads.with_count _ _⟩, ⟨fun h => hLeast.large (hTag.symm.trans h),
      fun h => hLeast.long (hTag.symm.trans h)⟩⟩
  rw [length_append, ← hRep.layout.ndims]
  exact ndims_setNdims s₁ hLength

theorem addDims_represents {fresh : UInt64} {sizes : List Int64} (hRep : Represents heap s dims)
    (h : addDims fresh heap s sizes = some (heap', s')) : Represents heap' s' (dims ++ sizes) := by
  induction sizes generalizing heap s dims with
  | nil =>
    cases h
    rwa [append_nil]
  | cons size sizes ih =>
    rw [addDims] at h
    split at h
    · cases h
    · rename_i heap₁ s₁ hAdd
      have hNext := ih (addDim_represents hRep hAdd) h
      rwa [append_assoc] at hNext

end TensorFlowOnSpark.Framework.TensorShape
