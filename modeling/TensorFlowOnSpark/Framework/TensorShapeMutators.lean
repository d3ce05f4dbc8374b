import TensorFlowOnSpark.Framework.TensorShapeDims
import TensorFlowOnSpark.Framework.Status
import TensorFlowOnSpark.Lib.TwosComplement

/-!
# Changing a `TensorShape`

The mutators of `framework/tensor_shape.cc` on one shape.
-/

namespace TensorFlowOnSpark.Framework.TensorShape

open Bytes List

def numElementsOf (dims : List Int64) : Int64 := dims.foldl (· * ·) 1

def CheckedProduct (n : Int64) : Prop := 0 ≤ n ∧ n ≤ maxElements

instance (n : Int64) : Decidable (CheckedProduct n) := instDecidableAnd

/-- The lists that no `CHECK` refuses. -/
structure ValidSizes (dims : List Int64) : Prop where
  length_le : dims.length ≤ maxDimensions
  nonneg : ∀ d ∈ dims, 0 ≤ d
  products : ∀ pre, pre <+: dims → CheckedProduct (numElementsOf pre)

structure Denotes (heap : Heap) (s : TensorShape) (dims : List Int64) : Prop where
  layout : Layout heap s dims
  valid : ValidSizes dims
  numElements : s.numElements = numElementsOf dims

def clearAllButDataType (heap : Heap) (s : TensorShape) : Heap × TensorShape :=
  (release heap s, { (s.setTag rep16).setNdims 0 with numElements := 1 })

def clear (heap : Heap) (s : TensorShape) : Heap × TensorShape :=
  ((clearAllButDataType heap s).1, (clearAllButDataType heap s).2.setDataType 0)

def recomputeLoop (n : Int64) : List Int64 → Option Int64
  | [] => some n
  | size :: rest => if CheckedProduct (n * size) then recomputeLoop (n * size) rest else none

def recomputeNumElements (heap : Heap) (s : TensorShape) : Option (Heap × TensorShape) :=
  match s.dimSizes heap with
  | none => none
  | some vals =>
    match recomputeLoop 1 vals with
    | none => none
    | some n => some (heap, { s with numElements := n })

def insertDim (fresh : UInt64) (heap : Heap) (s : TensorShape) (d : Int) (size : Int64) :
    Option (Heap × TensorShape) :=
  if 0 ≤ d ∧ d ≤ s.ndims ∧ 0 ≤ size ∧ s.ndims < maxDimensions then
    match s.dimSizes heap with
    | none => none
    | some vals =>
      addDims fresh (clearAllButDataType heap s).1 (clearAllButDataType heap s).2
        (vals.insertIdx d.toNat size)
  else none

theorem fits_rep16 {d : Nat} (size : Int64) (h : d < 6) : 2 * d + (bytesOf 2 size).length ≤ 16 := by
  simp
  omega

theorem fits_rep32 {d : Nat} (size : Int64) (h : d < 3) : 4 * d + (bytesOf 4 size).length ≤ 16 := by
  simp
  omega

/-- The branches of `set_dim`; a write behind the array is undefined. -/
def assignDim (fresh : UInt64) (heap : Heap) (s : TensorShape) (d : Nat) (size : Int64) :
    Option (Heap × TensorShape) :=
  if s.tag = rep16 ∧ size < maxRep16 then
    if h : d < 6 then some (heap, s.write (2 * d) (bytesOf 2 size) (fits_rep16 size h)) else none
  else if s.tag = rep32 ∧ size < maxRep32 then
    if h : d < 3 then some (heap, s.write (4 * d) (bytesOf 4 size) (fits_rep32 size h)) else none
  else if s.tag = repOutOfLine then
    match heap s.pointer with
    | some vals => some (Function.update heap s.pointer (some (vals.set d size)), s)
    | none => none
  else
    -- The representation has to be upgraded.
    match s.dimSizes heap with
    | none => none
    | some vals =>
      addDims fresh (clearAllButDataType heap s).1 (clearAllButDataType heap s).2
        (vals.set d size)

def setDim (fresh : UInt64) (heap : Heap) (s : TensorShape) (d : Int) (size : Int64) :
    Option (Heap × TensorShape) :=
  if 0 ≤ d ∧ d < s.ndims ∧ 0 ≤ size then
    match assignDim fresh heap s d.toNat size with
    | none => none
    | some (heap', s') => recomputeNumElements heap' s'
  else none

def removeDim (fresh : UInt64) (heap : Heap) (s : TensorShape) (d : Int) :
    Option (Heap × TensorShape) :=
  if 0 ≤ d ∧ d < s.ndims then
    match s.dimSizes heap with
    | none => none
    | some vals =>
      match addDims fresh (clearAllButDataType heap s).1 (clearAllButDataType heap s).2
        (vals.eraseIdx d.toNat) with
      | none => none
      | some (heap', s') => recomputeNumElements heap' s'
  else none

theorem numElementsOf_append (dims : List Int64) (size : Int64) :
    numElementsOf (dims ++ [size]) = numElementsOf dims * size := by
  rw [numElementsOf, foldl_append]
  rfl

variable {dims : List Int64}

theorem ValidSizes.of_prefix {dims' : List Int64} (h : ValidSizes dims')
    (hPrefix : dims <+: dims') : ValidSizes dims where
  length_le := Nat.le_trans hPrefix.length_le h.length_le
  nonneg d hd := h.nonneg d (hPrefix.subset hd)
  products pre hPre := h.products pre (hPre.trans hPrefix)

theorem validSizes_nil : ValidSizes [] where
  length_le := by decide
  nonneg := by simp
  products pre hPre := by
    rw [prefix_nil.mp hPre]
    exact ⟨by decide, by decide⟩

theorem validSizes_concat_iff {size : Int64} (hValid : ValidSizes dims) :
    ValidSizes (dims ++ [size]) ↔ (0 ≤ size ∧ dims.length < maxDimensions) ∧
      CheckedProduct (numElementsOf dims * size) := by
  constructor
  · intro h
    have hLength := h.length_le
    rw [length_append] at hLength
    rw [← numElementsOf_append]
    exact ⟨⟨h.nonneg size (by simp), hLength⟩, h.products _ prefix_rfl⟩
  · rintro ⟨⟨hSize, hLength⟩, hProduct⟩
    refine ⟨?_, forall_mem_append_singleton hValid.nonneg hSize, ?_⟩
    · rw [length_append]
      exact hLength
    · intro pre hPre
      obtain hEq | hPre := prefix_concat_iff.mp hPre
      · rw [hEq, numElementsOf_append]
        exact hProduct
      · exact hValid.products pre hPre

variable {P : Int64 → Prop}

theorem forall_products_cons (n size : Int64) (dims : List Int64) :
    (∀ pre, pre <+: size :: dims → pre ≠ [] → P (pre.foldl (· * ·) n)) ↔
      P (n * size) ∧ ∀ pre, pre <+: dims → pre ≠ [] → P (pre.foldl (· * ·) (n * size)) := by
  constructor
  · intro h
    refine ⟨h [size] (cons_prefix_cons.mpr ⟨rfl, nil_prefix⟩) (cons_ne_nil _ _),
      fun pre hPre _ => ?_⟩
    exact h (size :: pre) (cons_prefix_cons.mpr ⟨rfl, hPre⟩) (cons_ne_nil _ _)
  · rintro ⟨hFirst, h⟩ pre hPre hNe
    obtain ⟨rest, rfl, hRest⟩ := (prefix_cons_iff.mp hPre).resolve_left hNe
    obtain rfl | hNe := eq_or_ne rest []
    · exact hFirst
    · exact h rest hRest hNe

theorem forall_products_nil (n : Int64) :
    ∀ pre, pre <+: [] → pre ≠ [] → P (pre.foldl (· * ·) n) :=
  fun _ hPre hNe => absurd (prefix_nil.mp hPre) hNe

theorem recomputeLoop_eq_some_iff (n r : Int64) (dims : List Int64) :
    recomputeLoop n dims = some r ↔
      (∀ pre, pre <+: dims → pre ≠ [] → CheckedProduct (pre.foldl (· * ·) n)) ∧
        dims.foldl (· * ·) n = r := by
  induction dims generalizing n with
  | nil =>
    rw [recomputeLoop, Option.some.injEq]
    exact (and_iff_right (forall_products_nil n)).symm
  | cons size dims ih =>
    rw [recomputeLoop, foldl_cons, forall_products_cons, and_assoc, ← ih]
    split
    · rename_i hChecked
      exact (and_iff_right hChecked).symm
    · rename_i hChecked
      exact iff_of_false nofun fun h => hChecked h.1

theorem recomputeLoop_of_products
    (h : ∀ pre, pre <+: dims → CheckedProduct (numElementsOf pre)) :
    recomputeLoop 1 dims = some (numElementsOf dims) :=
  (recomputeLoop_eq_some_iff 1 _ dims).mpr ⟨fun pre hPre _ => h pre hPre, rfl⟩

theorem products_of_recomputeLoop {r : Int64}
    (h : recomputeLoop 1 dims = some r) :
    (∀ pre, pre <+: dims → CheckedProduct (numElementsOf pre)) ∧ r = numElementsOf dims := by
  obtain ⟨hProducts, hEq⟩ := (recomputeLoop_eq_some_iff 1 r dims).mp h
  refine ⟨fun pre hPre => ?_, hEq.symm⟩
  obtain rfl | hNe := eq_or_ne pre []
  · exact ⟨by decide, by decide⟩
  · exact hProducts pre hPre hNe

theorem Denotes.live {heap : Heap} {s : TensorShape} (h : Denotes heap s dims)
    {address : UInt64} (hOwns : s.Owns address) : (heap address).isSome := by
  cases h.layout.reads with
  | rep16 hTag => exact absurd hOwns (not_owns_of_tag (by rw [hTag]; decide) address)
  | rep32 hTag => exact absurd hOwns (not_owns_of_tag (by rw [hTag]; decide) address)
  | outOfLine _ hVector => rw [← hOwns.2, hVector]; rfl

theorem denotes_empty (heap : Heap) (raw : TensorShape) : Denotes heap raw.empty [] :=
  ⟨(represents_empty heap raw).layout, validSizes_nil, rfl⟩

structure Becomes (fresh : UInt64) (heap : Heap) (s : TensorShape) (dims : List Int64)
    (heap' : Heap) (s' : TensorShape) : Prop where
  denotes : Denotes heap' s' dims
  mutates : Mutates fresh heap s heap' s'
  dataType : s'.dataType = s.dataType

/-- No `CHECK` fails just when the condition holds, and then the shape holds the list. -/
def Meets (fresh : UInt64) (heap : Heap) (s : TensorShape) (passes : Prop) (dims : List Int64) :
    Option (Heap × TensorShape) → Prop
  | none => ¬passes
  | some (heap', s') => passes ∧ Becomes fresh heap s dims heap' s'

section Mutators

variable {fresh : UInt64} {heap : Heap} {s : TensorShape} {dims : List Int64}
variable {heap' : Heap} {s' : TensorShape} {d : Nat} {size : Int64}

theorem Becomes.trans {heap'' : Heap} {s'' : TensorShape} {dims' : List Int64}
    (h : Becomes fresh heap s dims heap' s') (h' : Becomes fresh heap' s' dims' heap'' s'') :
    Becomes fresh heap s dims' heap'' s'' :=
  ⟨h'.denotes, h.mutates.trans h'.mutates, h'.dataType.trans h.dataType⟩

variable {result : Option (Heap × TensorShape)}

theorem Meets.of_becomes {dims' : List Int64} {passes : Prop}
    (h : Becomes fresh heap s dims heap' s') (h' : Meets fresh heap' s' passes dims' result)
    : Meets fresh heap s passes dims' result := by
  cases result with
  | none => exact h'
  | some result => exact ⟨h'.1, h.trans h'.2⟩

theorem Meets.congr {passes passes' : Prop} (h : Meets fresh heap s passes dims result)
    (hIff : passes' ↔ passes) :
    Meets fresh heap s passes' dims result := by
  cases result with
  | none => exact mt hIff.mp h
  | some result => exact ⟨hIff.mpr h.1, h.2⟩

theorem clearAllButDataType_becomes (hSpare : Spare heap s fresh) :
    Becomes fresh heap s [] (clearAllButDataType heap s).1 (clearAllButDataType heap s).2 := by
  have hTag : ((s.setTag rep16).setNdims 0).tag = rep16 := by simp
  have hInline : (clearAllButDataType heap s).2.tag ≠ repOutOfLine := by
    change ((s.setTag rep16).setNdims 0).tag ≠ _
    rw [hTag]
    decide
  exact
    { denotes :=
        { layout :=
            { ndims := ndims_setNdims _ (by decide)
              nonneg := by simp
              reads := .rep16 hTag (by simp) (by simp) rfl }
          valid := validSizes_nil
          numElements := rfl }
      mutates := .of_inline hSpare rfl hInline
      dataType := (dataType_setNdims _ _).trans (dataType_setTag _ _) }

theorem addDim_meets (h : Denotes heap s dims) (hSpare : Spare heap s fresh) (size : Int64) :
    Meets fresh heap s (ValidSizes (dims ++ [size])) (dims ++ [size])
      (addDim fresh heap s size) := by
  have hIff := @validSizes_concat_iff dims size h.valid
  rw [← h.layout.ndims, ← h.numElements] at hIff
  rw [addDim]
  split
  · rename_i hChecks
    obtain ⟨heap', s', hPush, hStores⟩ := pushDim_stores fresh h.layout hChecks.1
    rw [hPush]
    simp only [hStores.numElements]
    split
    · rename_i hProduct
      have hValid := hIff.mpr ⟨hChecks, hProduct⟩
      have hLength := hValid.length_le
      refine ⟨hValid, ⟨⟨?_, hValid.nonneg, hStores.reads.with_count _ _⟩, hValid, ?_⟩, ?_, ?_⟩
      · rw [length_append, ← h.layout.ndims] at hLength ⊢
        exact ndims_setNdims s' (Nat.lt_succ_of_le hLength)
      · rw [numElementsOf_append, ← h.numElements]
      · exact (hStores.mutates hSpare).congr_right (tag_setNdims s' _) (pointer_setNdims s' _)
      · exact (dataType_setNdims s' _).trans hStores.dataType
    · rename_i hProduct
      exact fun hValid => hProduct (hIff.mp hValid).2
  · rename_i hChecks
    exact fun hValid => hChecks (hIff.mp hValid).1

theorem addDims_meets (h : Denotes heap s dims) (hSpare : Spare heap s fresh) (sizes : List Int64) :
    Meets fresh heap s (ValidSizes (dims ++ sizes)) (dims ++ sizes)
      (addDims fresh heap s sizes) := by
  induction sizes generalizing heap s dims with
  | nil =>
    rw [append_nil]
    exact ⟨h.valid, h, .refl hSpare fun _ => h.live, rfl⟩
  | cons size sizes ih =>
    have hAdd := addDim_meets h hSpare size
    have hAssoc : dims ++ size :: sizes = dims ++ [size] ++ sizes := by simp
    rw [addDims, hAssoc]
    cases hEq : addDim fresh heap s size with
    | none =>
      rw [hEq] at hAdd
      exact fun hValid => hAdd (hValid.of_prefix (prefix_append _ _))
    | some result =>
      rw [hEq] at hAdd
      exact Meets.of_becomes hAdd.2 (ih hAdd.2.denotes hAdd.2.mutates.spare)

theorem rebuild_meets (hSpare : Spare heap s fresh) (sizes : List Int64) :
    Meets fresh heap s (ValidSizes sizes) sizes
      (addDims fresh (clearAllButDataType heap s).1 (clearAllButDataType heap s).2 sizes) := by
  have hClear := clearAllButDataType_becomes hSpare
  exact Meets.of_becomes hClear (addDims_meets hClear.denotes hClear.mutates.spare sizes)

theorem recompute_meets (hLayout : Layout heap' s' dims)
    (hMutates : Mutates fresh heap s heap' s') (hType : s'.dataType = s.dataType) :
    Meets fresh heap s (ValidSizes dims) dims (recomputeNumElements heap' s') := by
  have hEq : recomputeNumElements heap' s' =
      (recomputeLoop 1 dims).map fun n => (heap', { s' with numElements := n }) := by
    rw [recomputeNumElements, hLayout.dimSizes_eq]
    cases hLoop : recomputeLoop 1 dims <;> simp [hLoop]
  rw [hEq]
  cases hLoop : recomputeLoop 1 dims with
  | none =>
    intro hValid
    rw [recomputeLoop_of_products hValid.products] at hLoop
    cases hLoop
  | some n =>
    obtain ⟨hProducts, rfl⟩ := products_of_recomputeLoop hLoop
    have hValid : ValidSizes dims := ⟨hLayout.length_le, hLayout.nonneg, hProducts⟩
    have hReads : Reads heap' { s' with numElements := numElementsOf dims } dims :=
      hLayout.reads.of_eq rfl (fun _ _ _ => rfl) rfl
    exact ⟨hValid, ⟨⟨hLayout.ndims, hLayout.nonneg, hReads⟩, hValid, rfl⟩,
      hMutates.congr_right rfl rfl, hType⟩

theorem recompute_of_becomes (h : Becomes fresh heap s dims heap' s') :
    Meets fresh heap s (ValidSizes dims) dims (recomputeNumElements heap' s') :=
  recompute_meets h.denotes.layout h.mutates h.dataType

theorem insertDim_meets (h : Denotes heap s dims) (hSpare : Spare heap s fresh) (d : Int)
    (size : Int64) :
    Meets fresh heap s ((0 ≤ d ∧ d ≤ dims.length) ∧ ValidSizes (dims.insertIdx d.toNat size))
      (dims.insertIdx d.toNat size) (insertDim fresh heap s d size) := by
  rw [insertDim, h.layout.ndims, h.layout.dimSizes_eq]
  split
  · rename_i hChecks
    exact (rebuild_meets hSpare _).congr (and_iff_right ⟨hChecks.1, hChecks.2.1⟩)
  · rename_i hChecks
    rintro ⟨hRange, hValid⟩
    have hLe : d.toNat ≤ dims.length := by omega
    have hLength := hValid.length_le
    rw [length_insertIdx_of_le_length hLe] at hLength
    exact hChecks ⟨hRange.1, hRange.2,
      hValid.nonneg _ ((mem_insertIdx hLe).mpr (Or.inl rfl)), hLength⟩

theorem map_range_set {f g : Nat → Int64} (hRead : (range dims.length).map f = dims)
    (hSame : ∀ i, i ≠ d → g i = f i) (hNew : g d = size) :
    (range (dims.set d size).length).map g = dims.set d size := by
  apply ext_getElem
  · simp
  · intro i hi hi'
    rw [getElem_map, getElem_range, getElem_set]
    split
    · rename_i hEq
      rw [← hEq, hNew]
    · rename_i hNe
      rw [hSame i (Ne.symm hNe), getElem_of_eq hRead.symm]
      simp

theorem forall_mem_set (h : ∀ x ∈ dims, P x) (hSize : P size) : ∀ x ∈ dims.set d size, P x := by
  intro x hx
  obtain hOld | rfl := mem_or_eq_of_mem_set hx
  · exact h x hOld
  · exact hSize

theorem assignDim_meets (h : Denotes heap s dims) (hSpare : Spare heap s fresh)
    (hd : d < dims.length) (hSize : 0 ≤ size) :
    (∃ heap' s', assignDim fresh heap s d size = some (heap', s') ∧
      Stores fresh heap s (dims.set d size) heap' s') ∨
    Meets fresh heap s (ValidSizes (dims.set d size)) (dims.set d size)
      (assignDim fresh heap s d size) := by
  rw [assignDim]
  cases h.layout.reads with
  | rep16 hTag hLength hFits hRead =>
    have hNotOut : s.tag ≠ repOutOfLine := by rw [hTag]; decide
    split
    · rename_i hSmall
      rw [dif_pos (by omega)]
      refine Or.inl ⟨_, _, rfl, write_stores _ (by simp; omega) hNotOut (.rep16
        ((tag_write _ (by simp; omega)).trans hTag) (by simpa using hLength)
        (forall_mem_set hFits hSmall.2) (map_range_set hRead ?_ ?_))⟩
      · intro i hi
        exact load_write_disjoint _ (by simp; omega)
      · exact load_write_same (by decide) hSize (toInt_lt_of_lt_maxRep16 hSmall.2)
    · rw [if_neg (fun hCase => absurd (hTag.symm.trans hCase.1) (by decide)), h.layout.dimSizes_eq]
      exact Or.inr (rebuild_meets hSpare _)
  | rep32 hTag hLength hFits hRead =>
    have hNotOut : s.tag ≠ repOutOfLine := by rw [hTag]; decide
    rw [if_neg (fun hCase => absurd (hTag.symm.trans hCase.1) (by decide))]
    split
    · rename_i hSmall
      rw [dif_pos (by omega)]
      refine Or.inl ⟨_, _, rfl, write_stores _ (by simp; omega) hNotOut (.rep32
        ((tag_write _ (by simp; omega)).trans hTag) (by simpa using hLength)
        (forall_mem_set hFits hSmall.2) (map_range_set hRead ?_ ?_))⟩
      · intro i hi
        exact load_write_disjoint _ (by simp; omega)
      · exact load_write_same (by decide) hSize (toInt_lt_of_lt_maxRep32 hSmall.2)
    · rw [h.layout.dimSizes_eq]
      exact Or.inr (rebuild_meets hSpare _)
  | outOfLine hTag hVector =>
    rw [if_neg (fun hCase => absurd (hTag.symm.trans hCase.1) (by decide)),
      if_neg (fun hCase => absurd (hTag.symm.trans hCase.1) (by decide)), if_pos hTag, hVector]
    exact Or.inl ⟨_, _, rfl, vector_stores hTag⟩

theorem setDim_meets (h : Denotes heap s dims) (hSpare : Spare heap s fresh) (d : Int)
    (size : Int64) :
    Meets fresh heap s ((0 ≤ d ∧ d < dims.length) ∧ ValidSizes (dims.set d.toNat size))
      (dims.set d.toNat size) (setDim fresh heap s d size) := by
  rw [setDim, h.layout.ndims]
  split
  · rename_i hChecks
    have hd : d.toNat < dims.length := by omega
    refine Meets.congr ?_ (and_iff_right ⟨hChecks.1, hChecks.2.1⟩)
    obtain ⟨heap', s', hEq, hStores⟩ | hMeets := assignDim_meets h hSpare hd hChecks.2.2
    · rw [hEq]
      have hLayout : Layout heap' s' (dims.set d.toNat size) :=
        ⟨by rw [hStores.ndims, h.layout.ndims, length_set],
          forall_mem_set h.layout.nonneg hChecks.2.2, hStores.reads⟩
      exact recompute_meets hLayout (hStores.mutates hSpare) hStores.dataType
    · cases hEq : assignDim fresh heap s d.toNat size with
      | none =>
        rw [hEq] at hMeets
        exact hMeets
      | some result =>
        rw [hEq] at hMeets
        exact recompute_of_becomes hMeets.2
  · rename_i hChecks
    rintro ⟨hRange, hValid⟩
    have hd : d.toNat < dims.length := by omega
    exact hChecks ⟨hRange.1, hRange.2, hValid.nonneg _ (mem_set hd size)⟩

theorem removeDim_meets (h : Denotes heap s dims) (hSpare : Spare heap s fresh) (d : Int) :
    Meets fresh heap s ((0 ≤ d ∧ d < dims.length) ∧ ValidSizes (dims.eraseIdx d.toNat))
      (dims.eraseIdx d.toNat) (removeDim fresh heap s d) := by
  rw [removeDim, h.layout.ndims, h.layout.dimSizes_eq]
  split
  · rename_i hChecks
    refine Meets.congr ?_ (and_iff_right hChecks)
    have hRebuild := rebuild_meets hSpare (dims.eraseIdx d.toNat)
    simp only
    cases hEq : addDims fresh (clearAllButDataType heap s).1 (clearAllButDataType heap s).2
      (dims.eraseIdx d.toNat) with
    | none =>
      rw [hEq] at hRebuild
      exact hRebuild
    | some result =>
      rw [hEq] at hRebuild
      exact recompute_of_becomes hRebuild.2
  · rename_i hChecks
    exact fun hPasses => hChecks hPasses.1

end Mutators

open TwosComplement

def debugString (proto : List Int64) : String :=
  "[" ++ String.intercalate "," (proto.map fun size => s!"{size}") ++ "]"

def isValidLoop (numElements : Int64) : List Int64 → Bool
  | [] => true
  | size :: rest =>
    if size < 0 then false
    else if numElements * size > maxElements then false
    else isValidLoop (numElements * size) rest

def isValid (proto : List Int64) : Bool :=
  if proto.length > maxDimensions then false else isValidLoop 1 proto

def isValidShapeLoop (proto : List Int64) (numElements : Int64) : List Int64 → Status
  | [] => .ok
  | size :: rest =>
    if size < 0 then
      Errors.invalidArgument s!"Shape {debugString proto} has negative dimensions"
    else if numElements * size > maxElements then
      Errors.invalidArgument
        s!"Shape {debugString proto} is too large (more than {maxElements} entries)"
    else isValidShapeLoop proto (numElements * size) rest

def isValidShape (proto : List Int64) : Status :=
  if proto.length > maxDimensions then
    Errors.invalidArgument s!"Shape {debugString proto} has too many dimensions"
  else isValidShapeLoop proto 1 proto

def ofProto (fresh : UInt64) (heap : Heap) (raw : TensorShape) (proto : List Int64) :
    Option (Heap × TensorShape) := addDims fresh heap raw.empty proto

def exactProduct (sizes : List Int64) : Int := (sizes.map Int64.toInt).prod

/-- The two checks agree, and the shape of an accepted proto can be built: it hits no `CHECK` and
has the exact number of elements. -/
def Safe (proto : List Int64) : Prop :=
  (isValid proto ↔ isValidShape proto = .ok) ∧
    (isValid proto → ∀ fresh heap raw, heap fresh = none →
      ∃ heap' s, ofProto fresh heap raw proto = some (heap', s) ∧
        s.numElements.toInt = exactProduct proto ∧ s.numElements ≤ maxElements)

def Refused (proto : List Int64) : Prop :=
  maxDimensions < proto.length ∨ (∃ size ∈ proto, size < 0) ∨
    ∃ pre, pre <+: proto ∧ 2 ^ 40 < exactProduct pre % 2 ^ 64 ∧ exactProduct pre % 2 ^ 64 < 2 ^ 63

def Fits (proto : List Int64) : Prop :=
  (∀ pre, pre <+: proto → exactProduct pre % 2 ^ 64 < 2 ^ 63) ∧ exactProduct proto ≤ 2 ^ 40

theorem isValidLoop_iff (n : Int64) (sizes : List Int64) :
    isValidLoop n sizes ↔ (∀ size ∈ sizes, 0 ≤ size) ∧
      ∀ pre, pre <+: sizes → pre ≠ [] → pre.foldl (· * ·) n ≤ maxElements := by
  induction sizes generalizing n with
  | nil =>
    exact iff_of_true rfl ⟨by simp, forall_products_nil (P := fun n => n ≤ maxElements) n⟩
  | cons size sizes ih =>
    rw [isValidLoop, forall_mem_cons,
      forall_products_cons (P := fun n => n ≤ maxElements)]
    split
    · rename_i hNeg
      exact iff_of_false nofun fun h => absurd hNeg (Int64.not_lt.mpr h.1.1)
    · rename_i hNonneg
      split
      · rename_i hLarge
        exact iff_of_false nofun fun h => absurd hLarge (Int64.not_lt.mpr h.2.1)
      · rename_i hSmall
        rw [ih, and_iff_right (Int64.not_lt.mp hNonneg), and_iff_right (Int64.not_lt.mp hSmall)]

theorem isValidShapeLoop_iff (proto : List Int64) (n : Int64) (sizes : List Int64) :
    isValidShapeLoop proto n sizes = .ok ↔ isValidLoop n sizes := by
  induction sizes generalizing n with
  | nil => exact iff_of_true rfl rfl
  | cons size sizes ih =>
    rw [isValidShapeLoop, isValidLoop]
    split
    · exact iff_of_false nofun nofun
    · split
      · exact iff_of_false nofun nofun
      · exact ih (n * size)

theorem isValidShape_iff (proto : List Int64) :
    isValid proto ↔ isValidShape proto = .ok := by
  rw [isValid, isValidShape]
  split
  · exact iff_of_false nofun nofun
  · exact (isValidShapeLoop_iff proto 1 proto).symm

theorem toInt_numElementsOf (sizes : List Int64) :
    (numElementsOf sizes).toInt = (exactProduct sizes).bmod (2 ^ 64) := by
  have hOne : (1 : Int64).toInt = 1 := rfl
  rw [numElementsOf, toInt_foldl_mul, hOne, Int.one_mul]
  rfl

theorem numElementsOf_le_iff (sizes : List Int64) : numElementsOf sizes ≤ maxElements ↔
    ¬(2 ^ 40 < exactProduct sizes % 2 ^ 64 ∧ exactProduct sizes % 2 ^ 64 < 2 ^ 63) := by
  have hMax : maxElements.toInt = 2 ^ 40 := rfl
  rw [Int64.le_iff_toInt_le, toInt_numElementsOf]
  obtain ⟨hRange, hEq⟩ | ⟨hRange, hEq⟩ := bmod_cases (exactProduct sizes)
  · omega
  · omega

theorem isValid_iff (proto : List Int64) : isValid proto ↔ ¬Refused proto := by
  rw [isValid, Refused, not_or, not_or]
  split
  · rename_i hLong
    exact iff_of_false nofun fun h => h.1 hLong
  · rename_i hShort
    rw [isValidLoop_iff, and_iff_right hShort]
    refine and_congr ?_ ?_
    · simp only [not_exists, not_and, Int64.not_lt]
    · constructor
      · rintro h ⟨pre, hPre, hLarge⟩
        obtain rfl | hNe := eq_or_ne pre []
        · exact absurd hLarge.1 (by decide)
        · exact (numElementsOf_le_iff pre).mp (h pre hPre hNe) hLarge
      · intro h pre hPre _
        exact (numElementsOf_le_iff pre).mpr fun hLarge => h ⟨pre, hPre, hLarge⟩

theorem validSizes_iff {proto : List Int64} (h : isValid proto) :
    ValidSizes proto ↔ ∀ pre, pre <+: proto → exactProduct pre % 2 ^ 64 < 2 ^ 63 := by
  have hSign : ∀ pre, 0 ≤ numElementsOf pre ↔ exactProduct pre % 2 ^ 64 < 2 ^ 63 := by
    intro pre
    rw [Int64.le_iff_toInt_le, toInt_numElementsOf, Int64.toInt_zero, bmod_nonneg_iff]
  have hNot := (isValid_iff proto).mp h
  rw [Refused, not_or, not_or, Nat.not_lt] at hNot
  obtain ⟨hLength, hNonneg, hSmall⟩ := hNot
  constructor
  · intro hValid pre hPre
    exact (hSign pre).mp (hValid.products pre hPre).1
  · intro hProducts
    refine ⟨hLength, fun size hSize => ?_, fun pre hPre =>
      ⟨(hSign pre).mpr (hProducts pre hPre), ?_⟩⟩
    · exact Int64.not_lt.mp fun hNeg => hNonneg ⟨size, hSize, hNeg⟩
    · exact (numElementsOf_le_iff pre).mpr fun hLarge => hSmall ⟨pre, hPre, hLarge⟩

theorem safe_iff (proto : List Int64) : Safe proto ↔ Refused proto ∨ Fits proto := by
  have hMax : maxElements.toInt = 2 ^ 40 := rfl
  rw [Safe, and_iff_right (isValidShape_iff proto), or_iff_not_imp_left, ← isValid_iff]
  refine imp_congr_right fun hValid => ?_
  have hMeets : ∀ {fresh heap} (raw : TensorShape), heap fresh = none →
      Meets fresh heap raw.empty (ValidSizes proto) proto (ofProto fresh heap raw proto) := by
    intro fresh heap raw hFree
    have hSpare : Spare heap raw.empty fresh := by
      rw [Spare, release_of_tag (by rw [tag_empty]; decide)]
      exact hFree
    exact addDims_meets (denotes_empty heap raw) hSpare proto
  have hSizes := validSizes_iff hValid
  constructor
  · intro h
    obtain ⟨heap', s, hBuilt, hExact, hLe⟩ :=
      h 0 (fun _ => none) ⟨replicate 16 0, 0, rfl⟩ rfl
    have hBuild := @hMeets 0 (fun _ => none) ⟨replicate 16 0, 0, rfl⟩ rfl
    rw [hBuilt] at hBuild
    rw [Int64.le_iff_toInt_le, hExact] at hLe
    exact ⟨hSizes.mp hBuild.1, hLe⟩
  · rintro ⟨hProducts, hLe⟩ fresh heap raw hFree
    have hBuild := hMeets raw hFree
    have hNonneg : 0 ≤ exactProduct proto := prod_nonneg (hSizes.mpr hProducts).nonneg
    cases hBuilt : ofProto fresh heap raw proto with
    | none =>
      rw [hBuilt] at hBuild
      exact absurd (hSizes.mpr hProducts) hBuild
    | some r =>
      rw [hBuilt] at hBuild
      have hExact : r.2.numElements.toInt = exactProduct proto := by
        rw [hBuild.2.denotes.numElements, toInt_numElementsOf, bmod_of_lt (by omega) (by omega)]
      refine ⟨r.1, r.2, rfl, hExact, ?_⟩
      rw [Int64.le_iff_toInt_le, hExact]
      exact hLe

theorem square_not_safe : ¬Safe [4294967296, 4294967296] := by
  intro h
  have hValid : isValid [4294967296, 4294967296] := by decide
  obtain ⟨heap', s, hBuilt, hExact, -⟩ :=
    h.2 hValid 0 (fun _ => none) ⟨replicate 16 0, 0, rfl⟩ rfl
  obtain rfl := congrArg Prod.snd (Option.some.inj hBuilt)
  exact absurd hExact (by decide)

end TensorFlowOnSpark.Framework.TensorShape
