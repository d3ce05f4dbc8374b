import TensorFlowOnSpark.Framework.TensorShapeMutators
import TensorFlowOnSpark.Lib.TwosComplement

/-!
# Shapes that share a heap

Any number of `TensorShape` objects are constructed, copied, moved, changed and destroyed.
-/

namespace TensorFlowOnSpark.Framework.TensorShape

open Bytes List Function Option

def dimSize (heap : Heap) (s : TensorShape) (d : Nat) : Option Int64 :=
  (s.dimSizes heap).bind fun vals => vals[d]?

def slowCopyFrom (fresh : UInt64) (heap : Heap) (s b : TensorShape) :
    Option (Heap × TensorShape) :=
  if b.tag ≠ repOutOfLine then
    some (release heap s, { s with buf := b.buf, buf_length := b.buf_length })
  else
    match heap b.pointer with
    | none => none
    | some vals =>
      let s := (s.setNdims b.ndims).setDataType b.dataType
      if s.tag = repOutOfLine then
        -- The vector is already allocated.
        some (update heap s.pointer (some vals), s)
      else
        some (update heap fresh (some vals),
          (s.setTag repOutOfLine).write 0 (encodeLE 8 fresh.toNat) (pointer_fits fresh))

def copyFrom (fresh : UInt64) (heap : Heap) (s b : TensorShape) : Option (Heap × TensorShape) :=
  let s := { s with numElements := b.numElements }
  if s.tag ≠ repOutOfLine ∧ b.tag ≠ repOutOfLine then
    some (heap, { s with buf := b.buf, buf_length := b.buf_length })
  else slowCopyFrom fresh heap s b

def copyConstruct (fresh : UInt64) (heap : Heap) (raw b : TensorShape) :
    Option (Heap × TensorShape) :=
  let s := { raw with numElements := b.numElements }
  if b.tag ≠ repOutOfLine then
    some (heap, { s with buf := b.buf, buf_length := b.buf_length })
  else slowCopyFrom fresh heap (s.setTag rep16) b

inductive Edit where
  | addDim (size : Int64)
  | insertDim (d : Int) (size : Int64)
  | setDim (d : Int) (size : Int64)
  | removeDim (d : Int)

namespace Edit

def run (fresh : UInt64) (heap : Heap) (s : TensorShape) : Edit → Option (Heap × TensorShape)
  | addDim size => s.addDim fresh heap size
  | insertDim d size => s.insertDim fresh heap d size
  | setDim d size => s.setDim fresh heap d size
  | removeDim d => s.removeDim fresh heap d

def apply (dims : List Int64) : Edit → List Int64
  | addDim size => dims ++ [size]
  | insertDim d size => dims.insertIdx d.toNat size
  | setDim d size => dims.set d.toNat size
  | removeDim d => dims.eraseIdx d.toNat

def InRange (dims : List Int64) : Edit → Prop
  | addDim _ => True
  | insertDim d _ => 0 ≤ d ∧ d ≤ dims.length
  | setDim d _ | removeDim d => 0 ≤ d ∧ d < dims.length

/-- No `CHECK` refuses the edit of the list. -/
def Passes (dims : List Int64) (e : Edit) : Prop := e.InRange dims ∧ ValidSizes (e.apply dims)

end Edit

inductive Op where
  | construct (x : Nat) (raw : TensorShape)
  | copyConstruct (x y : Nat) (raw : TensorShape)
  | moveConstruct (x y : Nat)
  | copyAssign (x y : Nat)
  | moveAssign (x y : Nat)
  | destroy (x : Nat)
  | edit (x : Nat) (e : Edit)
  | appendShape (x y : Nat)
  | clear (x : Nat)
  | setDataType (x : Nat) (dt : UInt8)

structure World where
  heap : Heap
  shapes : Nat → Option TensorShape

namespace World

def empty : World := ⟨fun _ => none, fun _ => none⟩

def put (w : World) (x : Nat) (r : Heap × TensorShape) : World :=
  ⟨r.1, update w.shapes x (some r.2)⟩

/-- The loop of `AppendShape`: `end()` is fixed at its start, the dimensions are read one by
one. -/
def appendLoop (fresh : UInt64) (x y : Nat) : Nat → Nat → World → Option World
  | 0, _, w => some w
  | n + 1, d, w =>
    (w.shapes y).bind fun b =>
      (b.dimSize w.heap d).bind fun size =>
        (w.shapes x).bind fun s =>
          (s.addDim fresh w.heap size).bind fun r => appendLoop fresh x y n (d + 1) (w.put x r)

/-- `b` is moved to `x`, and `y`, where it was, no longer owns a vector. -/
def moveTo (w : World) (heap : Heap) (x y : Nat) (b : TensorShape) : World :=
  ⟨heap, update (update w.shapes x (some b)) y (some (b.setTag rep16))⟩

/-- `none` is a failed `CHECK`; `fresh` is the address that `new` would return. -/
def step (w : World) (fresh : UInt64) : Op → Option World
  | .construct x raw => some (w.put x (w.heap, raw.empty))
  | .copyConstruct x y raw =>
    (w.shapes y).bind fun b => (copyConstruct fresh w.heap raw b).map (w.put x)
  | .moveConstruct x y => (w.shapes y).map fun b => w.moveTo w.heap x y b
  | .copyAssign x y =>
    (w.shapes x).bind fun s => (w.shapes y).bind fun b => (s.copyFrom fresh w.heap b).map (w.put x)
  | .moveAssign x y =>
    (w.shapes x).bind fun s => (w.shapes y).map fun b => w.moveTo (release w.heap s) x y b
  | .destroy x =>
    (w.shapes x).map fun s => ⟨release w.heap s, update w.shapes x none⟩
  | .edit x e => (w.shapes x).bind fun s => (e.run fresh w.heap s).map (w.put x)
  | .appendShape x y => (w.shapes y).bind fun b => appendLoop fresh x y b.ndims 0 w
  | .clear x => (w.shapes x).map fun s => w.put x (s.clear w.heap)
  | .setDataType x dt => (w.shapes x).map fun s => w.put x (w.heap, s.setDataType dt)

end World

structure Value where
  dims : Option (List Int64)
  dataType : UInt8
deriving DecidableEq

abbrev Values := Nat → Option Value

namespace Values

def sizes (a : Values) (x : Nat) : Option (List Int64) := (a x).bind Value.dims

def edit (a : Values) (x : Nat) (f : List Int64 → List Int64) : Values :=
  update a x ((a x).map fun v => { v with dims := v.dims.map f })

def next (a : Values) : Op → Values
  | .construct x _ | .clear x => update a x (some ⟨some [], 0⟩)
  | .copyConstruct x y _ | .copyAssign x y => update a x (a y)
  | .moveConstruct x y | .moveAssign x y =>
    update (update a x (a y)) y ((a y).map fun v => { v with dims := none })
  | .destroy x => update a x none
  | .edit x e => a.edit x e.apply
  | .appendShape x y => a.edit x fun dims => dims ++ (a.sizes y).getD []
  | .setDataType x dt => update a x ((a x).map fun v => { v with dataType := dt })

def Legal (a : Values) : Op → Prop
  | .construct x _ => a x = none
  | .copyConstruct x y _ | .moveConstruct x y => a x = none ∧ (a y).isSome
  | .copyAssign x y | .moveAssign x y => (a x).isSome ∧ (a y).isSome
  | .destroy x | .clear x | .setDataType x _ => (a x).isSome
  | .edit x _ => (a.sizes x).isSome
  | .appendShape x y => (a.sizes x).isSome ∧ (a.sizes y).isSome

/-- No `CHECK` refuses the operation. -/
def Passes (a : Values) : Op → Prop
  | .edit x e => ∀ dims, a.sizes x = some dims → e.Passes dims
  | .appendShape x y =>
    ∀ dims other, a.sizes x = some dims → a.sizes y = some other → ValidSizes (dims ++ other)
  | _ => True

end Values

structure HasValue (heap : Heap) (s : TensorShape) (v : Value) : Prop where
  dataType : s.dataType = v.dataType
  denotes : ∀ dims, v.dims = some dims → Denotes heap s dims
  moved : v.dims = none → s.tag = rep16

structure Models (w : World) (a : Values) : Prop where
  value : ∀ x, Rel (HasValue w.heap) (w.shapes x) (a x)
  owned : ∀ address, (w.heap address).isSome → ∃ x s, w.shapes x = some s ∧ s.Owns address
  unique : ∀ {x y s t address}, w.shapes x = some s → w.shapes y = some t → s.Owns address →
    t.Owns address → x = y

def Op.target : Op → Nat
  | .construct x _ | .copyConstruct x _ _ | .moveConstruct x _ | .copyAssign x _
  | .moveAssign x _ | .destroy x | .edit x _ | .appendShape x _ | .clear x
  | .setDataType x _ => x

/-- `new` returns an address that is not in use. -/
def NewIsSpare (w : World) (fresh : UInt64) (op : Op) : Prop :=
  match w.shapes op.target with
  | none => w.heap fresh = none
  | some s => Spare w.heap s fresh

inductive Reaches : World → Values → Prop where
  | empty : Reaches World.empty fun _ => none
  | step {w w' : World} {a : Values} (reaches : Reaches w a) (op : Op) (fresh : UInt64)
      (legal : a.Legal op) (spare : NewIsSpare w fresh op) (done : w.step fresh op = some w') :
      Reaches w' (a.next op)

variable {dims : List Int64}

theorem Edit.run_meets {fresh : UInt64} {heap : Heap} {s : TensorShape} (h : Denotes heap s dims)
    (hSpare : Spare heap s fresh) (e : Edit) :
    Meets fresh heap s (e.Passes dims) (e.apply dims) (e.run fresh heap s) := by
  cases e with
  | addDim size => exact (addDim_meets h hSpare size).congr (and_iff_right trivial)
  | insertDim d size => exact insertDim_meets h hSpare d size
  | setDim d size => exact setDim_meets h hSpare d size
  | removeDim d => exact removeDim_meets h hSpare d

variable {address : UInt64}

section Object

variable {fresh : UInt64} {heap heap' : Heap} {s b : TensorShape} {v : Value}

theorem HasValue.live (h : HasValue heap s v) (hOwns : s.Owns address) :
    (heap address).isSome := by
  cases hDims : v.dims with
  | none => exact absurd hOwns (not_owns_of_tag (by rw [h.moved hDims]; decide) address)
  | some dims => exact (h.denotes dims hDims).live hOwns

theorem HasValue.of_heap_eq (h : HasValue heap s v)
    (hHeap : ∀ address, s.Owns address → heap' address = heap address) : HasValue heap' s v where
  dataType := h.dataType
  denotes dims hDims :=
    have hDenotes := h.denotes dims hDims
    ⟨⟨hDenotes.layout.ndims, hDenotes.layout.nonneg, hDenotes.layout.reads.of_heap_eq hHeap⟩,
      hDenotes.valid, hDenotes.numElements⟩
  moved := h.moved

theorem hasValue_moved (h : HasValue heap s v) (heap' : Heap) :
    HasValue heap' (s.setTag rep16) { v with dims := none } where
  dataType := (dataType_setTag s rep16).trans h.dataType
  denotes _ hDims := nomatch hDims
  moved _ := tag_setTag s rep16

theorem Becomes.hasValue {s' : TensorShape} (h : Becomes fresh heap s dims heap' s')
    (hType : s.dataType = v.dataType) :
    HasValue heap' s' { v with dims := some dims } where
  dataType := h.dataType.trans hType
  denotes _ hDims := some.inj hDims ▸ h.denotes
  moved hDims := nomatch hDims

theorem HasValue.of_vector (h : HasValue heap b v) {vals : List Int64} (hb : b.Owns address)
    (hVals : heap address = some vals) (hTag : s.tag = repOutOfLine)
    (hHeap : heap' s.pointer = some vals) (hNdims : s.ndims = b.ndims)
    (hType : s.dataType = b.dataType) (hNum : s.numElements = b.numElements) :
    HasValue heap' s v where
  dataType := hType.trans h.dataType
  denotes dims hDims := by
    have hDenotes := h.denotes dims hDims
    have hEq : vals = dims := by
      cases hDenotes.layout.reads with
      | rep16 tag => exact absurd (tag.symm.trans hb.1) (by decide)
      | rep32 tag => exact absurd (tag.symm.trans hb.1) (by decide)
      | outOfLine _ hVector => exact some.inj (hVals.symm.trans (hb.2 ▸ hVector))
    exact ⟨⟨hNdims.trans hDenotes.layout.ndims, hDenotes.layout.nonneg,
      .outOfLine hTag (hEq ▸ hHeap)⟩, hDenotes.valid, hNum.trans hDenotes.numElements⟩
  moved hDims := absurd ((h.moved hDims).symm.trans hb.1) (by decide)

theorem copyFrom_spec (h : HasValue heap b v) (hSpare : Spare heap s fresh) :
    ∃ r, s.copyFrom fresh heap b = some r ∧ Mutates fresh heap s r.1 r.2 ∧
      HasValue r.1 r.2 v := by
  obtain hTag | hTag := Classical.em (b.tag = repOutOfLine)
  · obtain ⟨vals, hVals⟩ := isSome_iff_exists.mp (h.live ⟨hTag, rfl⟩)
    have hLess : b.ndims < 256 := UInt8.toNat_lt _
    rw [copyFrom, if_neg (fun hCase => hCase.2 hTag), slowCopyFrom,
      if_neg (fun hCase => hCase hTag), hVals]
    simp only [tag_setDataType, tag_setNdims]
    split
    · rename_i hOwn
      have hPointer : (({ s with numElements := b.numElements }.setNdims b.ndims).setDataType
          b.dataType).pointer = s.pointer :=
        (pointer_setDataType _ _).trans (pointer_setNdims _ _)
      have hTag' : (({ s with numElements := b.numElements }.setNdims b.ndims).setDataType
          b.dataType).tag = repOutOfLine := by rw [tag_setDataType, tag_setNdims]; exact hOwn
      refine ⟨_, rfl, .of_kept hSpare ⟨hOwn, rfl⟩ (by rw [hPointer]) ⟨hTag', hPointer⟩, ?_⟩
      exact h.of_vector ⟨hTag, rfl⟩ hVals hTag' (update_self ..)
        ((ndims_setDataType _ _).trans (ndims_setNdims _ hLess)) (dataType_setDataType _ _) rfl
    · rename_i hInline
      have hHeap : release heap s = heap := release_of_tag hInline
      obtain ⟨hOwns, hNdims, hType⟩ := owns_fresh
        (({ s with numElements := b.numElements }.setNdims b.ndims).setDataType b.dataType) fresh
      refine ⟨_, rfl, .of_fresh (by rw [hHeap]) hOwns,
        h.of_vector ⟨hTag, rfl⟩ hVals hOwns.1 ?_ ?_ ?_ rfl⟩
      · rw [hOwns.2]
        exact update_self ..
      · rw [hNdims, ndims_setDataType]
        exact ndims_setNdims _ hLess
      · rw [hType, dataType_setDataType]
  · have hValue : HasValue (release heap s) b v :=
      h.of_heap_eq fun address hOwns => absurd hOwns (not_owns_of_tag hTag address)
    rw [copyFrom]
    split
    · rename_i hInline
      have hHeap : release heap s = heap := release_of_tag hInline.1
      exact ⟨(heap, b), rfl, .of_inline hSpare hHeap.symm hTag, hHeap ▸ hValue⟩
    · rw [slowCopyFrom, if_pos hTag]
      exact ⟨(release heap s, b), rfl, .of_inline hSpare rfl hTag, hValue⟩

theorem copyConstruct_eq (raw : TensorShape) :
    copyConstruct fresh heap raw b = (raw.setTag rep16).copyFrom fresh heap b := by
  have hTag : (raw.setTag rep16).tag ≠ repOutOfLine := by rw [tag_setTag]; decide
  rw [copyConstruct, copyFrom]
  split
  · rename_i hInline
    rw [if_pos ⟨hTag, hInline⟩]
  · rename_i hOut
    rw [if_neg (fun hCase => hOut hCase.2)]
    rfl

end Object

section Objects

variable {w : World} {a : Values} {fresh : UInt64} {x y : Nat} {s b : TensorShape} {v : Value}

variable (h : Models w a)
include h

theorem Models.get (hs : w.shapes x = some s) : ∃ v, a x = some v ∧ HasValue w.heap s v := by
  have hValue := h.value x
  rw [hs] at hValue
  cases hValue' : a x with
  | none =>
    rw [hValue'] at hValue
    cases hValue
  | some v =>
    rw [hValue'] at hValue
    cases hValue with
    | some hValue => exact ⟨v, rfl, hValue⟩

theorem Models.get_of_isSome (hx : (a x).isSome) :
    ∃ s v, w.shapes x = some s ∧ a x = some v ∧ HasValue w.heap s v := by
  have hValue := h.value x
  cases hs : w.shapes x with
  | none =>
    rw [hs] at hValue
    cases hValue' : a x with
    | none => rw [hValue'] at hx; cases hx
    | some v => rw [hValue'] at hValue; cases hValue
  | some s =>
    obtain ⟨v, hv, hValue⟩ := h.get hs
    exact ⟨s, v, rfl, hv, hValue⟩

theorem Models.get_none (hx : a x = none) : w.shapes x = none := by
  cases hs : w.shapes x with
  | none => rfl
  | some s =>
    obtain ⟨v, hv, -⟩ := h.get hs
    rw [hx] at hv
    cases hv

theorem Models.value_of_frame {heap' : Heap}
    (hFrame : ∀ s address, w.shapes x = some s → s.Owns address →
      heap' address = w.heap address) : Rel (HasValue heap') (w.shapes x) (a x) := by
  have hValue := h.value x
  cases hs : w.shapes x with
  | none =>
    rw [hs] at hValue
    cases hv : a x with
    | none => exact .none
    | some v => rw [hv] at hValue; cases hValue
  | some s =>
    obtain ⟨v, hv, hValue⟩ := h.get hs
    rw [hv]
    exact .some (hValue.of_heap_eq fun address => hFrame s address hs)

theorem Models.apart (hSpare : Spare w.heap s fresh)
    (hOld : ∀ address, s.Owns address → ∃ t, w.shapes x = some t ∧ t.Owns address) {t : TensorShape}
    (hNe : y ≠ x) (ht : w.shapes y = some t) (hOwns : t.Owns address)
    : address ≠ fresh ∧ ¬s.Owns address := by
  have hNot : ¬s.Owns address := by
    intro hOwns'
    obtain ⟨t', ht', hOwns''⟩ := hOld address hOwns'
    exact hNe (h.unique ht ht' hOwns hOwns'')
  refine ⟨?_, hNot⟩
  rintro rfl
  obtain ⟨u, -, hValue⟩ := h.get ht
  have hLive := hValue.live hOwns
  rw [← @release_of_not_owns _ w.heap _ hNot, hSpare] at hLive
  cases hLive

variable {r : Heap × TensorShape}

/-- One object is changed, or is new and owned nothing. -/
theorem Models.put (hSpare : Spare w.heap s fresh)
    (hOld : ∀ address, s.Owns address → ∃ t, w.shapes x = some t ∧ t.Owns address)
    (hGone : ∀ t address, w.shapes x = some t → t.Owns address → s.Owns address)
    (hMutates : Mutates fresh w.heap s r.1 r.2) (hValue : HasValue r.1 r.2 v)
    : Models (w.put x r) (update a x (some v)) where
  value z := by
    obtain rfl | hNe := eq_or_ne z x
    · change Rel _ (update w.shapes z _ z) _
      rw [update_self, update_self]
      exact .some hValue
    · change Rel _ (update w.shapes x _ z) _
      rw [update_of_ne hNe, update_of_ne hNe]
      refine h.value_of_frame fun t address ht hOwns => ?_
      obtain ⟨hFresh, hNot⟩ := h.apart hSpare hOld hNe ht hOwns
      exact hMutates.frame address hFresh hNot
  owned address hSome := by
    obtain hNear | hFar := Classical.em (address = fresh ∨ s.Owns address)
    · exact ⟨x, r.2, update_self .., (hMutates.live address hNear).mp hSome⟩
    · rw [not_or] at hFar
      change (r.1 address).isSome at hSome
      rw [hMutates.frame address hFar.1 hFar.2] at hSome
      obtain ⟨z, t, ht, hOwns⟩ := h.owned address hSome
      have hNe : z ≠ x := by
        rintro rfl
        exact hFar.2 (hGone t address ht hOwns)
      exact ⟨z, t, (update_of_ne hNe _ _).trans ht, hOwns⟩
  unique := by
    intro z z' t t' address ht ht' hOwns hOwns'
    -- The new owner has no vector of another object.
    have hNew : ∀ {z : Nat} {t : TensorShape}, z ≠ x → (w.put x r).shapes z = some t →
        t.Owns address → ¬r.2.Owns address := by
      intro z t hNe ht hOwns hOwns'
      obtain ⟨hFresh, hNot⟩ := h.apart hSpare hOld hNe
        ((update_of_ne hNe _ _).symm.trans ht) hOwns
      exact (hMutates.owner address hOwns').elim hFresh hNot
    have hSelf : ∀ {t : TensorShape}, (w.put x r).shapes x = some t → t = r.2 := fun ht =>
      some.inj (ht.symm.trans (update_self ..))
    obtain rfl | hNe := eq_or_ne z x
    · obtain rfl | hNe' := eq_or_ne z' z
      · rfl
      · exact absurd (hSelf ht ▸ hOwns) (hNew hNe' ht' hOwns')
    · obtain rfl | hNe' := eq_or_ne z' x
      · exact absurd (hSelf ht' ▸ hOwns') (hNew hNe ht hOwns)
      · exact h.unique ((update_of_ne hNe _ _).symm.trans ht)
          ((update_of_ne hNe' _ _).symm.trans ht') hOwns hOwns'

theorem Models.put_new (hx : w.shapes x = none) (hs : s.tag ≠ repOutOfLine)
    (hSpare : Spare w.heap s fresh) (hMutates : Mutates fresh w.heap s r.1 r.2)
    (hValue : HasValue r.1 r.2 v) :
    Models (w.put x r) (update a x (some v)) :=
  h.put hSpare (fun address hOwns => absurd hOwns (not_owns_of_tag hs address))
    (fun _ _ ht => nomatch hx.symm.trans ht) hMutates hValue

theorem Models.put_same (hs : w.shapes x = some s) (hSpare : Spare w.heap s fresh)
    (hMutates : Mutates fresh w.heap s r.1 r.2) (hValue : HasValue r.1 r.2 v)
    : Models (w.put x r) (update a x (some v)) :=
  h.put hSpare (fun _ hOwns => ⟨s, hs, hOwns⟩)
    (fun _ _ ht hOwns => some.inj (hs.symm.trans ht) ▸ hOwns) hMutates hValue

theorem Models.erase (hs : w.shapes x = some s) :
    Models ⟨release w.heap s, update w.shapes x none⟩ (update a x none) where
  value z := by
    obtain rfl | hNe := eq_or_ne z x
    · change Rel _ (update w.shapes z _ z) _
      rw [update_self, update_self]
      exact .none
    · change Rel _ (update w.shapes x _ z) _
      rw [update_of_ne hNe, update_of_ne hNe]
      exact h.value_of_frame fun t address ht hOwns =>
        release_of_not_owns fun hOwns' => hNe (h.unique ht hs hOwns hOwns')
  owned address hSome := by
    have hNot : ¬s.Owns address := by
      intro hOwns
      change (release w.heap s address).isSome at hSome
      rw [release_of_owns hOwns] at hSome
      cases hSome
    change (release w.heap s address).isSome at hSome
    rw [release_of_not_owns hNot] at hSome
    obtain ⟨z, t, ht, hOwns⟩ := h.owned address hSome
    have hNe : z ≠ x := by
      rintro rfl
      exact hNot (some.inj (hs.symm.trans ht) ▸ hOwns)
    exact ⟨z, t, (update_of_ne hNe _ _).trans ht, hOwns⟩
  unique := by
    intro z z' t t' address ht ht' hOwns hOwns'
    have hNe : ∀ {z : Nat} {t : TensorShape},
        update w.shapes x none z = some t → z ≠ x := by
      rintro z t ht rfl
      rw [update_self] at ht
      cases ht
    exact h.unique ((update_of_ne (hNe ht) _ _).symm.trans ht)
      ((update_of_ne (hNe ht') _ _).symm.trans ht') hOwns hOwns'

/-- A vector changes hands. -/
theorem Models.transfer (hx : w.shapes x = none) (hb : w.shapes y = some b) :
    Models (w.moveTo w.heap x y b) (a.next (.moveConstruct x y)) := by
  obtain ⟨v, hv, hValue⟩ := h.get hb
  have hNe : y ≠ x := by
    rintro rfl
    rw [hx] at hb
    cases hb
  have hMoved : (b.setTag rep16).tag ≠ repOutOfLine := by rw [tag_setTag]; decide
  have hShapes : ∀ z t address, (w.moveTo w.heap x y b).shapes z = some t → t.Owns address →
      (z = x ∧ t = b) ∨ (z ≠ x ∧ z ≠ y ∧ w.shapes z = some t) := by
    intro z t address ht hOwns
    change update (update w.shapes x (some b)) y _ z = some t at ht
    obtain rfl | hy := eq_or_ne z y
    · rw [update_self] at ht
      obtain rfl := some.inj ht
      exact absurd hOwns (not_owns_of_tag hMoved address)
    · rw [update_of_ne hy] at ht
      obtain rfl | hx := eq_or_ne z x
      · rw [update_self] at ht
        exact Or.inl ⟨rfl, (some.inj ht).symm⟩
      · rw [update_of_ne hx] at ht
        exact Or.inr ⟨hx, hy, ht⟩
  refine ⟨fun z => ?_, fun address hSome => ?_, fun {z z' t t' address} ht ht' hOwns hOwns' => ?_⟩
  · change Rel _ (update (update w.shapes x (some b)) y _ z)
      (update (update a x (a y)) y _ z)
    obtain rfl | hy := eq_or_ne z y
    · rw [update_self, update_self, hv]
      exact .some (hasValue_moved hValue w.heap)
    · rw [update_of_ne hy, update_of_ne hy]
      obtain rfl | hx := eq_or_ne z x
      · rw [update_self, update_self, hv]
        exact .some hValue
      · rw [update_of_ne hx, update_of_ne hx]
        exact h.value z
  · obtain ⟨z, t, ht, hOwns⟩ := h.owned address hSome
    have hzx : z ≠ x := by
      rintro rfl
      rw [hx] at ht
      cases ht
    obtain rfl | hy := eq_or_ne z y
    · refine ⟨x, b, ?_, some.inj (hb.symm.trans ht) ▸ hOwns⟩
      exact (update_of_ne hNe.symm _ _).trans (update_self ..)
    · refine ⟨z, t, ?_, hOwns⟩
      exact ((update_of_ne hy _ _).trans (update_of_ne hzx _ _)).trans ht
  · obtain ⟨hzx, rfl⟩ | ⟨-, hzy, hOld⟩ := hShapes z t address ht hOwns
    · obtain ⟨hzx', -⟩ | ⟨-, hzy', hOld'⟩ := hShapes z' t' address ht' hOwns'
      · exact hzx.trans hzx'.symm
      · exact absurd (h.unique hOld' hb hOwns' hOwns) hzy'
    · obtain ⟨-, rfl⟩ | ⟨-, -, hOld'⟩ := hShapes z' t' address ht' hOwns'
      · exact absurd (h.unique hOld hb hOwns hOwns') hzy
      · exact h.unique hOld hOld' hOwns hOwns'

/-- The dimensions of `y` at the start are read although `x` may be the same object. -/
theorem Models.appendLoop {dims cur other : List Int64} {n d : Nat} (hv : a x = some v)
    (hx : v.dims = some dims) (hy : a.sizes y = some cur) (hPrefix : other <+: cur)
    (hLength : d + n = other.length) (hSpare : ∀ s, w.shapes x = some s → Spare w.heap s fresh) :
    match World.appendLoop fresh x y n d w with
    | none => ¬ValidSizes (dims ++ other.drop d)
    | some w' => ValidSizes (dims ++ other.drop d) ∧
        Models w' (update a x (some { v with dims := some (dims ++ other.drop d) })) := by
  obtain ⟨s, v', hs, hv', hValue⟩ := h.get_of_isSome (x := x) (by rw [hv]; rfl)
  obtain rfl := some.inj (hv.symm.trans hv')
  induction n generalizing w a v dims cur d s with
  | zero =>
    rw [drop_of_length_le (by omega), append_nil]
    refine ⟨(hValue.denotes dims hx).valid, ?_⟩
    have hSame : update a x (some { v with dims := some dims }) = a := by
      rw [← hx, ← hv, update_eq_self]
    rwa [hSame]
  | succ n ih =>
    obtain ⟨u, hu, hDims⟩ := bind_eq_some_iff.mp hy
    obtain ⟨b, u', hb, hu', hValue'⟩ := h.get_of_isSome (x := y) (by rw [hu]; rfl)
    obtain rfl := some.inj (hu.symm.trans hu')
    have hLess : d < other.length := by omega
    have hRead : b.dimSize w.heap d = some other[d] := by
      have hCur : d < cur.length := Nat.lt_of_lt_of_le hLess hPrefix.length_le
      rw [dimSize, (hValue'.denotes cur hDims).layout.dimSizes_eq, bind_some,
        getElem?_eq_getElem hCur, hPrefix.getElem hLess]
    have hAdd := addDim_meets (hValue.denotes dims hx) (hSpare s hs) other[d]
    have hSplit : dims ++ other.drop d = dims ++ [other[d]] ++ other.drop (d + 1) := by
      rw [drop_eq_getElem_cons hLess, append_assoc]
      rfl
    rw [World.appendLoop, hb, bind_some, hRead, bind_some, hs, bind_some, hSplit]
    cases hResult : s.addDim fresh w.heap other[d] with
    | none =>
      rw [hResult] at hAdd
      exact fun hValid => hAdd (hValid.of_prefix (prefix_append _ _))
    | some r =>
      rw [hResult] at hAdd
      have hBecomes := hAdd.2
      have hNew := hBecomes.hasValue hValue.dataType
      have hPut := h.put_same hs (hSpare s hs) hBecomes.mutates hNew
      have hShape : (w.put x r).shapes x = some r.2 := update_self ..
      have hStart : (update a x (some { v with dims := some (dims ++ [other[d]]) })) x =
          some { v with dims := some (dims ++ [other[d]]) } := update_self ..
      have hCur : ∃ cur', Values.sizes (update a x
          (some { v with dims := some (dims ++ [other[d]]) })) y = some cur' ∧
            other <+: cur' := by
        obtain rfl | hNe := eq_or_ne y x
        · obtain rfl := some.inj (hv.symm.trans hu)
          obtain rfl := some.inj (hx.symm.trans hDims)
          exact ⟨_, by rw [Values.sizes, hStart]; rfl, hPrefix.trans (prefix_append _ _)⟩
        · exact ⟨cur, by rw [Values.sizes, update_of_ne hNe, hu]; exact hDims, hPrefix⟩
      obtain ⟨cur', hCur, hPrefix'⟩ := hCur
      have hRest := ih (w := w.put x r) (d := d + 1) hPut hStart rfl hCur hPrefix' (by omega)
        (fun t ht => some.inj (hShape.symm.trans ht) ▸ hBecomes.mutates.spare)
        r.2 hShape hStart hNew
      rw [update_idem] at hRest
      exact hRest

end Objects

theorem empty_hasValue (heap : Heap) (raw : TensorShape) :
    HasValue heap raw.empty ⟨some [], 0⟩ where
  dataType := dataType_setDataType ((raw.setTag rep16).setNdims 0) 0
  denotes dims hDims := by
    obtain rfl := some.inj hDims
    exact denotes_empty heap raw
  moved hDims := nomatch hDims

theorem HasValue.setDataType {heap : Heap} {s : TensorShape} {v : Value} (h : HasValue heap s v)
    (dt : UInt8) : HasValue heap (s.setDataType dt) { v with dataType := dt } where
  dataType := dataType_setDataType s dt
  denotes dims hDims :=
    have hDenotes := h.denotes dims hDims
    ⟨⟨(ndims_setDataType s dt).trans hDenotes.layout.ndims, hDenotes.layout.nonneg,
      hDenotes.layout.reads.setDataType dt⟩, hDenotes.valid, hDenotes.numElements⟩
  moved hDims := (tag_setDataType s dt).trans (h.moved hDims)

/-- A step fails just when the operation on lists is refused. -/
theorem Models.step {w : World} {a : Values} {op : Op} {fresh : UInt64} (h : Models w a)
    (hLegal : a.Legal op) (hSpare : NewIsSpare w fresh op) :
    match w.step fresh op with
    | none => ¬a.Passes op
    | some w' => a.Passes op ∧ Models w' (a.next op) := by
  have hTagRaw : ∀ raw : TensorShape, (raw.setTag rep16).tag ≠ repOutOfLine := by
    intro raw
    rw [tag_setTag]
    decide
  have hTagEmpty : ∀ raw : TensorShape, raw.empty.tag ≠ repOutOfLine := by
    intro raw
    rw [tag_empty]
    decide
  have hSpareRaw : ∀ raw : TensorShape, w.heap fresh = none →
      Spare w.heap (raw.setTag rep16) fresh := by
    intro raw hFree
    rw [Spare, release_of_tag (hTagRaw raw)]
    exact hFree
  cases op with
  | construct x raw =>
    have hx := h.get_none hLegal
    simp only [NewIsSpare, Op.target, hx] at hSpare
    exact ⟨trivial, h.put_new hx (hTagRaw raw) (hSpareRaw raw hSpare)
      (.of_inline (hSpareRaw raw hSpare) (release_of_tag (hTagRaw raw)).symm (hTagEmpty raw))
      (empty_hasValue w.heap raw)⟩
  | copyConstruct x y raw =>
    have hx := h.get_none hLegal.1
    simp only [NewIsSpare, Op.target, hx] at hSpare
    obtain ⟨b, v, hb, hv, hValue⟩ := h.get_of_isSome hLegal.2
    obtain ⟨r, hCopy, hMutates, hValue'⟩ := copyFrom_spec hValue (hSpareRaw raw hSpare)
    have hStep : w.step fresh (.copyConstruct x y raw) = some (w.put x r) := by
      rw [World.step, hb, bind_some, copyConstruct_eq, hCopy, map_some]
    rw [hStep]
    refine ⟨trivial, ?_⟩
    rw [Values.next, hv]
    exact h.put_new hx (hTagRaw raw) (hSpareRaw raw hSpare) hMutates hValue'
  | moveConstruct x y =>
    obtain ⟨b, v, hb, hv, hValue⟩ := h.get_of_isSome hLegal.2
    have hStep : w.step fresh (.moveConstruct x y) = some (w.moveTo w.heap x y b) := by
      rw [World.step, hb, map_some]
    rw [hStep]
    exact ⟨trivial, h.transfer (h.get_none hLegal.1) hb⟩
  | copyAssign x y =>
    obtain ⟨s, u, hs, hu, -⟩ := h.get_of_isSome hLegal.1
    obtain ⟨b, v, hb, hv, hValue⟩ := h.get_of_isSome hLegal.2
    simp only [NewIsSpare, Op.target, hs] at hSpare
    obtain ⟨r, hCopy, hMutates, hValue'⟩ := copyFrom_spec hValue hSpare
    have hStep : w.step fresh (.copyAssign x y) = some (w.put x r) := by
      rw [World.step, hs, bind_some, hb, bind_some, hCopy, map_some]
    rw [hStep]
    refine ⟨trivial, ?_⟩
    rw [Values.next, hv]
    exact h.put_same hs hSpare hMutates hValue'
  | moveAssign x y =>
    obtain ⟨s, u, hs, hu, hValue⟩ := h.get_of_isSome hLegal.1
    obtain ⟨b, v, hb, hv, -⟩ := h.get_of_isSome hLegal.2
    have hStep : w.step fresh (.moveAssign x y) =
        some (w.moveTo (release w.heap s) x y b) := by
      rw [World.step, hs, bind_some, hb, map_some]
    rw [hStep]
    refine ⟨trivial, ?_⟩
    obtain rfl | hNe := eq_or_ne y x
    · obtain rfl := some.inj (hs.symm.trans hb)
      simp only [NewIsSpare, Op.target, hs] at hSpare
      have hPut := h.put_same (r := (release w.heap s, s.setTag rep16)) hs hSpare
        (.of_inline hSpare rfl (hTagRaw s)) (hasValue_moved hValue _)
      rw [Values.next, World.moveTo, update_idem, update_idem, hu]
      exact hPut
    · have hErase := h.erase hs
      have hb' : update w.shapes x none y = some b :=
        (update_of_ne hNe _ _).trans hb
      have hMove := hErase.transfer (x := x) (update_self ..) hb'
      rw [World.moveTo] at hMove ⊢
      simp only [Values.next] at hMove ⊢
      rw [update_idem, update_idem, update_of_ne hNe] at hMove
      exact hMove
  | destroy x =>
    obtain ⟨s, u, hs, hu, -⟩ := h.get_of_isSome hLegal
    have hStep : w.step fresh (.destroy x) =
        some ⟨release w.heap s, update w.shapes x none⟩ := by
      rw [World.step, hs, map_some]
    rw [hStep]
    exact ⟨trivial, h.erase hs⟩
  | edit x e =>
    obtain ⟨dims, hDims⟩ := isSome_iff_exists.mp hLegal
    obtain ⟨v, hv, hv'⟩ := bind_eq_some_iff.mp hDims
    obtain ⟨s, u, hs, hu, hValue⟩ := h.get_of_isSome (x := x) (by rw [hv]; rfl)
    obtain rfl := some.inj (hv.symm.trans hu)
    simp only [NewIsSpare, Op.target, hs] at hSpare
    have hMeets := e.run_meets (hValue.denotes dims hv') hSpare
    have hPasses : a.Passes (.edit x e) ↔ e.Passes dims := by
      refine ⟨fun hAll => hAll dims hDims, fun hPasses dims' hDims' => ?_⟩
      obtain rfl := some.inj (hDims.symm.trans hDims')
      exact hPasses
    rw [World.step, hs, bind_some, hPasses]
    cases hRun : e.run fresh w.heap s with
    | none =>
      rw [hRun] at hMeets
      exact hMeets
    | some r =>
      rw [hRun] at hMeets
      refine ⟨hMeets.1, ?_⟩
      rw [Values.next, Values.edit, hv, map_some, hv']
      exact h.put_same hs hSpare hMeets.2.mutates (hMeets.2.hasValue hValue.dataType)
  | appendShape x y =>
    obtain ⟨dims, hDims⟩ := isSome_iff_exists.mp hLegal.1
    obtain ⟨other, hOther⟩ := isSome_iff_exists.mp hLegal.2
    obtain ⟨v, hv, hv'⟩ := bind_eq_some_iff.mp hDims
    obtain ⟨u, hu, hu'⟩ := bind_eq_some_iff.mp hOther
    obtain ⟨b, u', hb, hub, hValue⟩ := h.get_of_isSome (x := y) (by rw [hu]; rfl)
    obtain rfl := some.inj (hu.symm.trans hub)
    have hLoop := h.appendLoop (n := b.ndims) (d := 0) hv hv' hOther
      prefix_rfl (by rw [(hValue.denotes other hu').layout.ndims, Nat.zero_add]) (by
        intro s hs
        simp only [NewIsSpare, Op.target, hs] at hSpare
        exact hSpare)
    have hPasses : a.Passes (.appendShape x y) ↔ ValidSizes (dims ++ other) := by
      refine ⟨fun hAll => hAll dims other hDims hOther, fun hValid dims' other' hd ho => ?_⟩
      obtain rfl := some.inj (hDims.symm.trans hd)
      obtain rfl := some.inj (hOther.symm.trans ho)
      exact hValid
    rw [World.step, hb, hPasses, Values.next, Values.edit, hv, map_some, hv', hOther]
    rwa [drop_zero] at hLoop
  | clear x =>
    obtain ⟨s, u, hs, hu, -⟩ := h.get_of_isSome hLegal
    simp only [NewIsSpare, Op.target, hs] at hSpare
    have hStep : w.step fresh (.clear x) = some (w.put x (release w.heap s, s.empty)) := by
      rw [World.step, hs]
      rfl
    rw [hStep]
    exact ⟨trivial, h.put_same hs hSpare (.of_inline hSpare rfl (hTagEmpty s))
      (empty_hasValue _ s)⟩
  | setDataType x dt =>
    obtain ⟨s, v, hs, hv, hValue⟩ := h.get_of_isSome hLegal
    simp only [NewIsSpare, Op.target, hs] at hSpare
    have hStep : w.step fresh (.setDataType x dt) = some (w.put x (w.heap, s.setDataType dt)) := by
      rw [World.step, hs, map_some]
    have hKept := Mutates.refl hSpare fun _ => hValue.live
    rw [hStep]
    refine ⟨trivial, ?_⟩
    rw [Values.next, hv]
    exact h.put_same hs hSpare (hKept.congr_right (tag_setDataType s dt) (pointer_setDataType s dt))
      (hValue.setDataType dt)

theorem Reaches.models {w : World} {a : Values} (h : Reaches w a) : Models w a := by
  induction h with
  | empty =>
    refine ⟨fun _ => .none, fun _ hSome => ?_, fun ht => ?_⟩
    · cases hSome
    · cases ht
  | step hReaches op fresh hLegal hSpare hDone ih =>
    have hStep := ih.step hLegal hSpare
    rw [hDone] at hStep
    exact hStep.2

structure Shows (heap : Heap) (s : TensorShape) (dims : List Int64) (dt : UInt8) : Prop where
  ndims : s.ndims = dims.length
  dimSize : ∀ d, s.dimSize heap d = dims[d]?
  numElements : (dims.map Int64.toInt).prod < 2 ^ 63 →
    s.numElements.toInt = (dims.map Int64.toInt).prod
  dataType : s.dataType = dt

theorem HasValue.shows {heap : Heap} {s : TensorShape} {v : Value} (h : HasValue heap s v)
    (hDims : v.dims = some dims) : Shows heap s dims v.dataType where
  ndims := (h.denotes dims hDims).layout.ndims
  dimSize d := by
    rw [dimSize, (h.denotes dims hDims).layout.dimSizes_eq, bind_some]
  numElements hLess := by
    have hOne : (1 : Int64).toInt = 1 := rfl
    have hNonneg := TwosComplement.prod_nonneg (h.denotes dims hDims).valid.nonneg
    rw [(h.denotes dims hDims).numElements, numElementsOf, TwosComplement.toInt_foldl_mul, hOne,
      Int.one_mul, TwosComplement.bmod_of_lt (by omega) hLess]
  dataType := h.dataType

/-- In every run the shapes show the lists, every vector has exactly one owner, and whether a step
fails a `CHECK` depends on the lists alone. -/
theorem shapes_refine_lists {w : World} {a : Values} (h : Reaches w a) :
    (∀ x v dims, a x = some v → v.dims = some dims →
      ∃ s, w.shapes x = some s ∧ Shows w.heap s dims v.dataType) ∧
    (∀ address, (w.heap address).isSome ↔
      ∃ x s, w.shapes x = some s ∧ s.Owns address) ∧
    (∀ x y s t address, w.shapes x = some s → w.shapes y = some t → s.Owns address →
      t.Owns address → x = y) ∧
    (∀ w' op fresh fresh', Reaches w' a → a.Legal op → NewIsSpare w fresh op →
      NewIsSpare w' fresh' op → ((w.step fresh op).isSome ↔ (w'.step fresh' op).isSome)) := by
  have hModels := h.models
  refine ⟨fun x v dims hv hDims => ?_, fun address => ⟨hModels.owned address, ?_⟩,
    fun _ _ _ _ _ => hModels.unique, fun w' op fresh fresh' h' hLegal hSpare hSpare' => ?_⟩
  · obtain ⟨s, u, hs, hu, hValue⟩ := hModels.get_of_isSome (x := x) (by rw [hv]; rfl)
    obtain rfl := some.inj (hv.symm.trans hu)
    exact ⟨s, hs, hValue.shows hDims⟩
  · rintro ⟨x, s, hs, hOwns⟩
    obtain ⟨v, -, hValue⟩ := hModels.get hs
    exact hValue.live hOwns
  · have hPasses : ∀ {w : World} {fresh : UInt64}, Models w a → NewIsSpare w fresh op →
        ((w.step fresh op).isSome ↔ a.Passes op) := by
      intro w fresh hModels hSpare
      have hStep := hModels.step hLegal hSpare
      cases hDone : w.step fresh op with
      | none =>
        rw [hDone] at hStep
        exact iff_of_false (by simp) hStep
      | some w' =>
        rw [hDone] at hStep
        exact iff_of_true rfl hStep.1
    exact (hPasses hModels hSpare).trans (hPasses h'.models hSpare').symm

instance (a : Values) : (op : Op) → Decidable (a.Legal op)
  | .construct x _ => inferInstanceAs (Decidable (a x = none))
  | .copyConstruct x y _ | .moveConstruct x y =>
    inferInstanceAs (Decidable (a x = none ∧ (a y).isSome))
  | .copyAssign x y | .moveAssign x y =>
    inferInstanceAs (Decidable ((a x).isSome ∧ (a y).isSome))
  | .destroy x | .clear x | .setDataType x _ => inferInstanceAs (Decidable (a x).isSome)
  | .edit x _ => inferInstanceAs (Decidable (a.sizes x).isSome)
  | .appendShape x y => inferInstanceAs (Decidable ((a.sizes x).isSome ∧ (a.sizes y).isSome))

instance (w : World) (fresh : UInt64) (op : Op) : Decidable (NewIsSpare w fresh op) := by
  unfold NewIsSpare Spare
  split <;> infer_instance

/-- Operations that are legal, each with the address that `new` would return. -/
def runAll (w : World) (a : Values) : List (Op × UInt64) → Option (World × Values)
  | [] => some (w, a)
  | (op, fresh) :: rest =>
    if a.Legal op ∧ NewIsSpare w fresh op then
      (w.step fresh op).bind fun w' => runAll w' (a.next op) rest
    else none

theorem reaches_runAll {ops : List (Op × UInt64)} {w w' : World} {a a' : Values}
    (h : Reaches w a) (hRun : runAll w a ops = some (w', a')) : Reaches w' a' := by
  induction ops generalizing w a with
  | nil =>
    cases hRun
    exact h
  | cons first rest ih =>
    rw [runAll] at hRun
    split at hRun
    · rename_i hAllowed
      obtain ⟨w₁, hStep, hRest⟩ := bind_eq_some_iff.mp hRun
      exact ih (.step h first.1 first.2 hAllowed.1 hAllowed.2 hStep) hRest
    · cases hRun

def raw : TensorShape := ⟨replicate 16 0, 0, rfl⟩

/-- Shapes that go through the three representations, are copied and moved, and back. -/
def operations : List (Op × UInt64) :=
  [(.construct 0 raw, 8), (.edit 0 (.addDim 3), 8), (.setDataType 0 9, 8), (.construct 1 raw, 8),
    (.copyAssign 1 0, 8), (.edit 0 (.addDim 40000), 8), (.copyConstruct 2 0 raw, 8),
    (.edit 0 (.setDim 1 8589934592), 8), (.copyConstruct 3 0 raw, 16), (.appendShape 1 3, 24),
    (.edit 1 (.insertDim 1 2), 32), (.moveAssign 0 1, 24), (.copyAssign 1 3, 24),
    (.edit 1 (.removeDim 1), 40)]

theorem operations_shown : ∃ (w : World) (s t u : TensorShape),
    (w.shapes 1 = some s ∧ s.tag = rep16 ∧ Shows w.heap s [3] 9) ∧
      (w.shapes 2 = some t ∧ t.tag = rep32 ∧ Shows w.heap t [3, 40000] 9) ∧
      w.shapes 0 = some u ∧ u.tag = repOutOfLine ∧ Shows w.heap u [3, 2, 3, 8589934592] 9 := by
  have hRun : (runAll .empty (fun _ => none) operations).any (fun r => decide
      ((r.2 1 = some ⟨some [3], 9⟩ ∧ (r.1.shapes 1).map tag = some rep16) ∧
        (r.2 2 = some ⟨some [3, 40000], 9⟩ ∧ (r.1.shapes 2).map tag = some rep32) ∧
        r.2 0 = some ⟨some [3, 2, 3, 8589934592], 9⟩ ∧
          (r.1.shapes 0).map tag = some repOutOfLine)) = true := by decide +kernel
  cases hAll : runAll .empty (fun _ => none) operations with
  | none =>
    rw [hAll] at hRun
    cases hRun
  | some r =>
    rw [hAll, any_some, decide_eq_true_eq] at hRun
    obtain ⟨⟨h₁, hTag₁⟩, ⟨h₂, hTag₂⟩, h₀, hTag₀⟩ := hRun
    obtain ⟨hShown, -⟩ := shapes_refine_lists (reaches_runAll .empty hAll)
    obtain ⟨s, hs, hShows₁⟩ := hShown 1 _ _ h₁ rfl
    obtain ⟨t, ht, hShows₂⟩ := hShown 2 _ _ h₂ rfl
    obtain ⟨u, hu, hShows₀⟩ := hShown 0 _ _ h₀ rfl
    rw [hs, map_some, some.injEq] at hTag₁
    rw [ht, map_some, some.injEq] at hTag₂
    rw [hu, map_some, some.injEq] at hTag₀
    exact ⟨r.1, s, t, u, ⟨hs, hTag₁, hShows₁⟩, ⟨ht, hTag₂, hShows₂⟩, hu, hTag₀, hShows₀⟩

end TensorFlowOnSpark.Framework.TensorShape
