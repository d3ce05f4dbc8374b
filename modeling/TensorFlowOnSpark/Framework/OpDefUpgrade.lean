import TensorFlowOnSpark.Framework.OpDefSignature

/-!
# Nodes after a compatible change of their op

A node of the old op gets the defaults that the new op adds.
-/

namespace TensorFlowOnSpark.Ops

open Fallible List Ops.NodeDef

def NodeDef.valueOf (node : NodeDef) (name : String) : AttrValue :=
  (node.attr.find name).getD .notSet

def ItemType.dtype (node : NodeDef) : ItemType → DataType
  | .attr name => (node.valueOf name).getType
  | .given dtype => dtype

def Item.types (node : NodeDef) : Item → List DataType
  | .one type => [type.dtype node]
  | .repeated number type => replicate (node.valueOf number).getI.toNat (type.dtype node)
  | .list attr => (node.valueOf attr).getList.type

/-- The number that the item is repeated fits an `int32`. -/
def Item.Fits (node : NodeDef) : Item → Prop
  | .repeated number _ =>
    toInt32 (node.valueOf number).getI = (node.valueOf number).getI
  | _ => True

/-- The default for a number that the old op does not have fits an `int32`. -/
def NumberFits (oldAttrs newAttrs : List AttrDef) (arg : ArgDef) : Prop :=
  arg.numberAttr ≠ "" → findInMap oldAttrs arg.numberAttr = none →
    toInt32 (addedDefault newAttrs arg.numberAttr).getI =
      (addedDefault newAttrs arg.numberAttr).getI

structure Serves (oldAttrs newAttrs : List AttrDef) (node : NodeDef) (op : OpDef) : Prop where
  value : ∀ attr ∈ op.attr, ∃ value, node.attr.find attr.name = some value ∧
    validateAttrValue value attr = .ok ()
  default : ∀ attr ∈ op.attr, findInMap oldAttrs attr.name = none →
    node.attr.find attr.name = some (addedDefault newAttrs attr.name)

variable {arg : ArgDef}

namespace Serves

variable {oldAttrs newAttrs : List AttrDef} {node : NodeDef} {op : OpDef}
  (h : Serves oldAttrs newAttrs node op) (hNodup : (op.attr.map AttrDef.name).Nodup)
include h hNodup

variable {name : String}

theorem attr {attr : AttrDef} (hFind : op.findAttr name = some attr) :
    ∃ value, node.attr.find name = some value ∧ node.valueOf name = value ∧
      validateAttrValue value attr = .ok () ∧
      (findInMap oldAttrs name = none → value = addedDefault newAttrs name) := by
  obtain ⟨hMem, rfl⟩ := (findAttr_eq_some hNodup).mp hFind
  obtain ⟨value, hValue, hOk⟩ := h.value attr hMem
  refine ⟨value, hValue, by simp [valueOf, hValue], hOk, ?_⟩
  intro hNew
  exact Option.some.inj (hValue.symm.trans (h.default attr hMem hNew))

theorem typeAttr {attr : AttrDef} (hFind : op.findAttr name = some attr)
    (hType : attr.type = "type") : node.getTypeAttr name = .ok (node.valueOf name).getType := by
  obtain ⟨value, hValue, hOf, hOk, -⟩ := h.attr hNodup hFind
  have hHas := validateAttrValue.hasType hOk
  rw [hType] at hHas
  simp only [getTypeAttr, bind_eq_ok, exists_unit, findAttr_eq_ok]
  exact ⟨value, hValue, hHas, by rw [hOf]⟩

theorem numberAttr {attr : AttrDef} (hFind : op.findAttr name = some attr)
    (hInt : attr.type = "int") (hHas : attr.hasMinimum) (hMinimum : 0 ≤ attr.minimum) :
    0 ≤ (node.valueOf name).getI ∧
      ∀ i, node.getInt32Attr name = .ok i ↔ i = (node.valueOf name).getI ∧
        toInt32 (node.valueOf name).getI = (node.valueOf name).getI := by
  obtain ⟨value, hValue, hOf, hOk, -⟩ := h.attr hNodup hFind
  have hType := validateAttrValue.hasType hOk
  rw [hInt] at hType
  have hLe := validateAttrValue.minimum_le hOk hInt hHas
  rw [hOf]
  refine ⟨by omega, fun i => ?_⟩
  simp only [getInt32Attr, bind_eq_ok, exists_unit, findAttr_eq_ok, validate_eq_ok,
    decide_eq_true_eq, Except.ok.injEq]
  constructor
  · rintro ⟨found, hFound, -, hFits, rfl⟩
    obtain rfl : value = found := Option.some.inj (hValue.symm.trans hFound)
    exact ⟨hFits, hFits⟩
  · rintro ⟨rfl, hFits⟩
    exact ⟨value, hValue, hType, hFits, hFits⟩

theorem dtype (hArg : SingleType op arg) :
    (typeItem oldAttrs newAttrs arg).dtype node =
      if arg.typeAttr ≠ "" then (node.valueOf arg.typeAttr).getType else arg.type := by
  unfold typeItem
  rcases hArg.type with ⟨hNoAttr, hType⟩ | ⟨hAttr, hType, attr, hFind, hAttrType⟩
  · rw [if_pos hType.2, if_neg (by simpa using hNoAttr)]
    rfl
  · rw [if_neg (by simpa using hType), if_pos hAttr]
    cases hOld : findInMap oldAttrs arg.typeAttr with
    | some oldAttr => rfl
    | none =>
      obtain ⟨value, -, hOf, -, hDefault⟩ := h.attr hNodup hFind
      rw [ItemType.dtype, hOf, hDefault hOld]

theorem singleTypes (hArg : SingleType op arg) (n : Nat) :
    (if arg.typeAttr ≠ "" then
      node.getTypeAttr arg.typeAttr >>= fun dtype => .ok (replicate n dtype)
    else if arg.type ≠ dtInvalid then .ok (replicate n arg.type)
    else .error (.missingTypeOrAttr arg)) =
      Except.ok (replicate n ((typeItem oldAttrs newAttrs arg).dtype node)) := by
  rw [h.dtype hNodup hArg]
  rcases hArg.type with ⟨hNoAttr, hType⟩ | ⟨hAttr, -, attr, hFind, hAttrType⟩
  · have hUnset : ¬arg.typeAttr ≠ "" := not_not.mpr hNoAttr
    rw [if_neg hUnset, if_neg hUnset, if_pos hType.2]
  · rw [if_pos hAttr, if_pos hAttr, h.typeAttr hNodup hFind hAttrType]
    rfl

/-- The types of an argument are those of its items. -/
theorem argTypes (hArg : SingleType op arg ∨ ListOfTypes op arg)
    (hNumber : NumberFits oldAttrs newAttrs arg)
    (hFits : ∀ item ∈ argItems oldAttrs newAttrs arg, item.Fits node) :
    node.argTypes arg = .ok ((argItems oldAttrs newAttrs arg).flatMap (Item.types node)) := by
  unfold argItems at hFits ⊢
  unfold NodeDef.argTypes
  rcases hArg with hArg | hArg
  · have hNoList : ¬arg.typeListAttr ≠ "" := not_not.mpr hArg.noList
    simp only [if_neg hNoList] at hFits ⊢
    unfold numberItems at hFits ⊢
    by_cases hSet : arg.numberAttr ≠ ""
    · obtain ⟨attr, hFind, hInt, hHas, hMinimum⟩ := hArg.number hSet
      obtain ⟨hNonneg, hGet⟩ := h.numberAttr hNodup hFind hInt hHas hMinimum
      have hSign : validate (decide (0 ≤ (node.valueOf arg.numberAttr).getI))
          (.negativeRepeats (node.valueOf arg.numberAttr).getI) = .ok () :=
        validate_eq_ok.mpr (by simpa using hNonneg)
      simp only [if_pos hSet] at hFits ⊢
      cases hOld : findInMap oldAttrs arg.numberAttr with
      | some oldAttr =>
        simp only [hOld, mem_singleton, forall_eq] at hFits
        rw [flatMap_singleton]
        exact bind_eq_ok.mpr ⟨_, (hGet _).mpr ⟨rfl, hFits⟩,
          bind_eq_ok.mpr ⟨(), hSign, h.singleTypes hNodup hArg _⟩⟩
      | none =>
        obtain ⟨value, -, hOf, -, hDefault⟩ := h.attr hNodup hFind
        have hFit := hNumber hSet hOld
        have hValue : addedDefault newAttrs arg.numberAttr = node.valueOf arg.numberAttr := by
          rw [hOf, hDefault hOld]
        rw [hValue] at hFit
        simp only [hValue, hFit]
        refine bind_eq_ok.mpr ⟨_, (hGet _).mpr ⟨rfl, hFit⟩,
          bind_eq_ok.mpr ⟨(), hSign, (h.singleTypes hNodup hArg _).trans ?_⟩⟩
        simp [Item.types, flatMap_replicate]
    · simp only [if_neg hSet, flatMap_singleton, Item.types]
      rw [h.dtype hNodup hArg]
      rcases hArg.type with ⟨hNoAttr, hType⟩ | ⟨hAttr, -, attr, hFind, hAttrType⟩
      · have hUnset : ¬arg.typeAttr ≠ "" := not_not.mpr hNoAttr
        rw [if_neg hUnset, if_neg hUnset, if_pos hType.2]
      · obtain ⟨value, hValue, hOf, -⟩ := h.attr hNodup hFind
        rw [if_pos hAttr, if_pos hAttr, hOf, findAttr_eq_ok.mpr hValue]
        rfl
  · obtain ⟨attr, hFind, -⟩ := hArg.attr
    obtain ⟨value, hValue, hOf, -, hDefault⟩ := h.attr hNodup hFind
    have hNoNumber : ¬arg.numberAttr ≠ "" := not_not.mpr hArg.noNumber
    have hNoType : ¬arg.typeAttr ≠ "" := not_not.mpr hArg.noType
    simp only [if_neg hNoNumber, if_neg hNoType, if_pos hArg.list, findAttr_eq_ok.mpr hValue,
      ok_bind]
    cases hOld : findInMap oldAttrs arg.typeListAttr with
    | some oldAttr => simp [Item.types, hOf]
    | none =>
      simp only [← hDefault hOld]
      simp [Item.types, ItemType.dtype, flatMap_map]

/-- Where the types of an argument are found, its number fits. -/
theorem fits_of_argTypes {types : List DataType} (hArg : SingleType op arg ∨ ListOfTypes op arg)
    (hTypes : node.argTypes arg = .ok types) :
    NumberFits oldAttrs newAttrs arg ∧
      ∀ item ∈ argItems oldAttrs newAttrs arg, item.Fits node := by
  rcases hArg with hArg | hArg
  · by_cases hSet : arg.numberAttr ≠ ""
    · obtain ⟨attr, hFind, hInt, hHas, hMinimum⟩ := hArg.number hSet
      obtain ⟨hNonneg, hGet⟩ := h.numberAttr hNodup hFind hInt hHas hMinimum
      unfold NodeDef.argTypes at hTypes
      rw [if_pos hSet] at hTypes
      obtain ⟨i, hi, -⟩ := bind_eq_ok.mp hTypes
      have hFit := ((hGet i).mp hi).2
      constructor
      · intro _ hOld
        obtain ⟨value, -, hOf, -, hDefault⟩ := h.attr hNodup hFind
        rw [← hDefault hOld, ← hOf]
        exact hFit
      · intro item hMem
        have hNoList : ¬arg.typeListAttr ≠ "" := not_not.mpr hArg.noList
        rw [argItems, if_neg hNoList, numberItems, if_pos hSet] at hMem
        cases hOld : findInMap oldAttrs arg.numberAttr with
        | some oldAttr =>
          rw [hOld] at hMem
          obtain rfl := mem_singleton.mp hMem
          exact hFit
        | none =>
          rw [hOld] at hMem
          rw [eq_of_mem_replicate hMem]
          trivial
    · refine ⟨fun hIs => absurd hIs hSet, fun item hMem => ?_⟩
      have hNoList : ¬arg.typeListAttr ≠ "" := not_not.mpr hArg.noList
      rw [argItems, if_neg hNoList, numberItems, if_neg hSet] at hMem
      obtain rfl := mem_singleton.mp hMem
      trivial
  · refine ⟨fun hIs => absurd hArg.noNumber hIs, fun item hMem => ?_⟩
    rw [argItems, if_pos hArg.list] at hMem
    cases hOld : findInMap oldAttrs arg.typeListAttr with
    | some oldAttr =>
      rw [hOld] at hMem
      obtain rfl := mem_singleton.mp hMem
      trivial
    | none =>
      rw [hOld] at hMem
      obtain ⟨dtype, -, rfl⟩ := mem_map.mp hMem
      trivial

end Serves

def entryTypes (node : NodeDef) (entry : ArgDef × Item) : List DataType :=
  if entry.1.isRef then (entry.2.types node).map makeRefType else entry.2.types node

theorem flatMap_entryTypes (node : NodeDef) (arg : ArgDef) (argItems : List Item) :
    (argItems.map fun item => (arg, item)).flatMap (entryTypes node) =
      if arg.isRef then (argItems.flatMap (Item.types node)).map makeRefType
      else argItems.flatMap (Item.types node) := by
  rw [flatMap_map]
  cases hRef : arg.isRef with
  | true => simp [entryTypes, hRef, map_flatMap]
  | false => simp [entryTypes, hRef]

variable {node : NodeDef} {args : List ArgDef}

theorem addArgsToSig_eq {oldAttrs newAttrs : List AttrDef}
    (h : ∀ arg ∈ args, node.argTypes arg =
      .ok ((argItems oldAttrs newAttrs arg).flatMap (Item.types node))) (sig : List DataType) :
    node.addArgsToSig args sig =
      .ok (sig ++ (items oldAttrs newAttrs args).flatMap (entryTypes node)) := by
  induction args generalizing sig with
  | nil => simp [addArgsToSig, items]
  | cons arg rest ih =>
    rw [forall_mem_cons] at h
    refine bind_eq_ok.mpr ⟨_, bind_eq_ok.mpr ⟨_, h.1, rfl⟩, (ih h.2 _).trans ?_⟩
    rw [items_cons, flatMap_append, flatMap_entryTypes, append_assoc]

theorem argTypes_of_addArgsToSig {sig sig' : List DataType}
    (h : node.addArgsToSig args sig = .ok sig') (hMem : arg ∈ args) :
    ∃ types, node.argTypes arg = .ok types := by
  induction args generalizing sig with
  | nil => cases hMem
  | cons other rest ih =>
    obtain ⟨next, hHead, hRest⟩ := bind_eq_ok.mp h
    obtain ⟨types, hTypes, -⟩ := bind_eq_ok.mp hHead
    cases hMem with
    | head => exact ⟨types, hTypes⟩
    | tail _ hMem => exact ih hRest hMem

theorem inOutTypesForNode_eq_ok {op : OpDef} {types : List DataType × List DataType} :
    node.inOutTypesForNode op = .ok types ↔
      node.addArgsToSig op.inputArg [] = .ok types.1 ∧
        node.addArgsToSig op.outputArg [] = .ok types.2 := by
  simp only [inOutTypesForNode, bind_eq_ok, Except.ok.injEq]
  constructor
  · rintro ⟨inputs, hInputs, outputs, hOutputs, rfl⟩
    exact ⟨hInputs, hOutputs⟩
  · rintro ⟨hInputs, hOutputs⟩
    exact ⟨types.1, hInputs, types.2, hOutputs, rfl⟩

def MayDropRef (dtype dtype' : DataType) : Prop := dtype = dtype' ∨ dtype = makeRefType dtype'

theorem forall₂_mayDropRef (types : List DataType) {ref ref' : Bool} (h : ref' → ref) :
    Forall₂ MayDropRef (if ref then types.map makeRefType else types)
      (if ref' then types.map makeRefType else types) := by
  have hSame : ∀ types : List DataType, Forall₂ MayDropRef types types :=
    fun types => forall₂_same.mpr fun _ _ => Or.inl rfl
  cases ref with
  | false =>
    cases ref' with
    | false => exact hSame types
    | true => cases h rfl
  | true =>
    cases ref' with
    | true => exact hSame _
    | false =>
      simp only [if_true, forall₂_map_left_iff]
      exact forall₂_same.mpr fun _ _ => Or.inr rfl

theorem firstRef_eq_none {bad : Bool → Bool → Bool} {i : Nat} {refs refs' : List Bool}
    (hLength : refs.length = refs'.length) (h : firstRef bad i refs refs' = none) :
    Forall₂ (fun ref ref' => bad ref ref' = false) refs refs' := by
  induction refs generalizing i refs' with
  | nil =>
    cases refs' with
    | nil => exact Forall₂.nil
    | cons => cases hLength
  | cons ref rest ih =>
    cases refs' with
    | nil => cases hLength
    | cons ref' rest' =>
      rw [firstRef] at h
      split at h
      · cases h
      · rename_i hGood
        exact Forall₂.cons (by simpa using hGood) (ih (Nat.succ.inj hLength) h)

theorem forall₂_entryTypes {node' : NodeDef} {entries entries' : List (ArgDef × Item)}
    {R : DataType → DataType → Prop} {good : Bool → Bool → Prop}
    (hItems : entries.map Prod.snd = entries'.map Prod.snd)
    (hTypes : ∀ entry ∈ entries, entry.2.types node = entry.2.types node')
    (hRefs : Forall₂ good (entries.map fun entry => entry.1.isRef)
      (entries'.map fun entry => entry.1.isRef))
    (hGood : ∀ (types : List DataType) (ref ref' : Bool), good ref ref' →
      Forall₂ R (if ref then types.map makeRefType else types)
        (if ref' then types.map makeRefType else types)) :
    Forall₂ R (entries.flatMap (entryTypes node)) (entries'.flatMap (entryTypes node')) := by
  induction entries generalizing entries' with
  | nil =>
    cases entries' with
    | nil => exact Forall₂.nil
    | cons => cases hItems
  | cons entry rest ih =>
    cases entries' with
    | nil => cases hItems
    | cons entry' rest' =>
      obtain ⟨hItem, hRest⟩ := cons.inj hItems
      rw [map_cons, map_cons, forall₂_cons] at hRefs
      rw [forall_mem_cons] at hTypes
      refine rel_append ?_ (ih hRest hTypes.2 hRefs.2)
      unfold entryTypes
      rw [← hItem, hTypes.1]
      exact hGood _ _ _ hRefs.1

structure SameSignature (old new : OpDef) (names : Bool) (bad : Bool → Bool → Bool)
    (oldArgs newArgs : List ArgDef) : Prop where
  agree : ∃ sig sig', computeArgSignature oldArgs old.attr new.attr names = .ok sig ∧
    computeArgSignature newArgs old.attr new.attr names = .ok sig' ∧ sig.s = sig'.s ∧
    Forall₂ (fun ref ref' => bad ref ref' = false) sig.ref sig'.ref

structure Compatible (old new : OpDef) : Prop where
  name : old.name = new.name
  kept : ∀ attr ∈ old.attr, ∃ newAttr, findInMap new.attr attr.name = some newAttr ∧
    Loosens attr newAttr
  added : ∀ attr ∈ new.attr, (findInMap old.attr attr.name).isSome ∨
    attr.defaultValue.isSome
  inputs : SameSignature old new false inputRefAdded old.inputArg new.inputArg
  outputs : SameSignature old new true outputRefRemoved old.outputArg new.outputArg

variable {oldArgs newArgs : List ArgDef} {bad : Bool → Bool → Bool} {old new : OpDef}

theorem checkSignatures_same {output : Bool}
    (h : checkSignatures old new output bad oldArgs newArgs = .ok ()) :
    SameSignature old new output bad oldArgs newArgs := by
  simp only [checkSignatures, bind_eq_ok, exists_unit, validate_eq_ok, decide_eq_true_eq] at h
  obtain ⟨sig, hSig, sig', hSig', hText, hLength, hRef⟩ := h
  cases hFirst : firstRef bad 0 sig.ref sig'.ref with
  | some i => simp [hFirst] at hRef
  | none => exact ⟨sig, sig', hSig, hSig', hText, firstRef_eq_none hLength hFirst⟩

theorem opDefCompatible_compatible (h : opDefCompatible old new = .ok ()) :
    Compatible old new := by
  simp only [opDefCompatible, bind_eq_ok, exists_unit, validate_eq_ok, decide_eq_true_eq,
    forEach_eq_ok] at h
  obtain ⟨hName, hOld, hNew, hInputs, hOutputs⟩ := h
  refine ⟨hName, ?_, ?_, checkSignatures_same hInputs, checkSignatures_same hOutputs⟩
  · intro attr hMem
    have hCheck := hOld attr hMem
    unfold checkOldAttr at hCheck
    cases hFind : findInMap new.attr attr.name with
    | none => simp [hFind] at hCheck
    | some newAttr =>
      simp only [hFind, bind_eq_ok, exists_unit, validate_eq_ok, decide_eq_true_eq,
        Bool.not_eq_true'] at hCheck
      exact ⟨newAttr, rfl, hCheck.1, hCheck.2.1, hCheck.2.2⟩
  · intro attr hMem
    have hCheck := hNew attr hMem
    simpa [checkNewAttr] using hCheck

/-- The attrs of `op` are attrs of the old op with the same type, or have a valid default. -/
structure Overlaps (old new op : OpDef) : Prop where
  same : ∀ attr ∈ op.attr, ∀ oldAttr, findInMap old.attr attr.name = some oldAttr →
    oldAttr.type = attr.type
  added : ∀ attr ∈ op.attr, findInMap old.attr attr.name = none →
    validateAttrValue (addedDefault new.attr attr.name) attr = .ok ()

theorem argItems_typed {op : OpDef} (hOld : (old.attr.map AttrDef.name).Nodup)
    (hOp : (op.attr.map AttrDef.name).Nodup) (h : Overlaps old new op) {arg : ArgDef}
    (hArg : SingleType op arg ∨ ListOfTypes op arg) :
    ∀ item ∈ argItems old.attr new.attr arg, item.Typed old.attr := by
  have hKept : ∀ {name : String} {attr oldAttr : AttrDef}, op.findAttr name = some attr →
      findInMap old.attr name = some oldAttr →
      ∃ a ∈ old.attr, a.name = name ∧ a.type = attr.type := by
    intro name attr oldAttr hFind hIn
    obtain ⟨hMem, rfl⟩ := (findAttr_eq_some hOp).mp hFind
    obtain ⟨hOldMem, hName⟩ := (findInMap_eq_some hOld).mp hIn
    exact ⟨oldAttr, hOldMem, hName, h.same attr hMem oldAttr hIn⟩
  have hDefault : ∀ {name : String} {attr : AttrDef}, op.findAttr name = some attr →
      findInMap old.attr name = none →
      attrValueHasType (addedDefault new.attr name) attr.type = .ok () := by
    intro name attr hFind hIn
    obtain ⟨hMem, rfl⟩ := (findAttr_eq_some hOp).mp hFind
    exact validateAttrValue.hasType (h.added attr hMem hIn)
  intro item hItem
  unfold argItems at hItem
  rcases hArg with hArg | hArg
  · have hNoList : ¬arg.typeListAttr ≠ "" := not_not.mpr hArg.noList
    rw [if_neg hNoList] at hItem
    have hType : (typeItem old.attr new.attr arg).Typed old.attr := by
      unfold typeItem
      rcases hArg.type with ⟨hNoAttr, hType⟩ | ⟨hAttr, hType, attr, hFind, hAttrType⟩
      · rw [if_pos hType.2]
        exact hType
      · have hUnset : ¬arg.type ≠ dtInvalid := not_not.mpr hType
        rw [if_neg hUnset]
        cases hIn : findInMap old.attr arg.typeAttr with
        | some oldAttr =>
          obtain ⟨a, hMem, hName, hEq⟩ := hKept hFind hIn
          exact ⟨a, hMem, hName, hEq.trans hAttrType⟩
        | none => exact attrValueHasType.value (hAttrType ▸ hDefault hFind hIn)
    unfold numberItems at hItem
    by_cases hSet : arg.numberAttr ≠ ""
    · obtain ⟨attr, hFind, -⟩ := hArg.number hSet
      rw [if_pos hSet] at hItem
      cases hIn : findInMap old.attr arg.numberAttr with
      | some oldAttr =>
        rw [hIn] at hItem
        obtain rfl := mem_singleton.mp hItem
        obtain ⟨a, hMem, hName, -⟩ := hKept hFind hIn
        exact ⟨⟨a, hMem, hName⟩, hType⟩
      | none =>
        rw [hIn] at hItem
        rw [eq_of_mem_replicate hItem]
        exact hType
    · rw [if_neg hSet] at hItem
      obtain rfl := mem_singleton.mp hItem
      exact hType
  · rw [if_pos hArg.list] at hItem
    obtain ⟨attr, hFind, hAttrType⟩ := hArg.attr
    cases hIn : findInMap old.attr arg.typeListAttr with
    | some oldAttr =>
      rw [hIn] at hItem
      obtain rfl := mem_singleton.mp hItem
      obtain ⟨a, hMem, hName, hEq⟩ := hKept hFind hIn
      exact ⟨a, hMem, hName, hEq.trans hAttrType⟩
    | none =>
      rw [hIn] at hItem
      obtain ⟨dtype, hMem, rfl⟩ := mem_map.mp hItem
      exact attrValueHasType.values (hAttrType ▸ hDefault hFind hIn) dtype hMem

theorem items_typed {op : OpDef} (hOld : (old.attr.map AttrDef.name).Nodup)
    (hOp : ValidOp op) (h : Overlaps old new op)
    (hArgs : ∀ arg ∈ args, arg ∈ op.inputArg ++ op.outputArg) :
    ∀ entry ∈ items old.attr new.attr args, entry.2.Typed old.attr := by
  intro entry hMem
  obtain ⟨arg, hArg, hIn⟩ := mem_flatMap.mp hMem
  obtain ⟨item, hItem, rfl⟩ := mem_map.mp hIn
  exact argItems_typed hOld hOp.nodup h (hOp.args arg (hArgs arg hArg)) item hItem

/-- Valid ops that `OpDefCompatible` takes, with identifiers for the names of the old attrs. -/
structure Upgrade (old new : OpDef) : Prop where
  validOld : ValidOp old
  validNew : ValidOp new
  identifier : ∀ attr ∈ old.attr, isIdentifier attr.name
  compatible : Compatible old new

namespace Upgrade

variable {old new : OpDef} (h : Upgrade old new)
include h

theorem named : Named old.attr :=
  ⟨h.validOld.nodup, h.identifier,
    h.validOld.noTypeName⟩

theorem loosens {oldAttr newAttr : AttrDef} (hOld : oldAttr ∈ old.attr) (hNew : newAttr ∈ new.attr)
    (hName : oldAttr.name = newAttr.name) : Loosens oldAttr newAttr := by
  obtain ⟨found, hFound, hLoosens⟩ := h.compatible.kept oldAttr hOld
  obtain ⟨hMem, hFoundName⟩ := (findInMap_eq_some h.validNew.nodup).mp hFound
  have hEq : found = newAttr :=
    inj_on_of_nodup_map h.validNew.nodup hMem hNew (hFoundName.trans hName)
  exact hEq ▸ hLoosens

theorem default {attr : AttrDef} (hMem : attr ∈ new.attr)
    (hAdded : findInMap old.attr attr.name = none) :
    attr.defaultValue = some (addedDefault new.attr attr.name) ∧
      validateAttrValue (addedDefault new.attr attr.name) attr = .ok () := by
  have hFind : findInMap new.attr attr.name = some attr :=
    (findInMap_eq_some h.validNew.nodup).mpr ⟨hMem, rfl⟩
  cases hDefault : attr.defaultValue with
  | none =>
    have hCase := h.compatible.added attr hMem
    simp [hAdded, hDefault] at hCase
  | some value =>
    have hEq : addedDefault new.attr attr.name = value := by simp [addedDefault, hFind, hDefault]
    rw [hEq]
    exact ⟨rfl, h.validNew.default attr hMem value hDefault⟩

theorem overlapsOld : Overlaps old new old where
  same := by
    intro attr hMem oldAttr hFind
    obtain ⟨hOldMem, hName⟩ := (findInMap_eq_some h.validOld.nodup).mp hFind
    rw [inj_on_of_nodup_map h.validOld.nodup hOldMem hMem hName]
  added := by
    intro attr hMem hNone
    exact absurd (mem_map_of_mem hMem) (findInMap_eq_none.mp hNone)

theorem overlapsNew : Overlaps old new new where
  same := by
    intro attr hMem oldAttr hFind
    obtain ⟨hOldMem, hName⟩ := (findInMap_eq_some h.validOld.nodup).mp hFind
    exact (h.loosens hOldMem hMem hName).type
  added := fun attr hMem hNone => (h.default hMem hNone).2

variable {node : NodeDef} (hNode : node.Accepted old)
include hNode

theorem servesOld : Serves old.attr new.attr node old where
  value := fun attr hMem => hNode.value h.validOld.nodup hMem
  default := by
    intro attr hMem hNone
    exact absurd (mem_map_of_mem hMem) (findInMap_eq_none.mp hNone)

theorem named_of_added
    (hAdded : ∀ attr ∈ new.attr, findInMap old.attr attr.name = none → ¬IsInternal attr.name) :
    ∀ attr ∈ new.attr, ¬IsInternal attr.name := by
  intro attr hMem
  cases hFind : findInMap old.attr attr.name with
  | none => exact hAdded attr hMem hFind
  | some oldAttr =>
    obtain ⟨hOld, hName⟩ := (findInMap_eq_some h.validOld.nodup).mp hFind
    rw [← hName]
    exact (hNode.attrs oldAttr hOld).1

variable (hNamed : ∀ attr ∈ new.attr, ¬IsInternal attr.name)
include hNamed

omit h in
theorem absent {attr : AttrDef} (hMem : attr ∈ new.attr)
    (hAdded : findInMap old.attr attr.name = none) : attr.name ∉ node.attr.keys := by
  intro hIn
  obtain ⟨entry, hEntry, hName⟩ := mem_map.mp hIn
  obtain ⟨oldAttr, hOld, hOldName, -⟩ := hNode.entries entry hEntry (hName ▸ hNamed attr hMem)
  refine findInMap_eq_none.mp hAdded ?_
  rw [← hName, ← hOldName]
  exact mem_map_of_mem hOld

theorem servesNew : Serves old.attr new.attr (node.addDefaults new) new := by
  have hDefaults := node.addDefaults_defaulted new
  have hDefault : ∀ attr ∈ new.attr, findInMap old.attr attr.name = none →
      (node.addDefaults new).attr.find attr.name = some (addedDefault new.attr attr.name) :=
    fun attr hMem hNone => hDefaults.find_default h.validNew.nodup hMem (h.default hMem hNone).1
      (absent hNode hNamed hMem hNone)
  refine ⟨?_, hDefault⟩
  intro attr hMem
  cases hFind : findInMap old.attr attr.name with
  | none => exact ⟨_, hDefault attr hMem hFind, (h.default hMem hFind).2⟩
  | some oldAttr =>
    obtain ⟨hOld, hName⟩ := (findInMap_eq_some h.validOld.nodup).mp hFind
    obtain ⟨value, hValue, hOk⟩ := hNode.value h.validOld.nodup hOld
    refine ⟨value, hDefaults.find_kept (hName ▸ hValue), ?_⟩
    exact (h.loosens hOld hMem hName).validateAttrValue hOk

omit hNamed in
theorem valueOf_eq {name : String} (hName : ∃ attr ∈ old.attr, attr.name = name) :
    (node.addDefaults new).valueOf name = node.valueOf name := by
  obtain ⟨attr, hMem, rfl⟩ := hName
  obtain ⟨value, hValue, -⟩ := hNode.value h.validOld.nodup hMem
  have hKept := (node.addDefaults_defaulted new).find_kept hValue
  rw [NodeDef.valueOf, NodeDef.valueOf, hKept, hValue]

omit hNamed in
theorem item_eq {item : Item} (hTyped : item.Typed old.attr) :
    item.types node = item.types (node.addDefaults new) ∧
      (item.Fits node → item.Fits (node.addDefaults new)) := by
  have hType : ∀ type : ItemType, type.Typed old.attr →
      type.dtype node = type.dtype (node.addDefaults new) := by
    intro type hTyped
    cases type with
    | given dtype => rfl
    | attr name =>
      obtain ⟨attr, hMem, hName, -⟩ := hTyped
      rw [ItemType.dtype, ItemType.dtype, h.valueOf_eq hNode ⟨attr, hMem, hName⟩]
  cases item with
  | one type => exact ⟨by rw [Item.types, Item.types, hType type hTyped], fun hFits => hFits⟩
  | list name =>
    obtain ⟨attr, hMem, hName, -⟩ := hTyped
    refine ⟨?_, fun hFits => hFits⟩
    rw [Item.types, Item.types, h.valueOf_eq hNode ⟨attr, hMem, hName⟩]
  | repeated number type =>
    have hNumber := h.valueOf_eq hNode hTyped.1
    constructor
    · rw [Item.types, Item.types, hNumber, hType type hTyped.2]
    · intro hFits
      rw [Item.Fits, hNumber]
      exact hFits

theorem attrsAccepted :
    (∀ entry ∈ (node.addDefaults new).attr.entries, ¬IsInternal entry.1 →
      ∃ attr ∈ new.attr, attr.name = entry.1 ∧ validateAttrValue entry.2 attr = .ok ()) ∧
    ∀ attr ∈ new.attr, ¬IsInternal attr.name ∧ attr.name ∈ (node.addDefaults new).attr.keys := by
  constructor
  · intro entry hMem hEntryNamed
    rcases (node.addDefaults_defaulted new).added entry hMem with
      hOld | ⟨-, attr, hAttr, hName, hDef⟩
    · obtain ⟨oldAttr, hOldAttr, hName, hOk⟩ := hNode.entries entry hOld hEntryNamed
      obtain ⟨newAttr, hFind, hLoosens⟩ := h.compatible.kept oldAttr hOldAttr
      obtain ⟨hNew, hNewName⟩ := (findInMap_eq_some h.validNew.nodup).mp hFind
      exact ⟨newAttr, hNew, hNewName.trans hName, hLoosens.validateAttrValue hOk⟩
    · exact ⟨attr, hAttr, hName, h.validNew.default attr hAttr entry.2 hDef⟩
  · intro attr hMem
    obtain ⟨value, hValue, -⟩ := (h.servesNew hNode hNamed).value attr hMem
    exact ⟨hNamed attr hMem, AttrMap.mem_keys_of_find hValue⟩

/-- The types of one list of arguments before and after. -/
theorem argsTypes {names : Bool} {R : DataType → DataType → Prop} {types : List DataType}
    (hOldArgs : ∀ arg ∈ oldArgs, arg ∈ old.inputArg ++ old.outputArg)
    (hNewArgs : ∀ arg ∈ newArgs, arg ∈ new.inputArg ++ new.outputArg)
    (hNames : names → ∀ arg ∈ oldArgs ++ newArgs, ':' ∉ arg.name.toList)
    (hSame : SameSignature old new names bad oldArgs newArgs)
    (hNumbers : ∀ arg ∈ newArgs, NumberFits old.attr new.attr arg)
    (hGood : ∀ (types : List DataType) (ref ref' : Bool), bad ref ref' = false →
      Forall₂ R (if ref then types.map makeRefType else types)
        (if ref' then types.map makeRefType else types))
    (hTypes : node.addArgsToSig oldArgs [] = .ok types) :
    ∃ types', (node.addDefaults new).addArgsToSig newArgs [] = .ok types' ∧
      Forall₂ R types types' := by
  obtain ⟨sig, sig', hSig, hSig', hText, hRefs⟩ := hSame.agree
  have hTyped := items_typed h.validOld.nodup h.validOld h.overlapsOld hOldArgs
  have hTyped' := items_typed h.validOld.nodup h.validNew h.overlapsNew hNewArgs
  have hItems := signature_items h.named hTyped hTyped' hNames hSig hSig' hText
  have hOldFits : ∀ arg ∈ oldArgs, NumberFits old.attr new.attr arg ∧
      ∀ item ∈ argItems old.attr new.attr arg, item.Fits node := by
    intro arg hMem
    obtain ⟨argTypes, hArg⟩ := argTypes_of_addArgsToSig hTypes hMem
    exact (h.servesOld hNode).fits_of_argTypes h.validOld.nodup
      (h.validOld.args arg (hOldArgs arg hMem)) hArg
  have hOldTypes := addArgsToSig_eq (fun arg hMem =>
    (h.servesOld hNode).argTypes h.validOld.nodup (h.validOld.args arg (hOldArgs arg hMem))
      (hOldFits arg hMem).1 (hOldFits arg hMem).2) []
  have hNewFits : ∀ arg ∈ newArgs, ∀ item ∈ argItems old.attr new.attr arg,
      item.Fits (node.addDefaults new) := by
    intro arg hMem item hItem
    have hEntry : (arg, item) ∈ items old.attr new.attr newArgs :=
      mem_flatMap.mpr ⟨arg, hMem, mem_map_of_mem hItem⟩
    have hIn : item ∈ (items old.attr new.attr oldArgs).map Prod.snd := by
      rw [hItems]
      exact mem_map.mpr ⟨(arg, item), hEntry, rfl⟩
    obtain ⟨⟨oldArg, _⟩, hOldEntry, rfl⟩ := mem_map.mp hIn
    obtain ⟨arg', hArg', hPair⟩ := mem_flatMap.mp hOldEntry
    obtain ⟨item', hItem', hEq⟩ := mem_map.mp hPair
    obtain ⟨rfl, rfl⟩ := Prod.mk.inj hEq
    exact (h.item_eq hNode (hTyped _ hOldEntry)).2 ((hOldFits arg' hArg').2 item' hItem')
  have hNewTypes := addArgsToSig_eq (fun arg hMem =>
    (h.servesNew hNode hNamed).argTypes h.validNew.nodup (h.validNew.args arg (hNewArgs arg hMem))
      (hNumbers arg hMem) (hNewFits arg hMem)) []
  refine ⟨_, hNewTypes, ?_⟩
  rw [← Except.ok.inj (hOldTypes.symm.trans hTypes)]
  obtain ⟨-, -, -, hOldRef⟩ := computeArgSignature_eq hSig
  obtain ⟨-, -, -, hNewRef⟩ := computeArgSignature_eq hSig'
  rw [hOldRef, hNewRef] at hRefs
  exact forall₂_entryTypes hItems (fun entry hMem => (h.item_eq hNode (hTyped entry hMem)).1) hRefs
    hGood

end Upgrade

structure Upgrades (old new : OpDef) (node : NodeDef) : Prop where
  accepted : (node.addDefaults new).validateNodeDef new = .ok ()
  types : ∃ types types', node.inOutTypesForNode old = .ok types ∧
    (node.addDefaults new).inOutTypesForNode new = .ok types' ∧
    Forall₂ MayDropRef types.1 types'.1 ∧ Forall₂ MayDropRef types'.2 types.2

/-- No attr that the new op adds is internal, and the numbers among them fit an `int32`. -/
structure AddsSafely (old new : OpDef) : Prop where
  named : ∀ attr ∈ new.attr, findInMap old.attr attr.name = none → ¬IsInternal attr.name
  numbers : ∀ arg ∈ new.inputArg ++ new.outputArg, NumberFits old.attr new.attr arg

theorem opDefCompatible_upgrades_iff {old new : OpDef} {node : NodeDef}
    (hOld : validateOpDef old = .ok ()) (hNew : validateOpDef new = .ok ())
    (hIdentifiers : ∀ attr ∈ old.attr, isIdentifier attr.name)
    (hNames : ∀ arg ∈ old.outputArg ++ new.outputArg, ':' ∉ arg.name.toList)
    (hCompatible : opDefCompatible old new = .ok ())
    (hAccepted : node.validateNodeDef old = .ok ()) :
    Upgrades old new node ↔ AddsSafely old new := by
  have h : Upgrade old new := ⟨validateOpDef.valid hOld, validateOpDef.valid hNew, hIdentifiers,
    opDefCompatible_compatible hCompatible⟩
  have hNode := (NodeDef.validateNodeDef_eq_ok h.validOld.nodup).mp hAccepted
  constructor
  · rintro ⟨hAccepted', -, types', -, hTypes', -⟩
    have hNode' := (NodeDef.validateNodeDef_eq_ok h.validNew.nodup).mp hAccepted'
    have hNamed : ∀ attr ∈ new.attr, ¬IsInternal attr.name :=
      fun attr hMem => (hNode'.attrs attr hMem).1
    refine ⟨fun attr hMem _ => hNamed attr hMem, fun arg hMem => ?_⟩
    obtain ⟨hInputs, hOutputs⟩ := inOutTypesForNode_eq_ok.mp hTypes'
    have hArg : ∃ types, (node.addDefaults new).argTypes arg = .ok types := by
      rcases mem_append.mp hMem with hMem | hMem
      · exact argTypes_of_addArgsToSig hInputs hMem
      · exact argTypes_of_addArgsToSig hOutputs hMem
    obtain ⟨types, hTypes⟩ := hArg
    exact ((h.servesNew hNode hNamed).fits_of_argTypes h.validNew.nodup
      (h.validNew.args arg hMem) hTypes).1
  · rintro ⟨hAdded, hNumbers⟩
    have hNamed := h.named_of_added hNode hAdded
    obtain ⟨types, hTypes, hCount⟩ := hNode.inputs
    obtain ⟨hInputs, hOutputs⟩ := inOutTypesForNode_eq_ok.mp hTypes
    obtain ⟨inputs', hInputs', hInputsDrop⟩ := h.argsTypes hNode hNamed (R := MayDropRef)
      (fun _ => mem_append_left _) (fun _ => mem_append_left _) (fun hSet => by cases hSet)
      h.compatible.inputs (fun arg hMem => hNumbers arg (mem_append_left _ hMem))
      (fun types ref ref' hGood => forall₂_mayDropRef types (by
        intro hRef
        simpa [inputRefAdded, hRef] using hGood)) hInputs
    obtain ⟨outputs', hOutputs', hOutputsDrop⟩ := h.argsTypes hNode hNamed
      (R := fun dtype dtype' => MayDropRef dtype' dtype)
      (fun _ => mem_append_right _) (fun _ => mem_append_right _) (fun _ => hNames)
      h.compatible.outputs (fun arg hMem => hNumbers arg (mem_append_right _ hMem))
      (fun types ref ref' hGood => (forall₂_mayDropRef types (by
        intro hRef
        simpa [outputRefRemoved, hRef] using hGood)).flip) hOutputs
    have hTypes' : (node.addDefaults new).inOutTypesForNode new = .ok (inputs', outputs') :=
      inOutTypesForNode_eq_ok.mpr ⟨hInputs', hOutputs'⟩
    obtain ⟨hEntries, hAttrs⟩ := h.attrsAccepted hNode hNamed
    have hDefaults := node.addDefaults_defaulted new
    refine ⟨(NodeDef.validateNodeDef_eq_ok h.validNew.nodup).mpr
      ⟨hDefaults.op.trans (hNode.name.trans h.compatible.name), hEntries, hAttrs,
        (inputs', outputs'), hTypes', ?_⟩,
      types, (inputs', outputs'), hTypes, hTypes', hInputsDrop, hOutputsDrop.flip⟩
    rw [hDefaults.input, ← hInputsDrop.length_eq]
    exact NodeDef.countInputs_attrs hCount

example : (opDefCompatible ⟨"Foo", [], [⟨"p", 1, "", "", "", false⟩,
      ⟨"q:int32, r", 1, "", "", "", false⟩], []⟩
    ⟨"Foo", [], [⟨"p:float, q", 3, "", "", "", false⟩, ⟨"r", 1, "", "", "", false⟩], []⟩).isOk =
      true := by
  decide +kernel

def plainOp : OpDef := ⟨"Foo", [⟨"a", 3, "", "", "", false⟩], [], []⟩

def countedOp (n : Int) : OpDef :=
  ⟨"Foo", [⟨"a", 3, "", "N", "", false⟩], [], [⟨"N", "int", some (.i n), true, 1, none⟩]⟩

def plainNode : NodeDef := ⟨"foo", "Foo", ["x"], "", ⟨[], nodup_nil⟩⟩

theorem eq_ok_of_isOk {x : Except Error Unit} (h : x.isOk) : x = .ok () := by
  cases x with
  | error e => cases h
  | ok u => rfl

theorem oneNumber_upgrades : AddsSafely plainOp (countedOp 1) ∧
    Upgrades plainOp (countedOp 1) plainNode := by
  have hFits : AddsSafely plainOp (countedOp 1) := by
    constructor
    · unfold IsInternal
      decide +kernel
    · unfold NumberFits
      decide +kernel
  exact ⟨hFits, (opDefCompatible_upgrades_iff (eq_ok_of_isOk (by decide +kernel))
    (eq_ok_of_isOk (by decide +kernel)) (by decide +kernel) (by decide +kernel)
    (eq_ok_of_isOk (by decide +kernel)) (eq_ok_of_isOk (by decide +kernel))).mpr hFits⟩

/-- The default counts as one input, but it is not an `int32`. -/
theorem wideNumber_refused : validateOpDef plainOp = .ok () ∧
    validateOpDef (countedOp (2 ^ 32 + 1)) = .ok () ∧
    (∀ attr ∈ plainOp.attr ++ (countedOp (2 ^ 32 + 1)).attr, isIdentifier attr.name) ∧
    opDefCompatible plainOp (countedOp (2 ^ 32 + 1)) = .ok () ∧
    plainNode.validateNodeDef plainOp = .ok () ∧
    ¬Upgrades plainOp (countedOp (2 ^ 32 + 1)) plainNode := by
  refine ⟨eq_ok_of_isOk (by decide +kernel), eq_ok_of_isOk (by decide +kernel), by decide +kernel,
    eq_ok_of_isOk (by decide +kernel), eq_ok_of_isOk (by decide +kernel), ?_⟩
  rintro ⟨hAccepted, -⟩
  have hRefused : ((plainNode.addDefaults (countedOp (2 ^ 32 + 1))).validateNodeDef
      (countedOp (2 ^ 32 + 1))).isOk = false := by decide +kernel
  rw [hAccepted] at hRefused
  cases hRefused

end TensorFlowOnSpark.Ops
