import TensorFlowOnSpark.Framework.OpDef
import TensorFlowOnSpark.Lib.Fallible
import Mathlib.Data.List.Nodup

/-!
# Compatible op definitions

`OpDefCompatible` of `framework/op_def_util.cc`. The maps from names to attrs, which
`FillAttrMap` makes, are searches in the lists of attrs.
-/

namespace TensorFlowOnSpark.Ops

open Fallible List

/-- Whether every element of `sub` is contained in `super`. -/
def isSubsetOf {α : Type} [DecidableEq α] (sub super : List α) : Bool :=
  sub.all fun o => super.any fun n => o = n

def moreRestrictive (oldAttr newAttr : AttrDef) : Bool :=
  if !newAttr.allowedValues.isSome then false
  else if !oldAttr.allowedValues.isSome then true
  else if !isSubsetOf oldAttr.allowed.type newAttr.allowed.type then true
  else !isSubsetOf oldAttr.allowed.s newAttr.allowed.s

def higherMinimum (oldAttr newAttr : AttrDef) : Bool :=
  if !newAttr.hasMinimum then false
  else if !oldAttr.hasMinimum then true
  else decide (oldAttr.minimum < newAttr.minimum)

def findInMap (attrs : List AttrDef) (name : String) : Option AttrDef :=
  attrs.reverse.find? fun attr => attr.name = name

structure ArgSignature where
  s : String
  addComma : Bool
  ref : List Bool
deriving DecidableEq, Repr

namespace ArgSignature

def empty : ArgSignature := ⟨"", false, []⟩

/-- `AddComma`, an append to the signature and the reference flag of the item. -/
def push (sig : ArgSignature) (text : String) (isRef : Bool) : ArgSignature :=
  ⟨sig.s ++ (if sig.addComma then ", " else "") ++ text, true, sig.ref ++ [isRef]⟩

def pushMany (sig : ArgSignature) (texts : List String) (isRef : Bool) : ArgSignature :=
  texts.foldl (fun sig text => sig.push text isRef) sig

end ArgSignature

def argName (names : Bool) (arg : ArgDef) : String := if names then arg.name ++ ":" else ""

def addedDefault (newAttrs : List AttrDef) (name : String) : AttrValue :=
  ((findInMap newAttrs name).bind AttrDef.defaultValue).getD .notSet

/-- `DataTypeString` of the elements of the default, each with the name of the argument. -/
def listTexts (name : String) : List DataType → Except Error (List String)
  | [] => .ok []
  | dtype :: rest => do
    let text ← dataTypeString dtype
    let texts ← listTexts name rest
    .ok ((name ++ text) :: texts)

def typeText (oldAttrs newAttrs : List AttrDef) (arg : ArgDef) : Except Error String :=
  if arg.type ≠ dtInvalid then dataTypeString arg.type
  else
    match findInMap oldAttrs arg.typeAttr with
    | some _ => .ok arg.typeAttr
    | none => dataTypeString (addedDefault newAttrs arg.typeAttr).getType

def numberText (oldAttrs newAttrs : List AttrDef) (arg : ArgDef) : Int × String :=
  if arg.numberAttr ≠ "" then
    match findInMap oldAttrs arg.numberAttr with
    | some _ => (1, arg.numberAttr ++ " * ")
    | none => (NodeDef.toInt32 (addedDefault newAttrs arg.numberAttr).getI, "")
  else (1, "")

def argTexts (oldAttrs newAttrs : List AttrDef) (names : Bool) (arg : ArgDef) :
    Except Error (List String) :=
  if arg.typeListAttr ≠ "" then
    match findInMap oldAttrs arg.typeListAttr with
    | some _ => .ok [argName names arg ++ arg.typeListAttr]
    | none => listTexts (argName names arg) (addedDefault newAttrs arg.typeListAttr).getList.type
  else do
    let number := numberText oldAttrs newAttrs arg
    let type ← typeText oldAttrs newAttrs arg
    .ok (replicate number.1.toNat (argName names arg ++ number.2 ++ type))

def computeArgSignatureFrom (oldAttrs newAttrs : List AttrDef) (names : Bool) :
    List ArgDef → ArgSignature → Except Error ArgSignature
  | [], sig => .ok sig
  | arg :: rest, sig => do
    let texts ← argTexts oldAttrs newAttrs names arg
    computeArgSignatureFrom oldAttrs newAttrs names rest (sig.pushMany texts arg.isRef)

def computeArgSignature (args : List ArgDef) (oldAttrs newAttrs : List AttrDef) (names : Bool) :
    Except Error ArgSignature :=
  computeArgSignatureFrom oldAttrs newAttrs names args .empty

def checkOldAttr (old new : OpDef) (oldAttr : AttrDef) : Except Error Unit :=
  match findInMap new.attr oldAttr.name with
  | none => .error (.incompatible (.removed oldAttr.name) old new)
  | some newAttr => do
    validate (oldAttr.type = newAttr.type)
      (.incompatible (.changedType oldAttr.name oldAttr.type newAttr.type) old new)
    validate (!moreRestrictive oldAttr newAttr)
      (.incompatible (.stricter oldAttr newAttr) old new)
    validate (!higherMinimum oldAttr newAttr)
      (.incompatible (.higherMinimum oldAttr newAttr) old new)

def checkNewAttr (old new : OpDef) (newAttr : AttrDef) : Except Error Unit :=
  validate ((findInMap old.attr newAttr.name).isSome || newAttr.defaultValue.isSome)
    (.incompatible (.addedWithoutDefault newAttr.name) old new)

/-- The first position at which `bad` holds of the two lists of references. -/
def firstRef (bad : Bool → Bool → Bool) : Nat → List Bool → List Bool → Option Nat
  | i, a :: rest, b :: rest' => if bad a b then some i else firstRef bad (i + 1) rest rest'
  | _, _, _ => none

def checkSignatures (old new : OpDef) (output : Bool) (bad : Bool → Bool → Bool)
    (oldArgs newArgs : List ArgDef) : Except Error Unit := do
  let oldSig ← computeArgSignature oldArgs old.attr new.attr output
  let newSig ← computeArgSignature newArgs old.attr new.attr output
  validate (oldSig.s = newSig.s) (.incompatible (.signature output oldSig.s newSig.s) old new)
  validate (oldSig.ref.length = newSig.ref.length) (.incompatible (.refLists output) old new)
  match firstRef bad 0 oldSig.ref newSig.ref with
  | some i => .error (.incompatible (.ref output i) old new)
  | none => .ok ()

def inputRefAdded (oldRef newRef : Bool) : Bool := !oldRef && newRef

def outputRefRemoved (oldRef newRef : Bool) : Bool := oldRef && !newRef

def opDefCompatible (old new : OpDef) : Except Error Unit := do
  validate (old.name = new.name) (.incompatible .nameMismatch old new)
  forEach (checkOldAttr old new) old.attr
  forEach (checkNewAttr old new) new.attr
  checkSignatures old new false inputRefAdded old.inputArg new.inputArg
  checkSignatures old new true outputRefRemoved old.outputArg new.outputArg

variable {α : Type} {error : Error} {attrs : List AttrDef} {name : String} {attr : AttrDef}

attribute [local simp] bind_eq_ok exists_unit mapError_eq_ok

@[simp] theorem validate_eq_ok {condition : Bool} {u : Unit} :
    validate condition error = .ok u ↔ condition := by
  cases condition <;> simp [validate]

theorem forEach_eq_ok {check : α → Except Error Unit} {xs : List α} :
    forEach check xs = .ok () ↔ ∀ x ∈ xs, check x = .ok () := by
  induction xs with
  | nil => simp [forEach]
  | cons x rest ih => simp [forEach, ih]

theorem find_name_eq_some (hNodup : (attrs.map AttrDef.name).Nodup) :
    (attrs.find? fun a => a.name = name) = some attr ↔ attr ∈ attrs ∧ attr.name = name := by
  constructor
  · intro h
    exact ⟨mem_of_find?_eq_some h, by simpa using find?_some h⟩
  · rintro ⟨hMem, rfl⟩
    cases hFind : attrs.find? fun a => a.name = attr.name with
    | none => exact absurd (find?_eq_none.mp hFind attr hMem) (by simp)
    | some found =>
      have hName : found.name = attr.name := by simpa using find?_some hFind
      have hEq := inj_on_of_nodup_map hNodup (mem_of_find?_eq_some hFind) hMem hName
      rw [hEq]

theorem findAttr_eq_some {op : OpDef} (hNodup : (op.attr.map AttrDef.name).Nodup) :
    op.findAttr name = some attr ↔ attr ∈ op.attr ∧ attr.name = name :=
  find_name_eq_some hNodup

theorem findInMap_eq_some (hNodup : (attrs.map AttrDef.name).Nodup) :
    findInMap attrs name = some attr ↔ attr ∈ attrs ∧ attr.name = name := by
  have hReverse : (attrs.reverse.map AttrDef.name).Nodup := by
    rw [map_reverse]
    exact nodup_reverse.mpr hNodup
  rw [findInMap, find_name_eq_some hReverse, mem_reverse]

theorem findInMap_eq_none : findInMap attrs name = none ↔ name ∉ attrs.map AttrDef.name := by
  simp [findInMap]

theorem validateType_eq_ok {dtype : DataType} :
    validateType error dtype = .ok () ↔ isRefType dtype = false ∧ dtype ≠ dtInvalid := by
  unfold validateType
  cases isRefType dtype with
  | true => simp
  | false => simp

theorem validateTypes_eq_ok {types : List DataType} :
    validateTypes error types = .ok () ↔
      ∀ dtype ∈ types, isRefType dtype = false ∧ dtype ≠ dtInvalid := by
  induction types with
  | nil => simp [validateTypes]
  | cons dtype rest ih => simp [validateTypes, validateType_eq_ok, ih]

def IsValueType (dtype : DataType) : Prop := isRefType dtype = false ∧ dtype ≠ dtInvalid

theorem attrValueHasType.value {value : AttrValue} (h : attrValueHasType value "type" = .ok ()) :
    IsValueType value.getType := by
  simp only [attrValueHasType, bind_eq_ok, exists_unit] at h
  obtain ⟨-, -, -, h⟩ := h
  exact validateType_eq_ok.mp h

theorem attrValueHasType.values {value : AttrValue}
    (h : attrValueHasType value "list(type)" = .ok ()) :
    ∀ dtype ∈ value.getList.type, IsValueType dtype := by
  simp only [attrValueHasType, bind_eq_ok, exists_unit] at h
  obtain ⟨-, -, -, h⟩ := h
  exact validateTypes_eq_ok.mp h

theorem allowedTypeValue_eq_ok {dtype : DataType} :
    allowedTypeValue dtype attr = .ok () ↔ dtype ∈ attr.allowed.type := by
  unfold allowedTypeValue
  split
  · simpa
  · simpa

theorem allowedStringValue_eq_ok {str : Bytes} :
    allowedStringValue str attr = .ok () ↔ str ∈ attr.allowed.s := by
  simp [allowedStringValue]

structure Loosens (oldAttr newAttr : AttrDef) : Prop where
  type : oldAttr.type = newAttr.type
  allowed : moreRestrictive oldAttr newAttr = false
  minimum : higherMinimum oldAttr newAttr = false

theorem mem_of_isSubsetOf [DecidableEq α] {sub super : List α}
    (h : isSubsetOf sub super) {x : α} (hMem : x ∈ sub) : x ∈ super := by
  simp only [isSubsetOf, all_eq_true, any_eq_true, decide_eq_true_eq] at h
  obtain ⟨y, hy, rfl⟩ := h x hMem
  exact hy

namespace Loosens

variable {oldAttr newAttr : AttrDef} (h : Loosens oldAttr newAttr)
include h

theorem restricts (hNew : newAttr.allowedValues.isSome) :
    oldAttr.allowedValues.isSome ∧
      (∀ dtype ∈ oldAttr.allowed.type, dtype ∈ newAttr.allowed.type) ∧
      ∀ str ∈ oldAttr.allowed.s, str ∈ newAttr.allowed.s := by
  have hAllowed := h.allowed
  simp only [moreRestrictive, hNew] at hAllowed
  cases hOld : oldAttr.allowedValues.isSome with
  | false => simp [hOld] at hAllowed
  | true =>
    simp only [hOld, Bool.not_true, Bool.false_eq_true, if_false] at hAllowed
    split at hAllowed
    · cases hAllowed
    · rename_i hTypes
      refine ⟨rfl, fun dtype => mem_of_isSubsetOf (by simpa using hTypes),
        fun str => mem_of_isSubsetOf (by simpa using hAllowed)⟩

theorem validateMinimum {value : AttrValue} (hOld : validateMinimum value oldAttr = .ok ()) :
    Ops.validateMinimum value newAttr = .ok () := by
  have hMinimum := h.minimum
  unfold Ops.validateMinimum at hOld ⊢
  split
  · rename_i hNew
    have hHas : oldAttr.hasMinimum := by
      cases hEq : oldAttr.hasMinimum with
      | true => rfl
      | false => simp [higherMinimum, hNew, hEq] at hMinimum
    have hLe : newAttr.minimum ≤ oldAttr.minimum := by
      simpa [higherMinimum, hNew, hHas] using hMinimum
    rw [if_pos hHas, h.type] at hOld
    split
    · rename_i hInt
      rw [if_pos hInt] at hOld
      simp only [validate_eq_ok, decide_eq_true_eq] at hOld ⊢
      omega
    · rename_i hInt
      rw [if_neg hInt] at hOld
      simp only [validate_eq_ok, decide_eq_true_eq] at hOld ⊢
      omega
  · rfl

theorem validateAllowed {value : AttrValue} (hOld : validateAllowed value oldAttr = .ok ()) :
    Ops.validateAllowed value newAttr = .ok () := by
  unfold Ops.validateAllowed at hOld ⊢
  split
  · rename_i hNew
    obtain ⟨hHas, hTypes, hStrings⟩ := h.restricts hNew
    rw [h.type] at hOld
    split_ifs at hOld ⊢ with hType hTypeList hString hStringList
    · exact allowedTypeValue_eq_ok.mpr (hTypes _ (allowedTypeValue_eq_ok.mp hOld))
    · rw [forEach_eq_ok] at hOld ⊢
      intro dtype hMem
      exact allowedTypeValue_eq_ok.mpr (hTypes _ (allowedTypeValue_eq_ok.mp (hOld dtype hMem)))
    · exact allowedStringValue_eq_ok.mpr (hStrings _ (allowedStringValue_eq_ok.mp hOld))
    · rw [forEach_eq_ok] at hOld ⊢
      intro str hMem
      exact allowedStringValue_eq_ok.mpr
        (hStrings _ (allowedStringValue_eq_ok.mp (hOld str hMem)))
  · rfl

theorem validateAttrValue {value : AttrValue} (hOld : validateAttrValue value oldAttr = .ok ()) :
    Ops.validateAttrValue value newAttr = .ok () := by
  simp only [Ops.validateAttrValue, bind_eq_ok, exists_unit, mapError_eq_ok] at hOld ⊢
  obtain ⟨hType, hMinimum, hAllowed⟩ := hOld
  exact ⟨h.type ▸ hType, h.validateMinimum hMinimum, h.validateAllowed hAllowed⟩

end Loosens

variable {attr : AttrDef} {op : OpDef} {names names' : List String}

theorem validateAttrValue.hasType {value : AttrValue}
    (h : validateAttrValue value attr = .ok ()) : attrValueHasType value attr.type = .ok () := by
  simp only [validateAttrValue, bind_eq_ok, exists_unit, mapError_eq_ok] at h
  exact h.1

theorem validateAttrValue.minimum_le {value : AttrValue} (h : validateAttrValue value attr = .ok ())
    (hInt : attr.type = "int") (hHas : attr.hasMinimum) : attr.minimum ≤ value.getI := by
  simp only [validateAttrValue, bind_eq_ok, exists_unit] at h
  obtain ⟨-, hMinimum, -⟩ := h
  simpa [validateMinimum, hInt, hHas] using hMinimum

structure SingleType (op : OpDef) (arg : ArgDef) : Prop where
  noList : arg.typeListAttr = ""
  number : arg.numberAttr ≠ "" → ∃ attr, op.findAttr arg.numberAttr = some attr ∧
    attr.type = "int" ∧ attr.hasMinimum ∧ 0 ≤ attr.minimum
  type : (arg.typeAttr = "" ∧ IsValueType arg.type) ∨
    (arg.typeAttr ≠ "" ∧ arg.type = dtInvalid ∧
      ∃ attr, op.findAttr arg.typeAttr = some attr ∧ attr.type = "type")

structure ListOfTypes (op : OpDef) (arg : ArgDef) : Prop where
  list : arg.typeListAttr ≠ ""
  noNumber : arg.numberAttr = ""
  noType : arg.typeAttr = ""
  attr : ∃ attr, op.findAttr arg.typeListAttr = some attr ∧ attr.type = "list(type)"

structure ValidOp (op : OpDef) : Prop where
  nodup : (op.attr.map AttrDef.name).Nodup
  noTypeName : ∀ attr ∈ op.attr, dataTypeFromString attr.name = none
  default : ∀ attr ∈ op.attr, ∀ value, attr.defaultValue = some value →
    validateAttrValue value attr = .ok ()
  args : ∀ arg ∈ op.inputArg ++ op.outputArg, SingleType op arg ∨ ListOfTypes op arg

theorem validateTypeAttr_eq_ok {name use type suffix : String} :
    validateTypeAttr op name use type suffix = .ok () ↔
      ∃ attr, op.findAttr name = some attr ∧ attr.type = type := by
  unfold validateTypeAttr
  cases op.findAttr name with
  | none => simp
  | some attr => simp

theorem validateArg_type {output : Bool} {arg : ArgDef}
    (h : validateArg op output names arg = .ok names') :
    SingleType op arg ∨ ListOfTypes op arg := by
  simp only [validateArg, bind_eq_ok, exists_unit] at h
  obtain ⟨-, -, hNumber, hType, -⟩ := h
  unfold validateNumberAttr at hNumber
  unfold validateArgType at hType
  by_cases hList : arg.typeListAttr = ""
  · refine Or.inl ⟨hList, ?_, ?_⟩
    · intro hSet
      rw [if_pos hSet] at hNumber
      cases hFind : op.findAttr arg.numberAttr with
      | none => simp [hFind] at hNumber
      | some attr =>
        simp only [hFind, bind_eq_ok, exists_unit, validate_eq_ok, decide_eq_true_eq] at hNumber
        obtain ⟨hInt, hHas, hLe, -⟩ := hNumber
        exact ⟨attr, rfl, hInt, hHas, hLe⟩
    · have hOne : count (decide (arg.type ≠ dtInvalid)) + count (decide (arg.typeAttr ≠ "")) =
        1 := by
        split at hNumber
        · cases hFind : op.findAttr arg.numberAttr with
          | none => simp [hFind] at hNumber
          | some attr =>
            simp only [hFind, bind_eq_ok, exists_unit, validate_eq_ok, decide_eq_true_eq] at hNumber
            exact hNumber.2.2.2.2
        · simpa [hList, count] using hNumber
      by_cases hAttr : arg.typeAttr = ""
      · left
        refine ⟨hAttr, ?_, ?_⟩
        · rw [if_neg (by simpa using hAttr), if_neg (by simpa using hList)] at hType
          by_contra hRef
          rw [if_pos (by simpa using hRef)] at hType
          simp at hType
        · rintro hInvalid
          simp [hAttr, hInvalid, count] at hOne
      · right
        rw [if_pos hAttr, validateTypeAttr_eq_ok] at hType
        refine ⟨hAttr, ?_, hType⟩
        by_contra hSet
        simp [hAttr, hSet, count] at hOne
  · right
    have hNoNumber : arg.numberAttr = "" := by
      by_contra hSet
      rw [if_pos hSet] at hNumber
      cases hFind : op.findAttr arg.numberAttr with
      | none => simp [hFind] at hNumber
      | some attr => simp [hFind, hList] at hNumber
    rw [if_neg (by simpa using hNoNumber)] at hNumber
    have hNoType : arg.typeAttr = "" := by
      by_contra hSet
      simp [hSet, hList, count] at hNumber
    rw [if_neg (by simpa using hNoType), if_pos hList, validateTypeAttr_eq_ok] at hType
    exact ⟨hList, hNoNumber, hNoType, hType⟩

theorem validateEach_mem {α : Type} {check : List String → α → Except Error (List String)}
    {xs : List α} (h : validateEach check names xs = .ok names')
    {x : α} (hMem : x ∈ xs) : ∃ before after, check before x = .ok after := by
  induction xs generalizing names with
  | nil => cases hMem
  | cons y rest ih =>
    simp only [validateEach, bind_eq_ok] at h
    obtain ⟨seen, hHead, hRest⟩ := h
    cases hMem with
    | head => exact ⟨names, seen, hHead⟩
    | tail _ hMem => exact ih hRest hMem

theorem validateAttr_eq (h : validateAttr op names attr = .ok names') :
    attr.name ∉ names ∧ names' = attr.name :: names ∧ dataTypeFromString attr.name = none ∧
      ∀ value, attr.defaultValue = some value → validateAttrValue value attr = .ok () := by
  simp only [validateAttr, bind_eq_ok, exists_unit, validate_eq_ok, decide_eq_true_eq,
    Except.ok.injEq, Option.isNone_iff_eq_none] at h
  obtain ⟨hNew, hName, isList, -, -, -, hDefault, rfl⟩ := h
  refine ⟨hNew, rfl, hName, ?_⟩
  intro value hValue
  rw [validateAttrDefault, hValue] at hDefault
  exact mapError_eq_ok.mp hDefault

theorem validateEach_attrs {attrs : List AttrDef}
    (h : validateEach (validateAttr op) names attrs = .ok names') :
    (attrs.map AttrDef.name).Nodup ∧ ∀ attr ∈ attrs, attr.name ∉ names := by
  induction attrs generalizing names with
  | nil => simp
  | cons attr rest ih =>
    simp only [validateEach, bind_eq_ok] at h
    obtain ⟨seen, hHead, hRest⟩ := h
    obtain ⟨hNew, rfl, -⟩ := validateAttr_eq hHead
    obtain ⟨hNodup, hSeen⟩ := ih hRest
    constructor
    · rw [map_cons, nodup_cons]
      refine ⟨?_, hNodup⟩
      intro hMem
      obtain ⟨other, hOther, hEq⟩ := mem_map.mp hMem
      exact hSeen other hOther (by simp [hEq])
    · intro other hMem
      cases hMem with
      | head => exact hNew
      | tail _ hMem => exact fun hIn => hSeen other hMem (mem_cons_of_mem _ hIn)

theorem validateOpDef.valid (h : validateOpDef op = .ok ()) : ValidOp op := by
  simp only [validateOpDef, bind_eq_ok, exists_unit] at h
  obtain ⟨-, names, hAttrs, names', hInputs, names'', hOutputs, -⟩ := h
  have hAttr : ∀ attr ∈ op.attr, dataTypeFromString attr.name = none ∧
      ∀ value, attr.defaultValue = some value → validateAttrValue value attr = .ok () := by
    intro attr hMem
    obtain ⟨before, after, hCheck⟩ := validateEach_mem hAttrs hMem
    exact (validateAttr_eq hCheck).2.2
  refine ⟨(validateEach_attrs hAttrs).1, fun attr hMem => (hAttr attr hMem).1,
    fun attr hMem => (hAttr attr hMem).2, ?_⟩
  intro arg hMem
  rcases mem_append.mp hMem with hMem | hMem
  · obtain ⟨before, after, hCheck⟩ := validateEach_mem hInputs hMem
    exact validateArg_type hCheck
  · obtain ⟨before, after, hCheck⟩ := validateEach_mem hOutputs hMem
    exact validateArg_type hCheck

variable {name : String} {entries : List (String × AttrValue)}

theorem lookup_eq_some_iff (hNodup : (entries.map Prod.fst).Nodup) {value : AttrValue} :
    entries.lookup name = some value ↔ (name, value) ∈ entries := by
  induction entries with
  | nil => simp
  | cons entry rest ih =>
    rw [map_cons, nodup_cons] at hNodup
    rw [lookup_cons, mem_cons]
    by_cases hName : name = entry.1
    · rw [hName, beq_self_eq_true]
      constructor
      · intro h
        exact Or.inl (Prod.ext rfl (Option.some.inj h).symm)
      · rintro (hEq | hMem)
        · rw [← hEq]
        · exact absurd (mem_map_of_mem hMem) hNodup.1
    · rw [beq_false_of_ne hName]
      refine (ih hNodup.2).trans ?_
      constructor
      · exact Or.inr
      · rintro (rfl | hMem)
        · exact absurd rfl hName
        · exact hMem

namespace AttrMap

theorem find_eq_some {m : AttrMap} {value : AttrValue} :
    m.find name = some value ↔ (name, value) ∈ m.entries :=
  lookup_eq_some_iff m.nodup

theorem mem_keys_of_find {m : AttrMap} {value : AttrValue} (h : m.find name = some value)
    : name ∈ m.keys :=
  mem_map_of_mem (find_eq_some.mp h)

end AttrMap

def IsInternal (name : String) : Prop := "_".toList.isPrefixOf name.toList

namespace NodeDef

variable {node : NodeDef}

theorem findAttr_eq_ok {value : AttrValue} :
    node.findAttr name = .ok value ↔ node.attr.find name = some value := by
  unfold findAttr
  cases node.attr.find name with
  | none => simp
  | some found => simp

theorem checkAttrs_iff {op : OpDef} {opAttrs : List AttrDef}
    (hKeys : (entries.map Prod.fst).Nodup) (hNames : (opAttrs.map AttrDef.name).Nodup) :
    node.checkAttrs op entries opAttrs = .ok [] ↔
      (∀ entry ∈ entries, ¬IsInternal entry.1 →
        ∃ attr ∈ opAttrs, attr.name = entry.1 ∧ validateAttrValue entry.2 attr = .ok ()) ∧
      ∀ attr ∈ opAttrs, ¬IsInternal attr.name ∧ attr.name ∈ entries.map Prod.fst := by
  induction entries generalizing opAttrs with
  | nil => simp [checkAttrs, eq_nil_iff_forall_not_mem]
  | cons entry rest ih =>
    obtain ⟨name, value⟩ := entry
    rw [map_cons, nodup_cons] at hKeys
    obtain ⟨hFresh, hKeys⟩ := hKeys
    rw [checkAttrs]
    by_cases hInternal : "_".toList.isPrefixOf name.toList
    · rw [if_pos hInternal, ih hKeys hNames, forall_mem_cons]
      have hSkipped : IsInternal name := hInternal
      constructor
      · rintro ⟨hEntries, hAttrs⟩
        exact ⟨⟨fun h => absurd hSkipped h, hEntries⟩,
          fun attr hMem => ⟨(hAttrs attr hMem).1, mem_cons_of_mem _ (hAttrs attr hMem).2⟩⟩
      · rintro ⟨⟨-, hEntries⟩, hAttrs⟩
        refine ⟨hEntries, fun attr hMem => ⟨(hAttrs attr hMem).1, ?_⟩⟩
        obtain ⟨hKept, hIn⟩ := hAttrs attr hMem
        rcases mem_cons.mp hIn with hEq | hIn
        · exact absurd (hEq ▸ hSkipped) hKept
        · exact hIn
    · rw [if_neg hInternal, forall_mem_cons]
      have hNamed : ¬IsInternal name := hInternal
      cases hFind : opAttrs.find? fun attr => attr.name = name with
      | none =>
        simp only [reduceCtorEq, false_iff]
        rintro ⟨⟨hEntry, -⟩, -⟩
        obtain ⟨attr, hMem, hName, -⟩ := hEntry hNamed
        exact absurd (find?_eq_none.mp hFind attr hMem) (by simpa using hName)
      | some attr =>
        obtain ⟨hMem, hName⟩ := (find_name_eq_some hNames).mp hFind
        have hErased : ((opAttrs.filter fun a => a.name ≠ name).map AttrDef.name).Nodup :=
          hNames.sublist (filter_sublist.map _)
        simp only [bind_eq_ok, exists_unit, mapError_eq_ok]
        rw [ih hKeys hErased]
        constructor
        · rintro ⟨hValue, hEntries, hAttrs⟩
          refine ⟨⟨fun _ => ⟨attr, hMem, hName, hValue⟩, ?_⟩, ?_⟩
          · intro other hOther hNotInternal
            obtain ⟨found, hIn, hFound⟩ := hEntries other hOther hNotInternal
            exact ⟨found, (mem_filter.mp hIn).1, hFound⟩
          · intro other hOther
            by_cases hSame : other.name = name
            · exact ⟨hSame ▸ hNamed, hSame ▸ mem_cons_self⟩
            · obtain ⟨hNotInternal, hIn⟩ := hAttrs other
                (mem_filter.mpr ⟨hOther, by simpa using hSame⟩)
              exact ⟨hNotInternal, mem_cons_of_mem _ hIn⟩
        · rintro ⟨⟨hEntry, hEntries⟩, hAttrs⟩
          obtain ⟨found, hFoundMem, hFoundName, hValue⟩ := hEntry hNamed
          have hEq : found = attr :=
            inj_on_of_nodup_map hNames hFoundMem hMem (hFoundName.trans hName.symm)
          refine ⟨hEq ▸ hValue, ?_, ?_⟩
          · intro other hOther hNotInternal
            obtain ⟨def_, hIn, hDef, hOk⟩ := hEntries other hOther hNotInternal
            refine ⟨def_, mem_filter.mpr ⟨hIn, ?_⟩, hDef, hOk⟩
            have hNe : other.1 ≠ name := by
              intro hEq
              have hIn : other.1 ∈ rest.map Prod.fst := mem_map_of_mem hOther
              rw [hEq] at hIn
              exact hFresh hIn
            simpa [hDef] using hNe
          · intro other hOther
            obtain ⟨hIn, hNe⟩ := mem_filter.mp hOther
            obtain ⟨hNotInternal, hSeen⟩ := hAttrs other hIn
            rcases mem_cons.mp hSeen with hSame | hSeen
            · simp [hSame] at hNe
            · exact ⟨hNotInternal, hSeen⟩

theorem indexAttrs_eq_ok {op : OpDef} {attrs seen opAttrs : List AttrDef} :
    indexAttrs op attrs seen = .ok opAttrs ↔
      opAttrs = seen ++ attrs ∧ (attrs.map AttrDef.name).Nodup ∧
        ∀ attr ∈ attrs, attr.name ∉ seen.map AttrDef.name := by
  induction attrs generalizing seen with
  | nil => simp [indexAttrs, eq_comm]
  | cons attr rest ih =>
    rw [indexAttrs]
    split
    · rename_i hSeen
      simp only [reduceCtorEq, mem_cons, forall_eq_or_imp, false_iff, not_and]
      intro _ _ h
      exact absurd hSeen h
    · rename_i hSeen
      rw [ih, append_assoc, map_cons, nodup_cons, forall_mem_cons]
      constructor
      · rintro ⟨rfl, hNodup, hFresh⟩
        refine ⟨rfl, ⟨?_, hNodup⟩, hSeen, ?_⟩
        · intro hMem
          obtain ⟨other, hOther, hEq⟩ := mem_map.mp hMem
          exact hFresh other hOther (by simp [hEq])
        · intro other hOther hIn
          exact hFresh other hOther (by simpa using Or.inl (mem_map.mp hIn))
      · rintro ⟨rfl, ⟨hNew, hNodup⟩, -, hFresh⟩
        refine ⟨rfl, hNodup, ?_⟩
        intro other hOther hIn
        rw [map_append, mem_append] at hIn
        rcases hIn with hIn | hIn
        · exact hFresh other hOther hIn
        · have hEq : other.name = attr.name := by simpa using hIn
          exact hNew (hEq ▸ mem_map_of_mem hOther)

theorem countInputs_attrs {node' : NodeDef} {inputs : List String} {seenControl : Bool}
    {k numInputs : Nat} (h : node.countInputs inputs seenControl k = .ok numInputs) :
    node'.countInputs inputs seenControl k = .ok numInputs := by
  induction inputs generalizing seenControl k with
  | nil => exact h
  | cons input rest ih =>
    rw [countInputs] at h ⊢
    split_ifs at h ⊢
    · exact ih h
    · exact ih h

/-- What `ValidateNodeDef` establishes. -/
structure Accepted (node : NodeDef) (op : OpDef) : Prop where
  name : node.op = op.name
  entries : ∀ entry ∈ node.attr.entries, ¬IsInternal entry.1 →
    ∃ attr ∈ op.attr, attr.name = entry.1 ∧ validateAttrValue entry.2 attr = .ok ()
  attrs : ∀ attr ∈ op.attr, ¬IsInternal attr.name ∧ attr.name ∈ node.attr.keys
  inputs : ∃ types, node.inOutTypesForNode op = .ok types ∧
    node.countInputs node.input false 0 = .ok types.1.length

theorem validateNodeDef_eq_ok {op : OpDef}
    (hNodup : (op.attr.map AttrDef.name).Nodup) :
    node.validateNodeDef op = .ok () ↔ node.Accepted op := by
  simp only [validateNodeDef, bind_eq_ok, exists_unit, validate_eq_ok, decide_eq_true_eq,
    List.isEmpty_iff, indexAttrs_eq_ok]
  constructor
  · rintro ⟨hName, numInputs, hCount, opAttrs, ⟨rfl, -⟩, left, hCheck, rfl, types, hTypes, rfl⟩
    obtain ⟨hEntries, hAttrs⟩ := (checkAttrs_iff node.attr.nodup hNodup).mp hCheck
    exact ⟨hName, hEntries, hAttrs, types, hTypes, hCount⟩
  · rintro ⟨hName, hEntries, hAttrs, types, hTypes, hCount⟩
    exact ⟨hName, _, hCount, op.attr, ⟨rfl, hNodup, by simp⟩, [],
      (checkAttrs_iff node.attr.nodup hNodup).mpr ⟨hEntries, hAttrs⟩, rfl, types, hTypes, rfl⟩

namespace Accepted

variable {node : NodeDef} {op : OpDef} (h : node.Accepted op)
include h

theorem value (hNodup : (op.attr.map AttrDef.name).Nodup) {attr : AttrDef} (hMem : attr ∈ op.attr) :
    ∃ value, node.attr.find attr.name = some value ∧ validateAttrValue value attr = .ok () := by
  obtain ⟨hNamed, hIn⟩ := h.attrs attr hMem
  obtain ⟨entry, hEntry, hName⟩ := mem_map.mp hIn
  obtain ⟨found, hFound, hFoundName, hValue⟩ := h.entries entry hEntry (hName ▸ hNamed)
  have hEq : found = attr :=
    inj_on_of_nodup_map hNodup hFound hMem (hFoundName.trans hName)
  refine ⟨entry.2, AttrMap.find_eq_some.mpr ?_, hEq ▸ hValue⟩
  rw [← hName]
  exact hEntry

end Accepted

/-- What `AddDefaultsToNodeDef` makes of a node. -/
structure Defaulted (node node' : NodeDef) (attrs : List AttrDef) : Prop where
  op : node'.op = node.op
  input : node'.input = node.input
  kept : ∀ entry ∈ node.attr.entries, entry ∈ node'.attr.entries
  added : ∀ entry ∈ node'.attr.entries, entry ∈ node.attr.entries ∨
    entry.1 ∉ node.attr.keys ∧ ∃ attr ∈ attrs, attr.name = entry.1 ∧
      attr.defaultValue = some entry.2
  filled : ∀ attr ∈ attrs, attr.defaultValue.isSome → attr.name ∈ node'.attr.keys

theorem addDefault_defaulted (node : NodeDef) (attr : AttrDef) :
    Defaulted node (node.addDefault attr) [attr] := by
  unfold addDefault
  cases hDefault : attr.defaultValue with
  | none => exact ⟨rfl, rfl, fun _ h => h, fun _ h => Or.inl h, by simp [hDefault]⟩
  | some value =>
    by_cases hIn : attr.name ∈ node.attr.keys
    · simp only [hIn]
      exact ⟨rfl, rfl, fun _ h => h, fun _ h => Or.inl h, by simpa using fun _ => hIn⟩
    · simp only [hIn]
      refine ⟨rfl, rfl, fun _ h => mem_append_left _ h, ?_, ?_⟩
      · intro entry hMem
        rcases mem_append.mp hMem with hMem | hMem
        · exact Or.inl hMem
        · obtain rfl : entry = (attr.name, value) := by simpa using hMem
          exact Or.inr ⟨hIn, attr, by simp, rfl, hDefault⟩
      · simp [AttrMap.keys, AttrMap.add]

theorem Defaulted.trans {node' node'' : NodeDef} {attrs attrs' : List AttrDef}
    (h : Defaulted node node' attrs) (h' : Defaulted node' node'' attrs') :
    Defaulted node node'' (attrs ++ attrs') := by
  have hKeys : ∀ name ∈ node.attr.keys, name ∈ node'.attr.keys := by
    intro name hName
    obtain ⟨entry, hMem, rfl⟩ := mem_map.mp hName
    exact mem_map_of_mem (h.kept entry hMem)
  refine ⟨h'.op.trans h.op, h'.input.trans h.input, fun e hMem => h'.kept e (h.kept e hMem), ?_, ?_⟩
  · intro entry hMem
    rcases h'.added entry hMem with hMem | ⟨hNew, attr, hAttr, hDefault⟩
    · rcases h.added entry hMem with hMem | ⟨hNew, attr, hAttr, hDefault⟩
      · exact Or.inl hMem
      · exact Or.inr ⟨hNew, attr, mem_append_left _ hAttr, hDefault⟩
    · exact Or.inr ⟨fun hIn => hNew (hKeys _ hIn), attr, mem_append_right _ hAttr, hDefault⟩
  · intro attr hMem hDefault
    rcases mem_append.mp hMem with hMem | hMem
    · obtain ⟨entry, hEntry, hName⟩ := mem_map.mp (h.filled attr hMem hDefault)
      rw [← hName]
      exact mem_map_of_mem (h'.kept entry hEntry)
    · exact h'.filled attr hMem hDefault

theorem foldl_addDefault_defaulted (node : NodeDef) (attrs : List AttrDef) :
    Defaulted node (attrs.foldl addDefault node) attrs := by
  induction attrs generalizing node with
  | nil => exact ⟨rfl, rfl, fun _ h => h, fun _ h => Or.inl h, by simp⟩
  | cons attr rest ih => exact (addDefault_defaulted node attr).trans (ih (node.addDefault attr))

theorem addDefaults_defaulted (node : NodeDef) (op : OpDef) :
    Defaulted node (node.addDefaults op) op.attr :=
  foldl_addDefault_defaulted node op.attr

namespace Defaulted

variable {node node' : NodeDef} {attrs : List AttrDef} (h : Defaulted node node' attrs)
include h

theorem find_kept {value : AttrValue} (hFind : node.attr.find name = some value) :
    node'.attr.find name = some value :=
  AttrMap.find_eq_some.mpr (h.kept _ (AttrMap.find_eq_some.mp hFind))

theorem find_default (hNodup : (attrs.map AttrDef.name).Nodup) {attr : AttrDef}
    (hMem : attr ∈ attrs) {value : AttrValue} (hDefault : attr.defaultValue = some value)
    (hAbsent : attr.name ∉ node.attr.keys) : node'.attr.find attr.name = some value := by
  obtain ⟨entry, hEntry, hName⟩ := mem_map.mp (h.filled attr hMem (by simp [hDefault]))
  rcases h.added entry hEntry with hOld | ⟨-, found, hFound, hFoundName, hFoundDefault⟩
  · exact absurd (hName ▸ mem_map_of_mem hOld) hAbsent
  · have hEq : found = attr :=
      inj_on_of_nodup_map hNodup hFound hMem (hFoundName.trans hName)
    rw [hEq, hDefault] at hFoundDefault
    rw [AttrMap.find_eq_some, Option.some.inj hFoundDefault, ← hName]
    exact hEntry

end Defaulted

end NodeDef

end TensorFlowOnSpark.Ops
