import TensorFlowOnSpark.Framework.OpDefCompatible
import TensorFlowOnSpark.Lib.Fallible

/-!
# Signatures of op definitions

A signature is a string.
-/

namespace TensorFlowOnSpark.Ops

open Fallible List Except

def Ends (rest : List Char) : Prop := rest = [] ∨ ∃ rest', rest = ',' :: rest'

def joinTail : List String → List Char
  | [] => []
  | text :: texts => ',' :: ' ' :: text.toList ++ joinTail texts

def join : List String → List Char
  | [] => []
  | text :: texts => text.toList ++ joinTail texts

theorem joinTail_ends (texts : List String) : Ends (joinTail texts) := by
  cases texts with
  | nil => exact Or.inl rfl
  | cons text texts => exact Or.inr ⟨_, rfl⟩

theorem split_unique {c : Char} {a a' rest rest' : List Char} (h : c ∉ a) (h' : c ∉ a')
    (hRest : rest = [] ∨ ∃ r, rest = c :: r) (hRest' : rest' = [] ∨ ∃ r, rest' = c :: r)
    (hEq : a ++ rest = a' ++ rest') : a = a' ∧ rest = rest' := by
  induction a generalizing a' with
  | nil =>
    cases a' with
    | nil => exact ⟨rfl, hEq⟩
    | cons x xs =>
      rcases hRest with rfl | ⟨r, rfl⟩
      · cases hEq
      · exact absurd (by simpa using Or.inl (cons.inj hEq).1) h'
  | cons x xs ih =>
    cases a' with
    | nil =>
      rcases hRest' with rfl | ⟨r, rfl⟩
      · cases hEq
      · exact absurd (by simpa using Or.inl (cons.inj hEq).1.symm) h
    | cons y ys =>
      obtain ⟨rfl, hTail⟩ := cons.inj hEq
      obtain ⟨rfl, hRestEq⟩ := ih (fun hIn => h (mem_cons_of_mem _ hIn))
        (fun hIn => h' (mem_cons_of_mem _ hIn)) hTail
      exact ⟨rfl, hRestEq⟩

structure Delimited (S : String → Prop) : Prop where
  nonempty : ∀ text, S text → text.toList ≠ []
  unique : ∀ text text' rest rest', S text → S text' → Ends rest → Ends rest' →
    text.toList ++ rest = text'.toList ++ rest' → text = text' ∧ rest = rest'

namespace Delimited

variable {S : String → Prop} (hS : Delimited S)
include hS

variable {texts texts' : List String}

theorem joinTail_injective (h : ∀ text ∈ texts, S text)
    (h' : ∀ text ∈ texts', S text) (hEq : joinTail texts = joinTail texts') : texts = texts' := by
  induction texts generalizing texts' with
  | nil =>
    cases texts' with
    | nil => rfl
    | cons text' rest' => cases hEq
  | cons text rest ih =>
    cases texts' with
    | nil => cases hEq
    | cons text' rest' =>
      rw [forall_mem_cons] at h h'
      obtain ⟨rfl, hRest⟩ := hS.unique text text' _ _ h.1 h'.1 (joinTail_ends rest)
        (joinTail_ends rest') (by simpa [joinTail] using hEq)
      rw [ih h.2 h'.2 hRest]

theorem join_injective (h : ∀ text ∈ texts, S text)
    (h' : ∀ text ∈ texts', S text) (hEq : join texts = join texts') : texts = texts' := by
  cases texts with
  | nil =>
    cases texts' with
    | nil => rfl
    | cons text' rest' =>
      have hNil : text'.toList = [] := (append_eq_nil_iff.mp hEq.symm).1
      exact absurd hNil (hS.nonempty text' (h' text' (by simp)))
  | cons text rest =>
    cases texts' with
    | nil =>
      have hNil : text.toList = [] := (append_eq_nil_iff.mp hEq).1
      exact absurd hNil (hS.nonempty text (h text (by simp)))
    | cons text' rest' =>
      rw [forall_mem_cons] at h h'
      obtain ⟨rfl, hRest⟩ := hS.unique text text' _ _ h.1 h'.1 (joinTail_ends rest)
        (joinTail_ends rest') hEq
      rw [hS.joinTail_injective h.2 h'.2 hRest]

end Delimited

theorem delimited_noComma : Delimited fun text => text.toList ≠ [] ∧ ',' ∉ text.toList where
  nonempty := fun _ h => h.1
  unique := by
    intro text text' rest rest' h h' hRest hRest' hEq
    obtain ⟨hText, hRestEq⟩ := split_unique h.2 h'.2 hRest hRest' hEq
    exact ⟨String.toList_inj.mp hText, hRestEq⟩

def IsNamed (text : String) : Prop :=
  ∃ name item : List Char, text.toList = name ++ ':' :: item ∧ ':' ∉ name ∧ ',' ∉ item

theorem delimited_named : Delimited IsNamed where
  nonempty := by
    rintro text ⟨name, item, hText, -⟩
    simp [hText]
  unique := by
    rintro text text' rest rest' ⟨name, item, hText, hName, hItem⟩
      ⟨name', item', hText', hName', hItem'⟩ hRest hRest' hEq
    rw [hText, hText', append_assoc, append_assoc] at hEq
    obtain ⟨rfl, hTail⟩ := split_unique hName hName' (Or.inr ⟨_, rfl⟩) (Or.inr ⟨_, rfl⟩) hEq
    obtain ⟨rfl, hRestEq⟩ := split_unique hItem hItem' hRest hRest' (cons.inj hTail).2
    exact ⟨String.toList_inj.mp (hText.trans hText'.symm), hRestEq⟩

def isIdentifier (name : String) : Bool :=
  match name.toList with
  | [] => false
  | c :: rest => (isLetter c || c = '_') && rest.all fun c => isLetterDigit c || c = '_'

def IsWord (text : String) : Prop :=
  text.toList ≠ [] ∧ ',' ∉ text.toList ∧ ' ' ∉ text.toList

variable {name : String}

theorem isIdentifier_chars (h : isIdentifier name) :
    name.toList ≠ [] ∧ ∀ c ∈ name.toList, isLetterDigit c ∨ c = '_' := by
  unfold isIdentifier at h
  cases hList : name.toList with
  | nil => simp [hList] at h
  | cons c rest =>
    simp only [hList, Bool.and_eq_true, Bool.or_eq_true, decide_eq_true_eq, all_eq_true] at h
    refine ⟨by simp, ?_⟩
    intro d hd
    rcases mem_cons.mp hd with rfl | hd
    · exact h.1.imp_left fun hLetter => by simp [isLetterDigit, hLetter]
    · exact h.2 d hd

theorem isIdentifier_word (h : isIdentifier name) : IsWord name := by
  obtain ⟨hNonempty, hChars⟩ := isIdentifier_chars h
  refine ⟨hNonempty, fun hIn => ?_, fun hIn => ?_⟩
  · exact absurd (hChars _ hIn) (by decide)
  · exact absurd (hChars _ hIn) (by decide)

theorem typeNames_word : ∀ entry ∈ typeNames, IsWord entry.2 := by
  unfold IsWord
  decide +kernel

theorem typeNames_injective :
    ∀ entry ∈ typeNames, ∀ entry' ∈ typeNames, entry.2 = entry'.2 → entry.1 = entry'.1 := by
  decide +kernel

theorem typeNames_read :
    ∀ entry ∈ typeNames, entry.1 ≠ dtInvalid → (dataTypeFromString entry.2).isSome := by
  decide +kernel

theorem dataTypeString_mem {dtype : DataType} {text : String} (hType : IsValueType dtype)
    (h : dataTypeString dtype = .ok text) : (dtype, text) ∈ typeNames := by
  have hBase : baseTypeString dtype = .ok text := by
    unfold dataTypeString at h
    cases hDepth : dtype.toNat / 100 with
    | zero => rwa [hDepth] at h
    | succ depth =>
      rw [hDepth, dataTypeStringFrom, hType.1] at h
      exact h
  unfold baseTypeString at hBase
  cases hFind : typeNames.find? fun entry => entry.1 = dtype with
  | none => simp [hFind] at hBase
  | some entry =>
    have hDtype : entry.1 = dtype := by simpa using find?_some hFind
    have hText : entry.2 = text := by simpa [hFind] using hBase
    rw [← hDtype, ← hText]
    exact mem_of_find?_eq_some hFind

inductive ItemType where
  | attr (name : String)
  | given (dtype : DataType)

inductive Item where
  | one (type : ItemType)
  | repeated (number : String) (type : ItemType)
  | list (attr : String)

def ItemType.text : ItemType → Except Error String
  | .attr name => .ok name
  | .given dtype => dataTypeString dtype

def Item.text : Item → Except Error String
  | .one type => type.text
  | .repeated number type => type.text >>= fun text => .ok (number ++ " * " ++ text)
  | .list attr => .ok attr

def ItemType.Typed (attrs : List AttrDef) : ItemType → Prop
  | .attr name => ∃ attr ∈ attrs, attr.name = name ∧ attr.type = "type"
  | .given dtype => IsValueType dtype

def Item.Typed (attrs : List AttrDef) : Item → Prop
  | .one type => type.Typed attrs
  | .repeated number type => (∃ attr ∈ attrs, attr.name = number) ∧ type.Typed attrs
  | .list name => ∃ attr ∈ attrs, attr.name = name ∧ attr.type = "list(type)"

structure Named (attrs : List AttrDef) : Prop where
  nodup : (attrs.map AttrDef.name).Nodup
  identifier : ∀ attr ∈ attrs, isIdentifier attr.name
  noTypeName : ∀ attr ∈ attrs, dataTypeFromString attr.name = none

namespace Named

variable {attrs : List AttrDef} (hAttrs : Named attrs)
include hAttrs

variable {type : ItemType} {text : String}

theorem word_of_type (hTyped : type.Typed attrs)
    (hText : type.text = .ok text) : IsWord text := by
  cases type with
  | attr name =>
    obtain ⟨attr, hMem, rfl, -⟩ := hTyped
    obtain rfl : attr.name = text := ok.inj hText
    exact isIdentifier_word (hAttrs.identifier attr hMem)
  | given dtype => exact typeNames_word _ (dataTypeString_mem hTyped hText)

theorem attr_ne_given {attr : AttrDef} (hMem : attr ∈ attrs) {dtype : DataType}
    (hType : IsValueType dtype) : dataTypeString dtype ≠ .ok attr.name := by
  intro hText
  have hRead := typeNames_read _ (dataTypeString_mem hType hText) hType.2
  rw [hAttrs.noTypeName attr hMem] at hRead
  cases hRead

theorem type_injective {type' : ItemType} (hTyped : type.Typed attrs)
    (hTyped' : type'.Typed attrs) (hText : type.text = .ok text) (hText' : type'.text = .ok text) :
    type = type' := by
  cases type with
  | attr name =>
    obtain rfl : name = text := ok.inj hText
    cases type' with
    | attr name' =>
      obtain rfl : name' = name := ok.inj hText'
      rfl
    | given dtype' =>
      obtain ⟨attr, hMem, rfl, -⟩ := hTyped
      exact absurd hText' (hAttrs.attr_ne_given hMem hTyped')
  | given dtype =>
    cases type' with
    | attr name' =>
      obtain rfl : name' = text := ok.inj hText'
      obtain ⟨attr, hMem, rfl, -⟩ := hTyped'
      exact absurd hText (hAttrs.attr_ne_given hMem hTyped)
    | given dtype' =>
      have hEq := typeNames_injective _ (dataTypeString_mem hTyped hText) _
        (dataTypeString_mem hTyped' hText') rfl
      exact congrArg ItemType.given hEq

theorem text_chars {item : Item} (hTyped : item.Typed attrs)
    (hText : item.text = .ok text) : text.toList ≠ [] ∧ ',' ∉ text.toList := by
  cases item with
  | one type =>
    have hWord := hAttrs.word_of_type hTyped hText
    exact ⟨hWord.1, hWord.2.1⟩
  | list name =>
    obtain ⟨attr, hMem, rfl, -⟩ := hTyped
    obtain rfl : attr.name = text := ok.inj hText
    have hWord := isIdentifier_word (hAttrs.identifier attr hMem)
    exact ⟨hWord.1, hWord.2.1⟩
  | repeated number type =>
    obtain ⟨⟨attr, hMem, rfl⟩, hType⟩ := hTyped
    obtain ⟨typeText, hTypeText, hEq⟩ := bind_eq_ok.mp hText
    obtain rfl := ok.inj hEq
    have hWord := isIdentifier_word (hAttrs.identifier attr hMem)
    have hTypeWord := hAttrs.word_of_type hType hTypeText
    simp [hWord.2.1, hTypeWord.2.1]

theorem one_ne_list (hTyped : type.Typed attrs)
    (hList : (Item.list name).Typed attrs) : type.text ≠ .ok name := by
  intro hText
  obtain ⟨attr, hMem, rfl, hType⟩ := hList
  cases type with
  | attr name' =>
    obtain ⟨attr', hMem', hName', hType'⟩ := hTyped
    have hSame : attr' = attr :=
      inj_on_of_nodup_map hAttrs.nodup hMem' hMem (hName'.trans (ok.inj hText))
    rw [hSame, hType] at hType'
    exact absurd hType' (by decide)
  | given dtype => exact hAttrs.attr_ne_given hMem hTyped hText

omit hAttrs in
theorem repeated_space {number : String}
    (hText : (Item.repeated number type).text = .ok text) : ' ' ∈ text.toList := by
  obtain ⟨typeText, -, hEq⟩ := bind_eq_ok.mp hText
  obtain rfl := ok.inj hEq
  simp

theorem item_injective {item item' : Item} (hTyped : item.Typed attrs)
    (hTyped' : item'.Typed attrs) (hText : item.text = .ok text) (hText' : item'.text = .ok text) :
    item = item' := by
  have hOneWord : ∀ type : ItemType, type.Typed attrs → type.text = .ok text →
      ' ' ∉ text.toList := fun type h hOk => (hAttrs.word_of_type h hOk).2.2
  have hListWord : ∀ name, (Item.list name).Typed attrs → (Item.list name).text = .ok text →
      ' ' ∉ text.toList := by
    rintro name ⟨attr, hMem, rfl, -⟩ hOk
    obtain rfl : attr.name = text := ok.inj hOk
    exact (isIdentifier_word (hAttrs.identifier attr hMem)).2.2
  cases item with
  | one type =>
    cases item' with
    | one type' => exact congrArg Item.one (hAttrs.type_injective hTyped hTyped' hText hText')
    | repeated number' type' =>
      exact absurd (repeated_space hText') (hOneWord type hTyped hText)
    | list name' =>
      obtain rfl : name' = text := ok.inj hText'
      exact absurd hText (hAttrs.one_ne_list hTyped hTyped')
  | repeated number type =>
    cases item' with
    | one type' => exact absurd (repeated_space hText) (hOneWord type' hTyped' hText')
    | list name' => exact absurd (repeated_space hText) (hListWord name' hTyped' hText')
    | repeated number' type' =>
      obtain ⟨⟨attr, hMem, rfl⟩, hType⟩ := hTyped
      obtain ⟨⟨attr', hMem', rfl⟩, hType'⟩ := hTyped'
      obtain ⟨typeText, hTypeText, hEq⟩ := bind_eq_ok.mp hText
      obtain ⟨typeText', hTypeText', hEq'⟩ := bind_eq_ok.mp hText'
      have hChars : attr.name.toList ++ (' ' :: '*' :: ' ' :: typeText.toList) =
          attr'.name.toList ++ (' ' :: '*' :: ' ' :: typeText'.toList) := by
        have hSame := (ok.inj hEq).trans (ok.inj hEq').symm
        simpa using congrArg String.toList hSame
      obtain ⟨hNumber, hRest⟩ := split_unique
        (isIdentifier_word (hAttrs.identifier attr hMem)).2.2
        (isIdentifier_word (hAttrs.identifier attr' hMem')).2.2
        (Or.inr ⟨_, rfl⟩) (Or.inr ⟨_, rfl⟩) hChars
      have hTexts : typeText = typeText' := String.toList_inj.mp (by simpa using hRest)
      rw [String.toList_inj.mp hNumber,
        hAttrs.type_injective hType hType' hTypeText (hTexts ▸ hTypeText')]
  | list name =>
    cases item' with
    | one type' =>
      obtain rfl : name = text := ok.inj hText
      exact absurd hText' (hAttrs.one_ne_list hTyped' hTyped)
    | repeated number' type' =>
      exact absurd (repeated_space hText') (hListWord name hTyped hText)
    | list name' =>
      obtain rfl : name = text := ok.inj hText
      obtain rfl : name' = name := ok.inj hText'
      rfl

end Named

def typeItem (oldAttrs newAttrs : List AttrDef) (arg : ArgDef) : ItemType :=
  if arg.type ≠ dtInvalid then .given arg.type
  else
    match findInMap oldAttrs arg.typeAttr with
    | some _ => .attr arg.typeAttr
    | none => .given (addedDefault newAttrs arg.typeAttr).getType

def numberItems (oldAttrs newAttrs : List AttrDef) (arg : ArgDef) (type : ItemType) : List Item :=
  if arg.numberAttr ≠ "" then
    match findInMap oldAttrs arg.numberAttr with
    | some _ => [.repeated arg.numberAttr type]
    | none =>
      replicate (NodeDef.toInt32 (addedDefault newAttrs arg.numberAttr).getI).toNat (.one type)
  else [.one type]

def argItems (oldAttrs newAttrs : List AttrDef) (arg : ArgDef) : List Item :=
  if arg.typeListAttr ≠ "" then
    match findInMap oldAttrs arg.typeListAttr with
    | some _ => [.list arg.typeListAttr]
    | none => (addedDefault newAttrs arg.typeListAttr).getList.type.map fun d => .one (.given d)
  else numberItems oldAttrs newAttrs arg (typeItem oldAttrs newAttrs arg)

def items (oldAttrs newAttrs : List AttrDef) (args : List ArgDef) : List (ArgDef × Item) :=
  args.flatMap fun arg => (argItems oldAttrs newAttrs arg).map fun item => (arg, item)

theorem items_cons (oldAttrs newAttrs : List AttrDef) (arg : ArgDef) (args : List ArgDef) :
    items oldAttrs newAttrs (arg :: args) =
      ((argItems oldAttrs newAttrs arg).map fun item => (arg, item)) ++
        items oldAttrs newAttrs args := rfl

/-- `text` is what the signature holds for the item. -/
def Writes (names : Bool) (entry : ArgDef × Item) (text : String) : Prop :=
  ∃ item, entry.2.text = .ok item ∧ text = argName names entry.1 ++ item

variable {oldAttrs newAttrs : List AttrDef}
variable {arg : ArgDef} {text : String} {names : Bool} {texts : List String} {entry : ArgDef × Item}
variable {args : List ArgDef} {sig : ArgSignature}

theorem typeText_eq (h : typeText oldAttrs newAttrs arg = .ok text) :
    (typeItem oldAttrs newAttrs arg).text = .ok text := by
  unfold typeText at h
  unfold typeItem
  split at h
  · rename_i hType
    rw [if_pos hType]
    exact h
  · rename_i hType
    rw [if_neg hType]
    cases hFind : findInMap oldAttrs arg.typeAttr with
    | none => simpa [hFind, ItemType.text] using h
    | some attr => simpa [hFind, ItemType.text] using h

theorem listTexts_writes {types : List DataType}
    (h : listTexts (argName names arg) types = .ok texts) :
    Forall₂ (Writes names) (types.map fun d => (arg, Item.one (.given d))) texts := by
  induction types generalizing texts with
  | nil =>
    obtain rfl := ok.inj h
    exact Forall₂.nil
  | cons dtype rest ih =>
    simp only [listTexts, bind_eq_ok] at h
    obtain ⟨text, hText, restTexts, hRest, hEq⟩ := h
    obtain rfl := ok.inj hEq
    exact Forall₂.cons ⟨text, hText, rfl⟩ (ih hRest)

theorem replicate_writes (h : Writes names entry text) (n : Nat) :
    Forall₂ (Writes names) (replicate n entry) (replicate n text) := by
  induction n with
  | zero => exact Forall₂.nil
  | succ n ih => exact Forall₂.cons h ih

theorem argTexts_writes (h : argTexts oldAttrs newAttrs names arg = .ok texts) :
    Forall₂ (Writes names) ((argItems oldAttrs newAttrs arg).map fun item => (arg, item))
      texts := by
  unfold argTexts at h
  unfold argItems
  split at h
  · rename_i hList
    rw [if_pos hList]
    cases hFind : findInMap oldAttrs arg.typeListAttr with
    | none =>
      rw [hFind] at h
      simpa [map_map, Function.comp_def] using listTexts_writes h
    | some attr =>
      rw [hFind] at h
      obtain rfl := ok.inj h
      exact Forall₂.cons ⟨_, rfl, rfl⟩ Forall₂.nil
  · rename_i hList
    rw [if_neg hList]
    obtain ⟨type, hType, hEq⟩ := bind_eq_ok.mp h
    obtain rfl := ok.inj hEq
    replace hType := typeText_eq hType
    unfold numberItems
    by_cases hNumber : arg.numberAttr = ""
    · have hText : numberText oldAttrs newAttrs arg = (1, "") := by simp [numberText, hNumber]
      rw [hText, if_neg (by simpa using hNumber)]
      exact Forall₂.cons ⟨type, hType, by simp⟩ Forall₂.nil
    · rw [if_pos hNumber]
      cases hFind : findInMap oldAttrs arg.numberAttr with
      | none =>
        have hText : numberText oldAttrs newAttrs arg =
            (NodeDef.toInt32 (addedDefault newAttrs arg.numberAttr).getI, "") := by
          simp [numberText, hNumber, hFind]
        rw [hText, map_replicate]
        have hWrites : Writes names (arg, Item.one (typeItem oldAttrs newAttrs arg))
            (argName names arg ++ "" ++ type) := ⟨type, hType, by simp⟩
        exact replicate_writes hWrites _
      | some attr =>
        have hText : numberText oldAttrs newAttrs arg = (1, arg.numberAttr ++ " * ") := by
          simp [numberText, hNumber, hFind]
        rw [hText]
        refine Forall₂.cons ⟨arg.numberAttr ++ " * " ++ type, ?_, ?_⟩ Forall₂.nil
        · simp [Item.text, hType, bind_eq_ok]
        · simp [String.append_assoc]

def written (addComma : Bool) (texts : List String) : List Char :=
  if addComma then joinTail texts else join texts

theorem pushMany_eq (sig : ArgSignature) (texts : List String) (isRef : Bool) :
    (sig.pushMany texts isRef).s.toList = sig.s.toList ++ written sig.addComma texts ∧
      (sig.pushMany texts isRef).addComma = (sig.addComma || !texts.isEmpty) ∧
      (sig.pushMany texts isRef).ref = sig.ref ++ texts.map fun _ => isRef := by
  induction texts generalizing sig with
  | nil =>
    cases hComma : sig.addComma <;> simp [ArgSignature.pushMany, written, join, joinTail, hComma]
  | cons text rest ih =>
    obtain ⟨hText, hComma, hRef⟩ := ih (sig.push text isRef)
    refine ⟨?_, ?_, ?_⟩
    · refine hText.trans ?_
      cases sig with
      | mk s addComma ref => cases addComma <;> simp [ArgSignature.push, written, join, joinTail]
    · refine hComma.trans ?_
      simp [ArgSignature.push]
    · refine hRef.trans ?_
      simp [ArgSignature.push]

theorem joinTail_append (texts texts' : List String) :
    joinTail (texts ++ texts') = joinTail texts ++ joinTail texts' := by
  induction texts with
  | nil => rfl
  | cons text rest ih => simp [joinTail, ih]

theorem written_append (addComma : Bool) (texts texts' : List String) :
    written addComma (texts ++ texts') =
      written addComma texts ++ written (addComma || !texts.isEmpty) texts' := by
  cases addComma with
  | true => exact joinTail_append texts texts'
  | false =>
    cases texts with
    | nil => rfl
    | cons text rest => simp [written, join, joinTail_append]

variable {sig' : ArgSignature}

theorem computeArgSignatureFrom_eq
    (h : computeArgSignatureFrom oldAttrs newAttrs names args sig = .ok sig') :
    ∃ texts, Forall₂ (Writes names) (items oldAttrs newAttrs args) texts ∧
      sig'.s.toList = sig.s.toList ++ written sig.addComma texts ∧
      sig'.ref = sig.ref ++ (items oldAttrs newAttrs args).map fun entry => entry.1.isRef := by
  induction args generalizing sig with
  | nil =>
    obtain rfl := ok.inj h
    refine ⟨[], Forall₂.nil, ?_, by simp [items]⟩
    cases hComma : sig.addComma <;> simp [written, join, joinTail]
  | cons arg rest ih =>
    simp only [computeArgSignatureFrom, bind_eq_ok] at h
    obtain ⟨texts, hTexts, hRest⟩ := h
    have hWrites := argTexts_writes hTexts
    obtain ⟨hPushed, hComma, hRef⟩ := pushMany_eq sig texts arg.isRef
    obtain ⟨restTexts, hRestWrites, hSig, hSigRef⟩ := ih hRest
    refine ⟨texts ++ restTexts, rel_append hWrites hRestWrites, ?_, ?_⟩
    · rw [hSig, hPushed, hComma, written_append, append_assoc]
    · rw [hSigRef, hRef, items_cons, map_append, map_map, append_assoc]
      congr 2
      rw [map_const', ← hWrites.length_eq, length_map]
      exact (map_const' ..).symm

theorem computeArgSignature_eq (h : computeArgSignature args oldAttrs newAttrs names = .ok sig) :
    ∃ texts, Forall₂ (Writes names) (items oldAttrs newAttrs args) texts ∧
      sig.s.toList = join texts ∧
      sig.ref = (items oldAttrs newAttrs args).map fun entry => entry.1.isRef := by
  obtain ⟨texts, hWrites, hSig, hRef⟩ := computeArgSignatureFrom_eq h
  exact ⟨texts, hWrites, by simpa [ArgSignature.empty, written] using hSig,
    by simpa [ArgSignature.empty] using hRef⟩

theorem writes_delimited (hAttrs : Named oldAttrs) (hTyped : entry.2.Typed oldAttrs)
    (hName : names → ':' ∉ entry.1.name.toList) (h : Writes names entry text) :
    (names = false → text.toList ≠ [] ∧ ',' ∉ text.toList) ∧ (names → IsNamed text) := by
  obtain ⟨item, hItem, rfl⟩ := h
  have hChars := hAttrs.text_chars hTyped hItem
  constructor
  · rintro rfl
    simpa [argName] using hChars
  · rintro rfl
    exact ⟨entry.1.name.toList, item.toList, by simp [argName], hName rfl, hChars.2⟩

theorem writes_injective {entry' : ArgDef × Item}
    (hAttrs : Named oldAttrs) (hTyped : entry.2.Typed oldAttrs) (hTyped' : entry'.2.Typed oldAttrs)
    (hName : names → ':' ∉ entry.1.name.toList)
    (hName' : names → ':' ∉ entry'.1.name.toList)
    (h : Writes names entry text) (h' : Writes names entry' text) : entry.2 = entry'.2 := by
  obtain ⟨item, hItem, hText⟩ := h
  obtain ⟨item', hItem', hText'⟩ := h'
  have hSame : item = item' := by
    have hEq : (argName names entry.1).toList ++ item.toList =
        (argName names entry'.1).toList ++ item'.toList := by
      simpa using congrArg String.toList (hText.symm.trans hText')
    cases names with
    | false => exact String.toList_inj.mp (by simpa [argName] using hEq)
    | true =>
      have hSplit : entry.1.name.toList ++ ':' :: item.toList =
          entry'.1.name.toList ++ ':' :: item'.toList := by
        simpa [argName] using hEq
      obtain ⟨-, hRest⟩ := split_unique (hName rfl) (hName' rfl) (Or.inr ⟨_, rfl⟩)
        (Or.inr ⟨_, rfl⟩) hSplit
      exact String.toList_inj.mp (cons.inj hRest).2
  exact hAttrs.item_injective hTyped hTyped' hItem (hSame ▸ hItem')

theorem items_eq {entries entries' : List (ArgDef × Item)}
    (hAttrs : Named oldAttrs) (hTyped : ∀ entry ∈ entries, entry.2.Typed oldAttrs)
    (hTyped' : ∀ entry ∈ entries', entry.2.Typed oldAttrs)
    (hNames : names → ∀ entry ∈ entries, ':' ∉ entry.1.name.toList)
    (hNames' : names → ∀ entry ∈ entries', ':' ∉ entry.1.name.toList)
    (h : Forall₂ (Writes names) entries texts)
    (h' : Forall₂ (Writes names) entries' texts) :
    entries.map Prod.snd = entries'.map Prod.snd := by
  induction h generalizing entries' with
  | nil =>
    cases h'
    rfl
  | @cons entry text rest restTexts hHead hTail ih =>
    cases h' with
    | @cons entry' _ rest' _ hHead' hTail' =>
      rw [forall_mem_cons] at hTyped hTyped'
      have hSame := writes_injective hAttrs hTyped.1 hTyped'.1
        (fun hSet => hNames hSet entry (by simp)) (fun hSet => hNames' hSet entry' (by simp))
        hHead hHead'
      rw [map_cons, map_cons, hSame, ih hTyped.2 hTyped'.2
        (fun hSet e hMem => hNames hSet e (mem_cons_of_mem _ hMem))
        (fun hSet e hMem => hNames' hSet e (mem_cons_of_mem _ hMem)) hTail']

/-- Signatures that are the same string have the same items. -/
theorem signature_items {args' : List ArgDef} (hAttrs : Named oldAttrs)
    (hTyped : ∀ entry ∈ items oldAttrs newAttrs args, entry.2.Typed oldAttrs)
    (hTyped' : ∀ entry ∈ items oldAttrs newAttrs args', entry.2.Typed oldAttrs)
    (hNames : names → ∀ arg ∈ args ++ args', ':' ∉ arg.name.toList)
    (h : computeArgSignature args oldAttrs newAttrs names = .ok sig)
    (h' : computeArgSignature args' oldAttrs newAttrs names = .ok sig') (hEq : sig.s = sig'.s) :
    (items oldAttrs newAttrs args).map Prod.snd = (items oldAttrs newAttrs args').map Prod.snd := by
  have hArg : ∀ args, ∀ entry ∈ items oldAttrs newAttrs args, entry.1 ∈ args := by
    intro args entry hMem
    obtain ⟨arg, hArg, hIn⟩ := mem_flatMap.mp hMem
    obtain ⟨item, -, rfl⟩ := mem_map.mp hIn
    exact hArg
  have hNamesLeft : names → ∀ entry ∈ items oldAttrs newAttrs args,
      ':' ∉ entry.1.name.toList :=
    fun hSet entry hMem => hNames hSet _ (mem_append_left _ (hArg args entry hMem))
  have hNamesRight : names → ∀ entry ∈ items oldAttrs newAttrs args',
      ':' ∉ entry.1.name.toList :=
    fun hSet entry hMem => hNames hSet _ (mem_append_right _ (hArg args' entry hMem))
  obtain ⟨texts, hWrites, hText, -⟩ := computeArgSignature_eq h
  obtain ⟨texts', hWrites', hText', -⟩ := computeArgSignature_eq h'
  have hJoin : join texts = join texts' := by rw [← hText, ← hText', hEq]
  have hDelimited : ∀ {entries : List (ArgDef × Item)} {texts : List String},
      (∀ entry ∈ entries, entry.2.Typed oldAttrs) →
      (names → ∀ entry ∈ entries, ':' ∉ entry.1.name.toList) →
      Forall₂ (Writes names) entries texts → ∀ text ∈ texts,
      (names = false → text.toList ≠ [] ∧ ',' ∉ text.toList) ∧ (names → IsNamed text) := by
    intro entries texts hTyped hNames hWrites text hMem
    obtain ⟨entry, hEntry, hWrite⟩ := Fallible.forall₂_mem_right hWrites hMem
    exact writes_delimited hAttrs (hTyped entry hEntry)
      (fun hSet => hNames hSet entry hEntry) hWrite
  have hTexts : texts = texts' := by
    cases names with
    | false =>
      exact delimited_noComma.join_injective
        (fun text hMem => (hDelimited hTyped hNamesLeft hWrites text hMem).1 rfl)
        (fun text hMem => (hDelimited hTyped' hNamesRight hWrites' text hMem).1 rfl) hJoin
    | true =>
      exact delimited_named.join_injective
        (fun text hMem => (hDelimited hTyped hNamesLeft hWrites text hMem).2 rfl)
        (fun text hMem => (hDelimited hTyped' hNamesRight hWrites' text hMem).2 rfl) hJoin
  exact items_eq hAttrs hTyped hTyped' hNamesLeft hNamesRight hWrites (hTexts ▸ hWrites')

end TensorFlowOnSpark.Ops
