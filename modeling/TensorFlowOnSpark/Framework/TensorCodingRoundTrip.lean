import TensorFlowOnSpark.Framework.TensorCoding
import TensorFlowOnSpark.Lib.Fallible
import Mathlib.Data.Vector.Basic

/-!
# Which tensors a message keeps

Each type reads what it has written, up to two of them: `bfloat16` takes an array of `int32` for
one of its own, and handles are taken for an array.
-/

namespace TensorFlowOnSpark.Framework.TensorCoding

open Wire Io List Option Except UInt32 RepeatedField Nat

variable {ρ T F : Type}

def ContentReadsBack (helper : Helper T) {n : Nat} (data : List.Vector T n) : Prop :=
  ∃ content, helper.encode data.toList = .ok content ∧
    (0 < n → content ≠ [] ∧ helper.decode true content n = .ok (some data))

theorem simpleHelper_readsBack (layout : Layout T) {n : Nat} (data : List.Vector T n) :
    ContentReadsBack (simpleHelper layout) data := by
  have hLength := layout.length_writeAll data.toList
  rw [Vector.toList_length] at hLength
  refine ⟨layout.writeAll data.toList, rfl, fun hn => ⟨?_, ?_⟩⟩
  · apply layout.writeAll_ne_nil
    apply length_pos_iff.mp
    rwa [Vector.toList_length]
  · simp only [simpleHelper, hLength, ne_eq, not_true_eq_false, if_false, if_true,
      layout.readAll_writeAll]

theorem getVarint32_encode {n : Nat} (h : n < 2 ^ 32) (rest : List UInt8) :
    getVarint32 (encodeVarint32 (ofNat n) ++ rest) = some (ofNat n, rest) := by
  have hValue : (ofNat n).toNat = n := toNat_ofNat_of_lt' h
  have hFive : n < 128 ^ (4 + 1) := h.trans (by decide)
  have hBytes : writeVarint n = varintBytes (4 + 1) n := varintBytes_eq (h.trans (by decide)) hFive
  rw [getVarint32, encodeVarint32_eq, hValue, hBytes, varint_varintBytes hFive, map_some]

def sizeBytes (ss : List (List UInt8)) : List UInt8 :=
  ss.flatMap fun s => encodeVarint32 (ofNat s.length)

def size32 (s : List UInt8) : UInt32 := ofNat s.length

section Strings

variable {n : Nat} {data : List.Vector (List UInt8) n}

theorem getSizes_encode (h : ∀ s ∈ data.toList, s.length < 2 ^ 32) (rest : List UInt8) :
    getSizes n (sizeBytes data.toList ++ rest) = some (data.map size32, rest) := by
  induction data using Vector.inductionOn with
  | nil => rfl
  | cons ih =>
    rw [Vector.toList_cons, forall_mem_cons] at h
    rw [getSizes, Vector.toList_cons, sizeBytes, flatMap_cons, append_assoc,
      getVarint32_encode h.1]
    simp only [bind_eq_bind, bind_some]
    rw [← sizeBytes, ih h.2]
    rfl

variable {ss : List (List UInt8)}

theorem sum_sizes (h : ∀ s ∈ ss, s.length < 2 ^ 32) :
    ((ss.map size32).map toNat).sum = ss.flatten.length := by
  induction ss with
  | nil => rfl
  | cons s ss ih =>
    rw [forall_mem_cons] at h
    have hValue : (size32 s).toNat = s.length := toNat_ofNat_of_lt' h.1
    rw [map_cons, map_cons, sum_cons, ih h.2, hValue, flatten_cons, length_append]

theorem length_flatten_le (h : ∀ s ∈ ss, s.length < 2 ^ 32) :
    ss.flatten.length ≤ (2 ^ 32 - 1) * ss.length := by
  induction ss with
  | nil => exact le_refl 0
  | cons s ss ih =>
    rw [forall_mem_cons] at h
    have hRest := ih h.2
    rw [flatten_cons, length_append, length_cons]
    omega

theorem total_eq (h : ∀ s ∈ data.toList, s.length < 2 ^ 32) (hFew : n < 2 ^ 31) :
    total (data.map size32) = data.toList.flatten.length := by
  have hLength := length_flatten_le h
  have hSum := sum_sizes h
  rw [Vector.toList_length] at hLength
  unfold total
  rw [List.Vector.toList_map, hSum]
  exact Int.bmod_eq_of_le (by omega) (by omega)

theorem assignStrings_flatten (h : ∀ s ∈ data.toList, s.length < 2 ^ 32) :
    assignStrings n (data.map size32) data.toList.flatten = some data := by
  induction data using Vector.inductionOn with
  | nil => rfl
  | @cons n s data ih =>
    rw [Vector.toList_cons, forall_mem_cons] at h
    have hSize : (size32 s).toNat = s.length := toNat_ofNat_of_lt' h.1
    rw [assignStrings, Vector.map_cons, Vector.head_cons, Vector.tail_cons, hSize,
      Vector.toList_cons, flatten_cons, if_neg (by simp), drop_left' rfl,
      take_left' rfl, ih h.2]
    rfl

theorem sizeBytes_append_ne_nil (hn : 0 < n) (rest : List UInt8) :
    sizeBytes data.toList ++ rest ≠ [] := by
  apply append_ne_nil_of_left_ne_nil
  cases data using Vector.inductionOn with
  | nil => exact absurd hn (lt_irrefl 0)
  | cons ih =>
    rw [Vector.toList_cons, sizeBytes, flatMap_cons, encodeVarint32_eq]
    exact append_ne_nil_of_left_ne_nil (writeVarint_ne_nil _) _

theorem encodeStringList_eq (hFew : n < 2 ^ 31) :
    encodeStringList data.toList = .ok (sizeBytes data.toList ++ data.toList.flatten) := by
  rw [encodeStringList, Vector.toList_length, if_pos hFew]
  rfl

theorem stringHelper_readsBack (hFew : n < 2 ^ 31) (h : ∀ s ∈ data.toList, s.length < 2 ^ 32) :
    ContentReadsBack stringHelper data := by
  have hDecode : decodeStringList (sizeBytes data.toList ++ data.toList.flatten) n =
      some data := by
    rw [decodeStringList, getSizes_encode h, bind_eq_bind, bind_some]
    simp only [total_eq h hFew, ne_eq]
    exact assignStrings_flatten h
  refine ⟨_, encodeStringList_eq hFew, fun hn => ⟨sizeBytes_append_ne_nil hn _, ?_⟩⟩
  simp only [stringHelper, if_true, hDecode]

end Strings

section Handles

variable (handles : HandleMessages ρ) {n : Nat} {data : List.Vector ρ n}

theorem parseHandles_flatten :
    parseHandles handles n ((data.map handles.serialize).map size32)
      (data.map handles.serialize).toList.flatten = .ok (some data) := by
  induction data using Vector.inductionOn with
  | nil => rfl
  | @cons n handle data ih =>
    have hSmall := handles.length_lt handle
    have hSize : (size32 (handles.serialize handle)).toNat =
        (handles.serialize handle).length :=
      toNat_ofNat_of_lt' (lt_trans hSmall (by decide))
    have hFits : ¬ ((handles.serialize handle ++
        (data.map handles.serialize).toList.flatten).length < (handles.serialize handle).length ∨
          2 ^ 31 ≤ (handles.serialize handle).length) := by
      rw [length_append]
      omega
    rw [parseHandles, Vector.map_cons, Vector.map_cons, Vector.head_cons,
      Vector.tail_cons, hSize, Vector.toList_cons, flatten_cons, if_neg hFits,
      take_left' rfl, handles.parse_serialize, drop_left' rfl]
    simp only [ih]
    rfl

theorem resourceHelper_readsBack (hFew : n < 2 ^ 31) :
    ContentReadsBack (resourceHelper handles) data := by
  have h : ∀ s ∈ (data.map handles.serialize).toList, s.length < 2 ^ 32 := by
    intro s hMem
    obtain ⟨handle, -, rfl⟩ := mem_map.mp hMem
    exact lt_trans (handles.length_lt handle) (by decide)
  have hEncode : encodeResourceHandleList handles data.toList =
      .ok (sizeBytes (data.map handles.serialize).toList ++
        (data.map handles.serialize).toList.flatten) := by
    rw [encodeResourceHandleList, ← List.Vector.toList_map, encodeStringList_eq hFew]
  have hDecode : decodeResourceHandleList handles
      (sizeBytes (data.map handles.serialize).toList ++
        (data.map handles.serialize).toList.flatten) n = .ok (some data) := by
    rw [decodeResourceHandleList, getSizes_encode h]
    simp only [total_eq h hFew, ne_eq]
    rw [if_pos hFew]
    exact parseHandles_flatten handles
  refine ⟨_, hEncode, fun hn => ⟨sizeBytes_append_ne_nil hn _, ?_⟩⟩
  simp only [resourceHelper, if_true, hDecode]

end Handles

def FieldReadsBack (helper : ProtoHelper ρ T) (default : T) {n : Nat} (data : List.Vector T n)
    (proto : TensorProto ρ) : Prop :=
  ∃ proto', helper.fill data.toList proto = .ok proto' ∧
    (0 < n → fromProtoField helper default true proto' n = .ok (some data))

variable {values : List T} {n : Nat} {data : List.Vector T n} {default : T} {proto : TensorProto ρ}
variable {field : RepeatedField ρ F} {toField : T → F} {ofField : F → T}

theorem copyN_eq_ok :
    (copyN values n).map some = .ok (some data) ↔ values.take n = data.toList := by
  rw [copyN]
  split
  · constructor
    · intro h
      have hData := some.inj (ok.inj h)
      rw [← hData]
      rfl
    · intro h
      have hData : (⟨values.take n, length_take_of_le ‹_›⟩ : List.Vector T n) = data :=
        Subtype.ext h
      rw [hData]
      rfl
  · rename_i hShort
    constructor
    · intro h
      cases h
    · intro h
      have hLength := congrArg length h
      rw [length_take, Vector.toList_length] at hLength
      omega

variable {helper : ProtoHelper ρ T}

theorem fromProtoField_eq (hn : 0 < n) (hBegin : helper.begin proto = .ok values)
    (hNum : helper.numElements proto = n) :
    fromProtoField helper default true proto n = (copyN values n).map some := by
  rw [fromProtoField, if_neg (pos_iff_ne_zero.mp hn), hBegin]
  simp only [bind, Except.bind, hNum, le_refl]
  cases copyN values n <;> rfl

theorem fieldReadsBack_iff {copy : List F}
    (hFill : helper.fill data.toList proto = field.swap copy proto)
    (hBegin : 0 < n → helper.begin (field.setVal proto copy) = .ok values)
    (hNum : helper.numElements (field.setVal proto copy) = n) :
    FieldReadsBack helper default data proto ↔
      copy.length < 2 ^ 31 ∧ (0 < n → values.take n = data.toList) := by
  rw [FieldReadsBack, hFill, RepeatedField.swap]
  split
  · rename_i hFits
    constructor
    · rintro ⟨_, hProto, hRead⟩
      obtain rfl := ok.inj hProto
      refine ⟨hFits, fun hn => ?_⟩
      have hSome := hRead hn
      rw [fromProtoField_eq hn (hBegin hn) hNum] at hSome
      exact copyN_eq_ok.mp hSome
    · rintro ⟨-, hTake⟩
      refine ⟨_, rfl, fun hn => ?_⟩
      rw [fromProtoField_eq hn (hBegin hn) hNum]
      exact copyN_eq_ok.mpr (hTake hn)
  · rename_i hFits
    constructor
    · rintro ⟨_, hProto, -⟩
      cases hProto
    · intro h
      exact absurd h.1 hFits

theorem swap_head {copy : List F} {proto' : TensorProto ρ}
    (h : field.swap copy proto = .ok proto') : SameHead proto proto' := by
  rw [RepeatedField.swap] at h
  split at h
  · rw [← ok.inj h]
    exact field.head _ _
  · cases h

/-- What holds of the templates for a type: a message keeps the arrays that `Kept` tells, as long
as their strings are short. -/
structure Sound (c : Case ρ T) (Short Kept : List T → Prop) : Prop where
  head : ∀ {data : List T} {proto proto' : TensorProto ρ},
    c.proto.fill data proto = .ok proto' → SameHead proto proto'
  content : ∀ {n : Nat} {data : List.Vector T n},
    Short data.toList → Kept data.toList → ContentReadsBack c.helper data
  field : ∀ {n : Nat} {data : List.Vector T n} {proto : TensorProto ρ},
    FieldReadsBack c.proto c.default data proto ↔ Kept data.toList

theorem protoTraits_field (hField : ∀ x, ofField (toField x) = x) :
    FieldReadsBack (protoTraits field toField ofField) default data proto ↔
      data.toList.length < 2 ^ 31 := by
  have hBegin : (protoTraits field toField ofField).begin
      (field.setVal proto (data.toList.map toField)) = .ok data.toList := by
    have hMap : ofField ∘ toField = id := funext hField
    simp only [protoTraits, field.val_setVal, List.map_map, hMap, List.map_id]
  have hNum : (protoTraits field toField ofField).numElements
      (field.setVal proto (data.toList.map toField)) = n := by
    simp only [protoTraits, field.val_setVal, length_map, Vector.toList_length]
  rw [fieldReadsBack_iff rfl (fun _ => hBegin) hNum, length_map]
  constructor
  · exact And.left
  · intro h
    refine ⟨h, fun _ => take_of_length_le ?_⟩
    rw [Vector.toList_length]

theorem protoTraits_sound {helper : Helper T} {Short : List T → Prop}
    (hContent : ∀ {n : Nat} {data : List.Vector T n}, Short data.toList → n < 2 ^ 31 →
      ContentReadsBack helper data)
    (field : RepeatedField ρ F)
    (hField : ∀ x, ofField (toField x) = x) (default : T) :
    Sound ⟨default, helper, protoTraits field toField ofField⟩ Short
      (fun data => data.length < 2 ^ 31) where
  head := swap_head
  content hShort hFew := by
    rw [Vector.toList_length] at hFew
    exact hContent hShort hFew
  field := protoTraits_field hField

theorem simple_sound (layout : Layout T) (field : RepeatedField ρ F)
    (hField : ∀ x, ofField (toField x) = x) (default : T) :
    Sound ⟨default, simpleHelper layout, protoTraits field toField ofField⟩ (fun _ => True)
      (fun data => data.length < 2 ^ 31) :=
  protoTraits_sound (fun _ _ => simpleHelper_readsBack layout _) field hField default

theorem pairs_flatMap (data : List (F × F)) : pairs (data.flatMap fun x => [x.1, x.2]) = data := by
  induction data with
  | nil => rfl
  | cons x data ih =>
    simp only [flatMap_cons, cons_append, nil_append, pairs, ih]

theorem length_flatMap_two {S : Type} (f g : S → F) (data : List S) :
    (data.flatMap fun x => [f x, g x]).length = data.length * 2 := by
  induction data with
  | nil => rfl
  | cons x data ih =>
    rw [flatMap_cons, length_append]
    simp only [length_cons, length_nil]
    omega

theorem complexTraits_sound (layout : Layout (F × F)) (field : RepeatedField ρ F)
    (default : F × F) :
    Sound ⟨default, simpleHelper layout, complexTraits field⟩ (fun _ => True)
      (fun data => data.length * 2 < 2 ^ 31) where
  head := swap_head
  content _ _ := simpleHelper_readsBack layout _
  field {n data proto} := by
    have hBegin : (complexTraits field).begin
        (field.setVal proto (data.toList.flatMap fun x => [x.1, x.2])) = .ok data.toList := by
      simp only [complexTraits, field.val_setVal, pairs_flatMap]
    have hNum : (complexTraits field).numElements
        (field.setVal proto (data.toList.flatMap fun x => [x.1, x.2])) = n := by
      simp only [complexTraits, field.val_setVal, length_flatMap_two, Vector.toList_length]
      omega
    rw [fieldReadsBack_iff rfl (fun _ => hBegin) hNum, length_flatMap_two]
    constructor
    · exact And.left
    · intro h
      refine ⟨h, fun _ => take_of_length_le ?_⟩
      rw [Vector.toList_length]

theorem string_sound :
    Sound (⟨[], stringHelper, stringProto⟩ : Case ρ (List UInt8))
      (fun data => ∀ s ∈ data, s.length < 2 ^ 32) (fun data => data.length < 2 ^ 31) := by
  have hContent : ∀ {n : Nat} {data : List.Vector (List UInt8) n},
      (∀ s ∈ data.toList, s.length < 2 ^ 32) → n < 2 ^ 31 → ContentReadsBack stringHelper data :=
    fun hShort hFew => stringHelper_readsBack hFew hShort
  exact protoTraits_sound hContent .string (fun _ => rfl) []

theorem resource_sound (handles : HandleMessages ρ) :
    Sound ⟨handles.empty, resourceHelper handles, resourceProto⟩ (fun _ => True)
      (fun data => data.length ≤ 1) where
  head := swap_head
  content _ hOne := by
    rw [Vector.toList_length] at hOne
    exact resourceHelper_readsBack handles (lt_of_le_of_lt hOne (by decide))
  field {n data proto} := by
    have hLength := data.toList_length
    have hBegin : 0 < n → resourceProto.begin
        (resourceHandle.setVal proto data.toList) = .ok (data.toList.take 1) := by
      intro hn
      cases hData : data.toList with
      | nil =>
        rw [hData, length_nil] at hLength
        omega
      | cons handle rest => rfl
    have hNum : resourceProto.numElements
        (resourceHandle.setVal proto data.toList) = n := hLength
    rw [fieldReadsBack_iff rfl hBegin hNum]
    constructor
    · rintro ⟨-, hTake⟩
      rcases Nat.eq_zero_or_pos n with hZero | hn
      · omega
      · have hFirst := congrArg length (hTake hn)
        rw [length_take, length_take] at hFirst
        omega
    · intro hOne
      refine ⟨lt_of_le_of_lt hOne (by decide), fun hn => ?_⟩
      rw [take_of_length_le hOne, take_of_length_le (by omega)]

def halves (xs : List UInt16) : List UInt16 := xs.flatMap fun x => [x, 0]

theorem halves_zero {xs : List UInt16} {m : Nat} (h : ∀ i < m, ∀ x, xs[i]? = some x → x = 0) :
    ∀ j < m, ∀ y, (halves xs)[j]? = some y → y = 0 := by
  induction xs generalizing m with
  | nil =>
    intro j _ y hy
    cases hy
  | cons x xs ih =>
    intro j hj y hy
    match j with
    | 0 => exact h 0 hj y hy
    | 1 => exact (some.inj hy).symm
    | j + 2 =>
      have hRest : ∀ i < m - 1, ∀ x, xs[i]? = some x → x = 0 := by
        intro i hi x hx
        exact h (i + 1) (by omega) x hx
      exact ih hRest j (by omega) y hy

theorem take_halves_iff (xs : List UInt16) :
    (halves xs).take xs.length = xs ↔ ∀ x ∈ xs.tail, x = 0 := by
  cases xs with
  | nil => simp [halves]
  | cons first rest =>
    have hTake : (halves (first :: rest)).take (first :: rest).length =
        first :: (0 :: halves rest).take rest.length := rfl
    rw [hTake, cons.injEq]
    constructor
    · rintro ⟨-, hRest⟩
      -- an element is the upper half of one before it, or the lower half of one before it
      have hZero : ∀ m ≤ rest.length, ∀ i < m, ∀ x, rest[i]? = some x → x = 0 := by
        intro m
        induction m with
        | zero => intro _ i hi; omega
        | succ m ih =>
          intro hm i hi x hx
          rcases Nat.lt_succ_iff_lt_or_eq.mp hi with hLess | rfl
          · exact ih (by omega) i hLess x hx
          · rw [← hRest, getElem?_take_of_lt (by omega)] at hx
            cases i with
            | zero => exact (some.inj hx).symm
            | succ i => exact halves_zero (ih (by omega)) i (lt_succ_self i) x hx
      intro x hMem
      obtain ⟨i, hi, rfl⟩ := getElem_of_mem hMem
      exact hZero rest.length le_rfl i hi _ (getElem?_eq_getElem hi)
    · intro hZero
      refine ⟨rfl, ?_⟩
      have hRest : rest = replicate rest.length 0 := eq_replicate_of_mem hZero
      have hHalves : ∀ k, halves (replicate k 0) = replicate (k * 2) 0 := by
        intro k
        induction k with
        | zero => rfl
        | succ k ih =>
          rw [replicate_succ, halves, flatMap_cons, ← halves, ih, succ_mul]
          rfl
      rw [hRest, hHalves, ← replicate_succ, take_replicate, length_replicate]
      congr 1
      omega

theorem toUInt16_toInt32 (x : UInt16) : x.toUInt32.toInt32.toUInt32.toUInt16 = x := by simp

theorem uint16_halves (x : UInt16) :
    [x.toUInt32.toInt32.toUInt32.toUInt16, (x.toUInt32.toInt32.toUInt32 >>> 16).toUInt16] =
      [x, 0] := by
  have hLow := toUInt16_toInt32 x
  have hHigh : (x.toUInt32.toInt32.toUInt32 >>> 16).toUInt16 = 0 := by
    have hLess := x.toNat_lt
    have h16 : (16 : UInt32).toNat % 32 = 16 := rfl
    apply UInt16.toNat_inj.mp
    rw [toUInt32_toInt32, toNat_toUInt16, UInt32.toNat_shiftRight, h16,
      UInt16.toNat_toUInt32, shiftRight_eq_div_pow, div_eq_of_lt hLess]
    rfl
  rw [hLow, hHigh]

theorem bfloat16_sound :
    Sound (⟨0, simpleHelper .uint16, bfloat16Proto⟩ : Case ρ UInt16) (fun _ => True)
      (fun data => data.length < 2 ^ 31 ∧ ∀ x ∈ data.tail, x = 0) where
  head := swap_head
  content _ _ := simpleHelper_readsBack Layout.uint16 _
  field {n data proto} := by
    have hLength := data.toList_length
    have hBegin : bfloat16Proto.begin (int.setVal proto
        (data.toList.map fun x => x.toUInt32.toInt32)) = .ok (halves data.toList) := by
      simp only [bfloat16Proto, int, flatMap_map, uint16_halves]
      rfl
    have hNum : bfloat16Proto.numElements (int.setVal proto
        (data.toList.map fun x => x.toUInt32.toInt32)) = n := by
      simp only [bfloat16Proto, int, length_map, hLength]
    rw [fieldReadsBack_iff rfl (fun _ => hBegin) hNum, length_map]
    have hTake := take_halves_iff data.toList
    rw [hLength] at hTake
    rw [hTake]
    constructor
    · rintro ⟨hFew, hZero⟩
      refine ⟨hFew, fun x hMem => hZero ?_ x hMem⟩
      have hPos := length_pos_of_mem (mem_of_mem_tail hMem)
      omega
    · rintro ⟨hFew, hZero⟩
      exact ⟨hFew, fun _ => hZero⟩

def Short : (type : TypeCode) → List (type.Elem ρ) → Prop
  | .ofType .string, data => ∀ s ∈ (data : List (List UInt8)), s.length < 2 ^ 32
  | _, _ => True

def Kept : (type : TypeCode) → List (type.Elem ρ) → Prop
  | .ofType .bfloat16, data =>
    data.length < 2 ^ 31 ∧ ∀ x ∈ (data : List UInt16).tail, x = (0 : UInt16)
  | .ofType .resource, data => data.length ≤ 1
  | .ofType .complex64, data => data.length * 2 < 2 ^ 31
  | .ofType .complex128, data => data.length * 2 < 2 ^ 31
  | _, data => data.length < 2 ^ 31

theorem toUInt8_toInt32 (x : UInt8) : x.toUInt32.toInt32.toUInt32.toUInt8 = x := by simp

variable {type : TypeCode}

theorem cases_sound (handles : HandleMessages ρ) {c : Case ρ (type.Elem ρ)}
    (h : cases handles type = some c) : Sound c (Short type) (Kept type) := by
  cases type with
  | other number => cases h
  | ofType dtype =>
    cases dtype with
    | invalid => cases h
    | float =>
      obtain rfl := some.inj h
      exact simple_sound .uint32 .float (fun _ => rfl) _
    | double =>
      obtain rfl := some.inj h
      exact simple_sound .uint64 .double (fun _ => rfl) _
    | int32 =>
      obtain rfl := some.inj h
      exact simple_sound .int32 .int (fun _ => rfl) _
    | uint8 =>
      obtain rfl := some.inj h
      exact simple_sound .uint8 .int toUInt8_toInt32 _
    | uint16 =>
      obtain rfl := some.inj h
      exact simple_sound .uint16 .int toUInt16_toInt32 _
    | int16 =>
      obtain rfl := some.inj h
      exact simple_sound .int16 .int Int16.toInt16_toInt32 _
    | int8 =>
      obtain rfl := some.inj h
      exact simple_sound .int8 .int Int8.toInt8_toInt32 _
    | string =>
      obtain rfl := some.inj h
      exact string_sound
    | complex64 =>
      obtain rfl := some.inj h
      exact complexTraits_sound (.pair .uint32) .scomplex _
    | complex128 =>
      obtain rfl := some.inj h
      exact complexTraits_sound (.pair .uint64) .dcomplex _
    | int64 =>
      obtain rfl := some.inj h
      exact simple_sound .int64 .int64 (fun _ => rfl) _
    | bool =>
      obtain rfl := some.inj h
      exact simple_sound .bool .bool (fun _ => rfl) _
    | qint32 =>
      obtain rfl := some.inj h
      exact simple_sound .int32 .int (fun _ => rfl) _
    | quint8 =>
      obtain rfl := some.inj h
      exact simple_sound .uint8 .int toUInt8_toInt32 _
    | qint8 =>
      obtain rfl := some.inj h
      exact simple_sound .int8 .int Int8.toInt8_toInt32 _
    | quint16 =>
      obtain rfl := some.inj h
      exact simple_sound .uint16 .int toUInt16_toInt32 _
    | qint16 =>
      obtain rfl := some.inj h
      exact simple_sound .int16 .int Int16.toInt16_toInt32 _
    | bfloat16 =>
      obtain rfl := some.inj h
      exact bfloat16_sound
    | half =>
      obtain rfl := some.inj h
      exact simple_sound .uint16 .half toUInt16_toInt32 _
    | resource =>
      obtain rfl := some.inj h
      exact resource_sound handles

structure Value (ρ : Type) where
  dtype : TypeCode
  dims : List Int64
  content : List (dtype.Elem ρ)

namespace Tensor

def content (t : Tensor ρ) : List (t.dtype.Elem ρ) :=
  match t.buf with
  | none => []
  | some buf => buf.toList

def value (t : Tensor ρ) : Value ρ := ⟨t.dtype, t.shape.dims, t.content⟩

end Tensor

variable (handles : HandleMessages ρ)

def ReadsBack (message : Except Failure (TensorProto ρ)) (t : Tensor ρ) : Prop :=
  ∃ proto, message = .ok proto ∧
    ∀ (a : Allocator), a t.dtype t.shape.count → ∀ old,
      ∃ t', fromProto handles a proto old = .ok (true, t') ∧ t'.value = t.value

def RoundTrips (t : Tensor ρ) : Prop :=
  ReadsBack handles (asProtoTensorContent handles t) t ∧
    ReadsBack handles (asProtoField handles t) t

theorem fits_of_addDims {n m : Int64} {dims : List Int64} (h : addDims n dims = some m) :
    fits n dims := by
  induction dims generalizing n with
  | nil => rfl
  | cons size rest ih =>
    rw [addDims] at h
    split at h
    · rename_i hChecks
      rw [fits, if_neg (Int64.not_lt.mpr hChecks.1), if_neg (Int64.not_lt.mpr hChecks.2.2)]
      exact ih h
    · cases h

theorem isValid_dims (shape : Shape) : isValid shape.dims := by
  rw [isValid, fits_of_addDims shape.added, Bool.and_true]
  exact decide_eq_true shape.rank_le

theorem ofProto_dims (shape : Shape) : Shape.ofProto shape.dims = .ok shape := by
  have hAdded := shape.added
  rw [Shape.ofProto]
  split
  · rename_i hNone
    rw [hAdded] at hNone
    cases hNone
  · rename_i numElements hSome
    rw [hAdded] at hSome
    obtain rfl := some.inj hSome
    rw [dif_pos shape.rank_le]

theorem number_of_cases (h : (cases handles type).isSome) :
    type.number ≠ 0 ∧ TypeCode.ofNumber type.number = type ∧
      TypeCode.ofNumber (type.number % 256) = type := by
  cases type with
  | other number => cases h
  | ofType dtype =>
    cases dtype with
    | invalid => cases h
    | _ => exact ⟨by decide, rfl, rfl⟩

section FromProto

variable {a : Allocator} {proto : TensorProto ρ} {type : TypeCode} {shape : Shape}

theorem fromProto_empty (hZero : proto.dtype ≠ 0)
    (hNumber : TypeCode.ofNumber (proto.dtype % 256) = type)
    (hShape : proto.tensorShape = shape.dims) (hCount : shape.count = 0) (old : Tensor ρ) :
    fromProto handles a proto old = .ok (true, ⟨type, shape, none⟩) := by
  subst hNumber
  rw [fromProto, hShape, if_neg (by simp [isValid_dims]), if_neg hZero, ofProto_dims]
  simp only [bind, Except.bind, hCount]
  rfl

theorem fromProto_eq (hZero : proto.dtype ≠ 0) (hNumber : TypeCode.ofNumber proto.dtype = type)
    {c : Case ρ (type.Elem ρ)} (hCase : cases handles type = some c)
    (hShape : proto.tensorShape = shape.dims) (hCount : 0 < shape.count) (old : Tensor ρ) :
    fromProto handles a proto old =
      ((if proto.tensorContent ≠ [] then
          c.helper.decode (a type shape.count) proto.tensorContent shape.count
        else fromProtoField c.proto c.default (a type shape.count) proto shape.count).map
          fun p => match p with
            | none => (false, old)
            | some buf => (true, ⟨type, shape, some buf⟩)) := by
  subst hNumber
  rw [fromProto, hShape, if_neg (by simp [isValid_dims]), if_neg hZero, ofProto_dims]
  simp only [bind, Except.bind, hCount, hCase]
  by_cases hContent : proto.tensorContent ≠ []
  · simp only [if_pos hContent]
    rcases c.helper.decode _ _ _ with _ | _ | _ <;> rfl
  · simp only [if_neg hContent]
    rcases fromProtoField _ _ _ _ _ with _ | _ | _ <;> rfl

end FromProto

structure HeadOf (t : Tensor ρ) (proto : TensorProto ρ) : Prop where
  dtype : proto.dtype = t.dtype.number
  tensorShape : proto.tensorShape = t.shape.dims

variable {t : Tensor ρ}

variable {proto : TensorProto ρ}

theorem readsBack_empty (hCase : (cases handles t.dtype).isSome)
    (hHead : HeadOf t proto) (hCount : t.shape.count = 0) (hContent : t.content = [])
    : ReadsBack handles (.ok proto) t := by
  obtain ⟨hZero, -, hByte⟩ := number_of_cases handles hCase
  rw [← hHead.dtype] at hZero hByte
  refine ⟨proto, rfl, fun a _ old => ?_⟩
  refine ⟨_, fromProto_empty handles hZero hByte hHead.tensorShape hCount old, ?_⟩
  rw [Tensor.value, Tensor.value, hContent]
  rfl

section Buffer

variable {type : TypeCode} {shape : Shape} {data : List.Vector (type.Elem ρ) shape.count}
  {c : Case ρ (type.Elem ρ)}

variable {proto : TensorProto ρ}

theorem readsBack_decode (hCase : cases handles type = some c)
    (hHead : HeadOf ⟨type, shape, some data⟩ proto)
    (hRead : 0 < shape.count → proto.tensorContent ≠ [] ∧
      c.helper.decode true proto.tensorContent shape.count = .ok (some data)) :
    ReadsBack handles (.ok proto) ⟨type, shape, some data⟩ := by
  have hSome : (cases handles type).isSome := by rw [hCase]; rfl
  rcases Nat.eq_zero_or_pos shape.count with hCount | hCount
  · apply readsBack_empty handles hSome hHead hCount
    apply eq_nil_of_length_eq_zero
    rw [← hCount]
    exact data.toList_length
  · obtain ⟨hZero, hNumber, -⟩ := number_of_cases handles hSome
    obtain ⟨hContent, hDecode⟩ := hRead hCount
    rw [← show proto.dtype = type.number from hHead.dtype] at hZero hNumber
    refine ⟨proto, rfl, fun a hMemory old => ⟨⟨type, shape, some data⟩, ?_, rfl⟩⟩
    rw [fromProto_eq handles hZero hNumber hCase hHead.tensorShape hCount, if_pos hContent,
      show a type shape.count from hMemory, hDecode]
    rfl

/-- A message without bytes is read from its repeated fields. -/
theorem readsBack_field (hCase : cases handles type = some c)
    (hHead : HeadOf ⟨type, shape, some data⟩ proto) (hContent : proto.tensorContent = []) :
    ReadsBack handles (.ok proto) ⟨type, shape, some data⟩ ↔
      (0 < shape.count →
        fromProtoField c.proto c.default true proto shape.count = .ok (some data)) := by
  have hSome : (cases handles type).isSome := by rw [hCase]; rfl
  obtain ⟨hZero, hNumber, -⟩ := number_of_cases handles hSome
  rw [← show proto.dtype = type.number from hHead.dtype] at hZero hNumber
  have hFrom : 0 < shape.count → ∀ a : Allocator, a type shape.count → ∀ old,
      fromProto handles a proto old =
        (fromProtoField c.proto c.default true proto shape.count).map
          fun p => match p with
            | none => (false, old)
            | some buf => (true, ⟨type, shape, some buf⟩) := by
    intro hCount a hMemory old
    rw [fromProto_eq handles hZero hNumber hCase hHead.tensorShape hCount, hMemory,
      if_neg (by simp [hContent])]
  constructor
  · rintro ⟨_, hOk, hReads⟩ hCount
    obtain rfl := ok.inj hOk
    obtain ⟨t', hT', hValue⟩ := hReads (fun _ _ => true) rfl ⟨type, shape, some data⟩
    rw [hFrom hCount _ rfl] at hT'
    cases hField : fromProtoField c.proto c.default true proto shape.count with
    | error failure =>
      rw [hField] at hT'
      cases hT'
    | ok p =>
      rw [hField] at hT'
      cases p with
      | none => cases ok.inj hT'
      | some buf =>
        have hTensor := (Prod.mk.inj (ok.inj hT')).2
        rw [← hTensor] at hValue
        have hList : buf.toList = data.toList := eq_of_heq (Value.mk.inj hValue).2.2
        have hBuf : buf = data := Subtype.ext hList
        rw [hBuf]
  · intro hField
    rcases Nat.eq_zero_or_pos shape.count with hCount | hCount
    · apply readsBack_empty handles hSome hHead hCount
      apply eq_nil_of_length_eq_zero
      rw [← hCount]
      exact data.toList_length
    · refine ⟨proto, rfl, fun a hMemory old => ⟨⟨type, shape, some data⟩, ?_, rfl⟩⟩
      rw [hFrom hCount a hMemory, hField hCount]
      rfl

end Buffer

theorem kept_nil (type : TypeCode) : Kept type ([] : List (type.Elem ρ)) := by
  cases type with
  | other number => exact Nat.two_pow_pos 31
  | ofType dtype => cases dtype <;> simp [Kept]

theorem not_readsBack_error {failure : Failure} :
    ¬ ReadsBack handles (.error failure) t := by
  rintro ⟨_, hOk, -⟩
  cases hOk

theorem content_of_none {shape : Shape}
    (hInit : (⟨type, shape, none⟩ : Tensor ρ).isInitialized) : shape.count = 0 := by
  simpa [Tensor.isInitialized] using hInit

section

variable (hCase : (cases handles t.dtype).isSome)

include hCase

theorem asProtoField_readsBack_iff
    (hInit : t.isInitialized) :
    ReadsBack handles (asProtoField handles t) t ↔ Kept t.dtype t.content := by
  obtain ⟨type, shape, buf⟩ := t
  cases buf with
  | none =>
    have hReads : ReadsBack handles (asProtoField handles ⟨type, shape, none⟩)
        ⟨type, shape, none⟩ :=
      readsBack_empty handles hCase ⟨rfl, rfl⟩ (content_of_none hInit) rfl
    exact ⟨fun _ => kept_nil type, fun _ => hReads⟩
  | some data =>
    obtain ⟨c, hSome⟩ := isSome_iff_exists.mp hCase
    have hSound := cases_sound handles hSome
    have hMessage : asProtoField handles ⟨type, shape, some data⟩ = c.proto.fill data.toList
        { TensorProto.clear with tensorShape := shape.dims, dtype := type.number } := by
      simp only [asProtoField, hSome]
    have hField : FieldReadsBack c.proto c.default data
        { TensorProto.clear with tensorShape := shape.dims, dtype := type.number } ↔
          Kept type data.toList := hSound.field
    rw [hMessage]
    change _ ↔ Kept type data.toList
    rw [← hField, FieldReadsBack]
    cases hFill : c.proto.fill data.toList
        { TensorProto.clear with tensorShape := shape.dims, dtype := type.number } with
    | error failure =>
      constructor
      · intro h
        exact absurd h (not_readsBack_error handles)
      · rintro ⟨_, hOk, -⟩
        cases hOk
    | ok proto =>
      have hHead := hSound.head hFill
      rw [readsBack_field handles hSome ⟨hHead.dtype, hHead.tensorShape⟩ hHead.tensorContent]
      constructor
      · intro h
        exact ⟨proto, rfl, h⟩
      · rintro ⟨_, hOk, h⟩
        obtain rfl := ok.inj hOk
        exact h

theorem asProtoTensorContent_readsBack
    (hInit : t.isInitialized) (hShort : Short t.dtype t.content) (hKept : Kept t.dtype t.content)
    : ReadsBack handles (asProtoTensorContent handles t) t := by
  obtain ⟨type, shape, buf⟩ := t
  cases buf with
  | none => exact readsBack_empty handles hCase ⟨rfl, rfl⟩ (content_of_none hInit) rfl
  | some data =>
    obtain ⟨c, hSome⟩ := isSome_iff_exists.mp hCase
    have hData : ContentReadsBack c.helper data :=
      (cases_sound handles hSome).content hShort hKept
    obtain ⟨content, hEncode, hDecode⟩ := hData
    have hMessage : asProtoTensorContent handles ⟨type, shape, some data⟩ =
        .ok { (TensorProto.clear : TensorProto ρ) with
          tensorShape := shape.dims, dtype := type.number, tensorContent := content } := by
      simp only [asProtoTensorContent, hSome, hEncode]
      rfl
    rw [hMessage]
    exact readsBack_decode handles hSome ⟨rfl, rfl⟩ hDecode

theorem roundTrips_iff (hInit : t.isInitialized)
    (hShort : Short t.dtype t.content) :
    RoundTrips handles t ↔ Kept t.dtype t.content := by
  have hField := asProtoField_readsBack_iff handles hCase hInit
  constructor
  · rintro ⟨-, hReads⟩
    exact hField.mp hReads
  · intro hKept
    exact ⟨asProtoTensorContent_readsBack handles hCase hInit hShort hKept, hField.mpr hKept⟩

end

theorem unchanged_of_refused {B : Type} {read : Except Failure (Option B)}
    {store : Option B → Except Failure (Bool × Tensor ρ)} {old old' : Tensor ρ}
    (hNone : store none = .ok (false, old)) (hSome : ∀ buf, ∃ t, store (some buf) = .ok (true, t))
    (h : read >>= store = .ok (false, old')) : old' = old := by
  obtain ⟨p, -, h⟩ := Fallible.bind_eq_ok.mp h
  cases p with
  | none =>
    rw [hNone] at h
    exact (Prod.mk.inj (ok.inj h)).2.symm
  | some buf =>
    obtain ⟨t, hStore⟩ := hSome buf
    rw [hStore] at h
    cases (Prod.mk.inj (ok.inj h)).1

theorem fromProto_unchanged {a : Allocator} {old old' : Tensor ρ}
    (h : fromProto handles a proto old = .ok (false, old')) : old' = old := by
  rw [fromProto] at h
  split at h
  · exact (Prod.mk.inj (ok.inj h)).2.symm
  · split at h
    · exact (Prod.mk.inj (ok.inj h)).2.symm
    · obtain ⟨shape, -, h⟩ := Fallible.bind_eq_ok.mp h
      split at h
      · simp only at h
        split at h
        · cases h
        · split at h
          · exact unchanged_of_refused rfl (fun _ => ⟨_, rfl⟩) h
          · exact unchanged_of_refused rfl (fun _ => ⟨_, rfl⟩) h
      · cases (Prod.mk.inj (ok.inj h)).1

/-- A tensor is found again in its messages exactly when its repeated field keeps it: handles one
at a time, and nothing of a `bfloat16` but the first. -/
theorem fromProto_roundTrip :
    (∀ t : Tensor ρ, (cases handles t.dtype).isSome → t.isInitialized →
      Short t.dtype t.content → (RoundTrips handles t ↔ Kept t.dtype t.content)) ∧
    ∀ (a : Allocator) (proto : TensorProto ρ) (old old' : Tensor ρ),
      fromProto handles a proto old = .ok (false, old') → old' = old :=
  ⟨fun _ hCase hInit hShort => roundTrips_iff handles hCase hInit hShort,
    fun _ _ _ _ h => fromProto_unchanged handles h⟩

def defaultHandle : HandleMessages Unit where
  empty := ()
  serialize _ := []
  parse bytes := if bytes = [] then some () else none
  length_lt _ := by decide
  parse_serialize _ := rfl

def pairShape : Shape where
  dims := [2]
  numElements := 2
  rank_le := by decide
  added := by decide

def twoStrings : Tensor Unit where
  dtype := .ofType .string
  shape := pairShape
  buf := some (⟨[[97], [98, 99]], rfl⟩ : List.Vector (List UInt8) 2)

theorem fromProto_roundTrip_twoStrings : RoundTrips defaultHandle twoStrings := by
  have hShort : ∀ s ∈ ([[97], [98, 99]] : List (List UInt8)), s.length < 2 ^ 32 := by decide
  have hKept : ([[97], [98, 99]] : List (List UInt8)).length < 2 ^ 31 := by decide
  exact ((fromProto_roundTrip defaultHandle).1 twoStrings rfl rfl hShort).mpr hKept

def twoBfloats : Tensor Unit where
  dtype := .ofType .bfloat16
  shape := pairShape
  buf := some (⟨[1, 2], rfl⟩ : List.Vector UInt16 2)

theorem twoBfloats_lost : (cases defaultHandle twoBfloats.dtype).isSome ∧
    twoBfloats.isInitialized ∧ Short twoBfloats.dtype twoBfloats.content ∧
      ¬ RoundTrips defaultHandle twoBfloats := by
  refine ⟨rfl, rfl, trivial, ?_⟩
  rintro ⟨-, hField⟩
  have hKept : ([1, 2] : List UInt16).length < 2 ^ 31 ∧
      ∀ x ∈ ([1, 2] : List UInt16).tail, x = 0 :=
    (asProtoField_readsBack_iff defaultHandle (t := twoBfloats) rfl rfl).mp hField
  exact absurd (hKept.2 2 (by decide)) (by decide)

end TensorFlowOnSpark.Framework.TensorCoding
