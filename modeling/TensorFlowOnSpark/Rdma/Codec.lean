import TensorFlowOnSpark.Rdma.Message
import TensorFlowOnSpark.Framework.TensorShapeDims

/-!
# Which messages survive the round trip

The fields of a message lie apart from each other, so they always survive.
-/

namespace TensorFlowOnSpark.Rdma.RdmaMessage

open Bytes Framework List RdmaMessageType Nat Option

theorem fieldWrites_bounds (rm : RdmaMessage) {w : Nat × List UInt8} (hw : w ∈ rm.fieldWrites) :
    kStepIdStartIndex ≤ w.1 ∧ w.1 + w.2.length ≤ kMessageTotalBytes := by
  cases ht : rm.type <;>
    simp [fieldWrites, ht, carriesRegion, carriesStepId, carriesTensor] at hw
  · rcases hw with rfl | rfl | rfl <;> simp
  · rcases hw with rfl | rfl | rfl <;> simp
  · subst hw
    simp
  · rcases hw with rfl | rfl | rfl | rfl | rfl <;> simp

theorem fieldWrites_disjoint (rm : RdmaMessage) :
    rm.fieldWrites.Pairwise fun w w' => w.1 + w.2.length ≤ w'.1 ∨ w'.1 + w'.2.length ≤ w.1 := by
  cases ht : rm.type <;>
    simp [fieldWrites, ht, carriesRegion, carriesStepId, carriesTensor]

structure Laid (rm : RdmaMessage) (bytes : List UInt8) : Prop where
  length : bytes.length = kMessageTotalBytes
  nameFits : kNameStartIndex + rm.name.length ≤ kMessageTotalBytes
  type : bytes.getD kTypeStartIndex 0 = rm.type.code
  nameSize : slice bytes kNameSizeStartIndex 2 = encodeLE 2 rm.nameSize.toNat
  field : ∀ w ∈ rm.fieldWrites, slice bytes w.1 w.2.length = w.2
  name : ∀ i < rm.name.length,
    (∀ w ∈ rm.fieldWrites, kNameStartIndex + i < w.1 ∨ w.1 + w.2.length ≤ kNameStartIndex + i) →
    bytes[kNameStartIndex + i]? = rm.name[i]?

variable {rm : RdmaMessage}

theorem laid_of_createMessage {stack bytes : List UInt8}
    (hStack : stack.length = kMessageTotalBytes) (h : createMessage stack rm = some bytes) :
    Laid rm bytes := by
  have hLength := (length_of_writeAll h).trans hStack
  obtain ⟨head, hHead, hRest⟩ := writeAll_append.mp h
  have hHeadLength := (length_of_writeAll hHead).trans hStack
  rw [writeAll] at hRest
  split at hRest
  swap
  · cases hRest
  rename_i hFits
  have hUntouched : ∀ i < kNameStartIndex, bytes[i]? = head[i]? := by
    intro i hi
    rw [getElem?_writeAll_of_uncovered hRest, getElem?_writeAt hFits, if_neg (by omega)]
    intro w hw
    have hBounds := fieldWrites_bounds rm hw
    simp only [kStepIdStartIndex] at hi hBounds
    omega
  have hHeadDisjoint : rm.headWrites.Pairwise
      fun w w' => w.1 + w.2.length ≤ w'.1 ∨ w'.1 + w'.2.length ≤ w.1 := by
    simp [headWrites]
  refine ⟨hLength, by omega, ?_, ?_, ?_, ?_⟩
  · have hByte := getElem?_writeAll_of_mem hHead hHeadDisjoint
      (w := (kTypeStartIndex, [rm.type.code])) (by simp [headWrites]) (j := 0) (by simp)
    rw [getD_eq_getElem?_getD, hUntouched _ (by simp)]
    simpa using congrArg (Option.getD · 0) hByte
  · have hSlice := slice_writeAll_of_mem hHead hHeadDisjoint
      (w := (kNameSizeStartIndex, encodeLE 2 rm.nameSize.toNat)) (by simp [headWrites])
    simp only [length_encodeLE] at hSlice
    rw [← hSlice]
    apply ext_getElem?
    intro i
    rw [getElem?_slice, getElem?_slice]
    split
    · exact hUntouched _ (by simp; omega)
    · rfl
  · intro w hw
    exact slice_writeAll_of_mem hRest (fieldWrites_disjoint rm) hw
  · intro i hi hUncovered
    rw [getElem?_writeAll_of_uncovered hRest hUncovered, getElem?_writeAt hFits, if_pos (by omega)]
    congr 1
    omega

variable {stack : List UInt8}

theorem createMessage_isSome (hStack : stack.length = kMessageTotalBytes)
    (hName : kNameStartIndex + rm.name.length ≤ kMessageTotalBytes) :
    ∃ bytes, createMessage stack rm = some bytes := by
  apply writeAll_isSome
  intro w hw
  rw [hStack]
  rcases mem_append.mp hw with hw | hw
  · simp only [headWrites, mem_cons, not_mem_nil, or_false] at hw
    rcases hw with rfl | rfl <;> simp
  · rcases mem_cons.mp hw with rfl | hw
    · exact hName
    · exact (fieldWrites_bounds rm hw).2

/-- The senders set `name_size_` to the length of the name. -/
def Built (rm : RdmaMessage) : Prop := rm.nameSize = UInt16.ofNat rm.name.length

structure Restored (rm rm' : RdmaMessage) : Prop where
  type : rm'.type = rm.type
  name : rm'.name = rm.name
  region : rm.type.carriesRegion →
    rm'.bufferSize = rm.bufferSize ∧ rm'.remoteAddr = rm.remoteAddr ∧ rm'.rkey = rm.rkey
  stepId : rm.type.carriesStepId → rm'.stepId = rm.stepId
  tensor : rm.type.carriesTensor → rm'.isDead = rm.isDead ∧ rm'.dataType = rm.dataType ∧
    rm'.tensorShape = rm.tensorShape ∧ rm'.tensorBytes = rm.tensorBytes

def RoundTrips (stack : List UInt8) (rm rm₀ : RdmaMessage) : Prop :=
  ∃ bytes rm', createMessage stack rm = some bytes ∧ parseMessage rm₀ bytes = some rm' ∧
    Restored rm rm'

def NameSurvives (rm : RdmaMessage) : Prop :=
  kNameStartIndex + rm.name.length ≤ kMessageTotalBytes ∧
  ∀ w ∈ rm.fieldWrites, ∀ j < w.2.length, w.1 + j < kNameStartIndex + rm.name.length →
    rm.name[w.1 + j - kNameStartIndex]? = w.2[j]?

theorem nameSurvives_of_le_capacity (h : rm.name.length ≤ kNameCapacity) :
    NameSurvives rm := by
  refine ⟨by simp at h ⊢; omega, ?_⟩
  intro w hw j hj hLt
  have hBounds := fieldWrites_bounds rm hw
  simp only [kStepIdStartIndex] at hBounds hLt
  omega

section Parse

variable {rm rm₀ rm' : RdmaMessage} {bytes : List UInt8}

theorem nameSize_toNat (hBuilt : rm.Built) (hLaid : Laid rm bytes) :
    (UInt16.ofNat (decodeLE (slice bytes kNameSizeStartIndex 2))).toNat = rm.name.length := by
  have hFits : 6 + rm.name.length ≤ 583 := hLaid.nameFits
  rw [hLaid.nameSize, ofNat_decodeLE_uint16, hBuilt]
  exact mod_eq_of_lt (by omega)

theorem parseMessage_name (hBuilt : rm.Built) (hLaid : Laid rm bytes)
    (h : parseMessage rm₀ bytes = some rm') :
    rm'.name = slice bytes kNameStartIndex rm.name.length := by
  rw [parseMessage, if_pos hLaid.length.ge, hLaid.type, ofCode_code] at h
  simp only [nameSize_toNat hBuilt hLaid] at h
  rw [if_pos (by rw [hLaid.length]; exact hLaid.nameFits)] at h
  cases h
  rfl

theorem nameSurvives_of_name_eq (hLaid : Laid rm bytes)
    (hName : slice bytes kNameStartIndex rm.name.length = rm.name) : NameSurvives rm := by
  refine ⟨hLaid.nameFits, ?_⟩
  intro w hw j hj hLt
  have hBounds := fieldWrites_bounds rm hw
  have hStart : kNameStartIndex ≤ w.1 + j := by
    simp only [kStepIdStartIndex] at hBounds
    omega
  have hField := congrArg (·[j]?) (hLaid.field w hw)
  have hByte := congrArg (·[w.1 + j - kNameStartIndex]?) hName
  simp only [getElem?_slice] at hField hByte
  rw [if_pos hj] at hField
  rw [if_pos (by omega), Nat.add_sub_cancel' hStart] at hByte
  rw [← hByte, hField]

theorem name_eq_of_nameSurvives (hLaid : Laid rm bytes) (h : NameSurvives rm) :
    slice bytes kNameStartIndex rm.name.length = rm.name := by
  apply ext_getElem?
  intro i
  rw [getElem?_slice]
  split
  swap
  · exact (getElem?_eq_none (by omega)).symm
  rename_i hi
  by_cases hCovered : ∃ w ∈ rm.fieldWrites,
      w.1 ≤ kNameStartIndex + i ∧ kNameStartIndex + i < w.1 + w.2.length
  · obtain ⟨w, hw, hLe, hLt⟩ := hCovered
    have hField := congrArg (·[kNameStartIndex + i - w.1]?) (hLaid.field w hw)
    simp only [getElem?_slice] at hField
    rw [if_pos (by omega), Nat.add_sub_cancel' hLe] at hField
    have hSame := h.2 w hw (kNameStartIndex + i - w.1) (by omega) (by omega)
    rw [Nat.add_sub_cancel' hLe, Nat.add_sub_cancel_left] at hSame
    rw [hField, hSame]
  · apply hLaid.name i hi
    intro w hw
    by_contra hNot
    exact hCovered ⟨w, hw, by omega, by omega⟩

theorem restored_of_name (rm₀ : RdmaMessage) (hBuilt : rm.Built) (hLaid : Laid rm bytes)
    (hName : slice bytes kNameStartIndex rm.name.length = rm.name) :
    ∃ rm', parseMessage rm₀ bytes = some rm' ∧ Restored rm rm' := by
  rw [parseMessage, if_pos hLaid.length.ge, hLaid.type, ofCode_code]
  simp only [nameSize_toNat hBuilt hLaid]
  rw [if_pos (by rw [hLaid.length]; exact hLaid.nameFits)]
  refine ⟨_, rfl, rfl, hName, ?_, ?_, ?_⟩
  · intro ht
    have hField := fun w (hw : w ∈ _) => hLaid.field w
      (mem_append_left _ (mem_append_left _ (by rw [if_pos ht]; exact hw)))
    have hSize := hField (kBufferSizeStartIndex, encodeLE 8 rm.bufferSize.toNat) (by simp)
    have hAddr := hField (kRemoteAddrStartIndex, encodeLE 8 rm.remoteAddr.toNat) (by simp)
    have hKey := hField (kRkeyStartIndex, encodeLE 4 rm.rkey.toNat) (by simp)
    simp only [length_encodeLE] at hSize hAddr hKey
    simp only [ht, if_true, hSize, hAddr, hKey, ofNat_decodeLE_uint64, ofNat_decodeLE_uint32,
      and_self]
  · intro ht
    have hStep := hLaid.field (kStepIdStartIndex, encodeLE 8 rm.stepId.toUInt64.toNat)
      (mem_append_left _ (mem_append_right _ (by rw [if_pos ht]; simp)))
    simp only [length_encodeLE] at hStep
    simp only [ht, if_true, hStep, ofNat_decodeLE_uint64, Int64.toInt64_toUInt64]
  · intro ht
    have hField := fun w (hw : w ∈ _) => hLaid.field w
      (mem_append_right _ (by rw [if_pos ht]; exact hw))
    have hDead := hField (kIsDeadStartIndex, [if rm.isDead then 1 else 0]) (by simp)
    have hData := hField (kDataTypeStartIndex, encodeLE 4 rm.dataType.toUInt32.toNat) (by simp)
    have hShape := hField (kTensorShapeStartIndex, rm.tensorShape.toBytes) (by simp)
    have hBytes := hField (kTensorBytesStartIndex, encodeLE 8 rm.tensorBytes.toNat) (by simp)
    simp only [length_encodeLE, TensorShape.length_toBytes, length_singleton]
      at hDead hData hShape hBytes
    have hDead' : bytes.getD kIsDeadStartIndex 0 = if rm.isDead then 1 else 0 := by
      have hByte := congrArg (·[0]?) hDead
      simp only [getElem?_slice] at hByte
      rw [if_pos (by decide), add_zero] at hByte
      rw [getD_eq_getElem?_getD, hByte]
      rfl
    simp only [ht, if_true, hDead', hData, hShape, hBytes, ofNat_decodeLE_uint64,
      ofNat_decodeLE_uint32, Int32.toInt32_toUInt32, TensorShape.ofBytes_toBytes, and_true]
    cases rm.isDead <;> rfl

theorem nameSurvives_of_roundTrips (hStack : stack.length = kMessageTotalBytes) (hBuilt : rm.Built)
    (h : RoundTrips stack rm rm₀) : NameSurvives rm := by
  obtain ⟨bytes, rm', hCreate, hParse, hRestored⟩ := h
  have hLaid := laid_of_createMessage hStack hCreate
  apply nameSurvives_of_name_eq hLaid
  rw [← parseMessage_name hBuilt hLaid hParse, hRestored.name]

theorem roundTrips_of_nameSurvives (hStack : stack.length = kMessageTotalBytes) (hBuilt : rm.Built)
    (h : NameSurvives rm) : RoundTrips stack rm rm₀ := by
  obtain ⟨bytes, hCreate⟩ := createMessage_isSome hStack h.1
  have hLaid := laid_of_createMessage hStack hCreate
  obtain ⟨rm', hParse, hRestored⟩ :=
    restored_of_name rm₀ hBuilt hLaid (name_eq_of_nameSurvives hLaid h)
  exact ⟨bytes, rm', hCreate, hParse, hRestored⟩

/-- The round trip works exactly for the names that end inside the array and agree with every field
written over them; `nameSurvives_of_le_capacity` gives the names that fit their slot. -/
theorem roundTrips_iff_nameSurvives (stack : List UInt8) (rm rm₀ : RdmaMessage)
    (hStack : stack.length = kMessageTotalBytes) (hBuilt : rm.Built) :
    RoundTrips stack rm rm₀ ↔ NameSurvives rm :=
  ⟨nameSurvives_of_roundTrips hStack hBuilt, roundTrips_of_nameSurvives hStack hBuilt⟩

end Parse

def requestNamed (name : List UInt8) : RdmaMessage where
  type := .tensorRequest
  nameSize := UInt16.ofNat name.length
  name := name
  stepId := 1
  bufferSize := 0
  remoteAddr := 0
  rkey := 0
  isDead := false
  dataType := 0
  tensorShape := TensorShape.ofBytes []
  tensorBytes := 0

theorem requestNamed_round_trips_with_full_slot :
    RoundTrips (replicate kMessageTotalBytes 0) (requestNamed (replicate 512 97))
      (requestNamed []) :=
  (roundTrips_iff_nameSurvives _ (requestNamed (replicate 512 97)) _ length_replicate
    rfl).mpr (nameSurvives_of_le_capacity length_replicate.le)

theorem requestNamed_overwritten {name : List UInt8} (hLength : kNameCapacity < name.length)
    (h : NameSurvives (requestNamed name)) : name[kNameCapacity]? = some 1 := by
  have hStep : (kStepIdStartIndex, encodeLE 8 1) ∈ (requestNamed name).fieldWrites := by
    apply mem_append_left
    apply mem_append_right
    exact mem_singleton.mpr rfl
  have hByte := h.2 _ hStep 0 (by simp) (by
    change kStepIdStartIndex + 0 < kNameStartIndex + name.length
    simp only [kStepIdStartIndex]
    omega)
  exact hByte

/-- A rendezvous key of 513 bytes: the last one is overwritten with the low byte of the step id. -/
theorem long_name_does_not_round_trip :
    ¬ ∀ (stack : List UInt8) (rm rm₀ : RdmaMessage), stack.length = kMessageTotalBytes → rm.Built →
      RoundTrips stack rm rm₀ := by
  intro h
  have hBuilt : (requestNamed (replicate 513 97)).Built := rfl
  have hTrip := h (replicate kMessageTotalBytes 0) (requestNamed (replicate 513 97))
    (requestNamed []) length_replicate hBuilt
  have hByte := requestNamed_overwritten (by rw [length_replicate]; decide)
    (nameSurvives_of_roundTrips length_replicate hBuilt hTrip)
  rw [getElem?_replicate] at hByte
  exact absurd hByte (by decide)

open TensorShape

theorem parseMessage_tensorShape {bytes : List UInt8} (rm₀ : RdmaMessage)
    (hBuilt : rm.Built) (hType : rm.type = .tensorWrite) (hLaid : Laid rm bytes) :
    ∃ rm', parseMessage rm₀ bytes = some rm' ∧ rm'.tensorShape = rm.tensorShape := by
  have hTensor : rm.type.carriesTensor := by rw [hType]; rfl
  have hShape := hLaid.field (kTensorShapeStartIndex, rm.tensorShape.toBytes)
    (mem_append_right _ (by rw [if_pos hTensor]; simp))
  simp only [length_toBytes] at hShape
  rw [parseMessage, if_pos hLaid.length.ge, hLaid.type, ofCode_code]
  simp only [nameSize_toNat hBuilt hLaid]
  rw [if_pos (by rw [hLaid.length]; exact hLaid.nameFits)]
  refine ⟨_, rfl, ?_⟩
  simp only [hTensor, if_true, hShape, ofBytes_toBytes]

/-- The receiving process has, at the address the shape holds, a vector that starts with `dims`. -/
def SameVectorAt (receiver : Heap) (s : TensorShape) (dims : List Int64) : Prop :=
  ∃ vals, receiver s.pointer = some vals ∧ s.ndims ≤ vals.length ∧ vals.take s.ndims = dims

theorem dimSizes_other_heap_iff {sender : Heap} (receiver : Heap) {s : TensorShape}
    {dims : List Int64} (h : s.dimSizes sender = some dims) :
    s.dimSizes receiver = some dims ↔
      (s.tag = rep16 ∨ s.tag = rep32) ∨ SameVectorAt receiver s dims := by
  by_cases hInline : s.tag = rep16 ∨ s.tag = rep32
  · have hSame : s.dimSizes receiver = s.dimSizes sender := by
      rw [dimSizes, dimSizes]
      rcases hInline with hTag | hTag
      · rw [if_pos hTag, if_pos hTag]
      · have h16 : s.tag ≠ rep16 := by rw [hTag]; decide
        simp only [if_pos hTag]
    exact ⟨fun _ => .inl hInline, fun _ => hSame.trans h⟩
  · obtain ⟨h16, h32⟩ := not_or.mp hInline
    rw [dimSizes, if_neg h16, if_neg h32, SameVectorAt]
    simp only [h16, h32]
    cases receiver s.pointer with
    | none => simp
    | some vals =>
      split
      · rename_i hLength
        simp [hLength]
      · rename_i hLength
        simp [hLength]

/-- The parsed shape denotes the sender's dimensions exactly when the sender held them inline, or
the receiver happens to have the same vector at the same address. A shape that `AddDim` built from
the empty one is inline exactly for the lists of `Inline`. -/
theorem tensorShape_denotes_iff (stack bytes : List UInt8) (rm rm₀ : RdmaMessage)
    (hStack : stack.length = kMessageTotalBytes) (hBuilt : rm.Built)
    (hType : rm.type = .tensorWrite) (hCreate : createMessage stack rm = some bytes) :
    ∃ rm', parseMessage rm₀ bytes = some rm' ∧
      (∀ (sender receiver : Heap) (dims : List Int64), rm.tensorShape.dimSizes sender = some dims →
        (rm'.tensorShape.dimSizes receiver = some dims ↔
          (rm.tensorShape.tag = rep16 ∨ rm.tensorShape.tag = rep32) ∨
            SameVectorAt receiver rm.tensorShape dims)) ∧
      ∀ (fresh : UInt64) (heap sender : Heap) (raw : TensorShape) (dims : List Int64),
        addDims fresh heap raw.empty dims = some (sender, rm.tensorShape) →
        rm.tensorShape.dimSizes sender = some dims ∧
          (rm.tensorShape.tag = rep16 ∨ rm.tensorShape.tag = rep32 ↔ Inline dims) := by
  obtain ⟨rm', hParse, hShape⟩ :=
    parseMessage_tensorShape rm₀ hBuilt hType (laid_of_createMessage hStack hCreate)
  refine ⟨rm', hParse, ?_, ?_⟩
  · intro sender receiver dims hDims
    rw [hShape]
    exact dimSizes_other_heap_iff receiver hDims
  · intro fresh heap sender raw dims hAdd
    have hRep := addDims_represents (represents_empty heap raw) hAdd
    exact ⟨hRep.layout.dimSizes_eq, hRep.tag_inline_iff⟩

def writeWithShape (s : TensorShape) : RdmaMessage :=
  { requestNamed [] with type := .tensorWrite, tensorShape := s }

theorem writeWithShape_created (s : TensorShape) :
    ∃ bytes, createMessage (replicate kMessageTotalBytes 0) (writeWithShape s) = some bytes :=
  createMessage_isSome length_replicate (by simp [writeWithShape, requestNamed])

def emptyHeap : Heap := fun _ => none

def zeroShape : TensorShape := (ofBytes []).empty

theorem matrix_shape_denotes_same :
    ∃ (sender : Heap) (s : TensorShape) (bytes : List UInt8) (rm' : RdmaMessage),
      addDims 4096 emptyHeap zeroShape [3, 2] = some (sender, s) ∧
      createMessage (replicate kMessageTotalBytes 0) (writeWithShape s) = some bytes ∧
      parseMessage (requestNamed []) bytes = some rm' ∧
      rm'.tensorShape.dimSizes emptyHeap = some [3, 2] := by
  have hSome : (addDims 4096 emptyHeap zeroShape [3, 2]).isSome := by decide
  obtain ⟨⟨sender, s⟩, hAdd⟩ := isSome_iff_exists.mp hSome
  obtain ⟨bytes, hCreate⟩ := writeWithShape_created s
  obtain ⟨rm', hParse, hDenotes, hInline⟩ := tensorShape_denotes_iff _ bytes (writeWithShape s)
    (requestNamed []) length_replicate rfl rfl hCreate
  obtain ⟨hDims, hTag⟩ := hInline 4096 emptyHeap sender (ofBytes []) [3, 2] hAdd
  have hSmall : ∀ d ∈ ([3, 2] : List Int64), d < maxRep16 := by
    rintro d hd
    simp only [mem_cons, not_mem_nil, or_false] at hd
    obtain rfl | rfl := hd <;> rfl
  have hShort : Inline [3, 2] := .inl ⟨by decide, hSmall⟩
  exact ⟨sender, s, bytes, rm', hAdd, hCreate, hParse,
    (hDenotes sender emptyHeap [3, 2] hDims).mpr (.inl (hTag.mpr hShort))⟩

/-- Seven dimensions of size one, received by a process with nothing at the sender's address. -/
theorem seven_dimensions_are_lost :
    ¬ ∀ (stack bytes : List UInt8) (rm rm₀ rm' : RdmaMessage) (fresh : UInt64)
        (heap sender receiver : Heap) (raw : TensorShape) (dims : List Int64),
      stack.length = kMessageTotalBytes → rm.Built → rm.type = .tensorWrite →
      createMessage stack rm = some bytes → parseMessage rm₀ bytes = some rm' →
      addDims fresh heap raw.empty dims = some (sender, rm.tensorShape) →
      rm'.tensorShape.dimSizes receiver = some dims := by
  intro h
  have hSome : (addDims 4096 emptyHeap zeroShape [1, 1, 1, 1, 1, 1, 1]).isSome := by decide
  obtain ⟨⟨sender, s⟩, hAdd⟩ := isSome_iff_exists.mp hSome
  obtain ⟨bytes, hCreate⟩ := writeWithShape_created s
  have hBuilt : (writeWithShape s).Built := rfl
  obtain ⟨rm', hParse, hShape⟩ := parseMessage_tensorShape (requestNamed []) hBuilt rfl
    (laid_of_createMessage length_replicate hCreate)
  have hDims := h _ bytes (writeWithShape s) (requestNamed []) rm' 4096 emptyHeap sender emptyHeap
    (ofBytes []) [1, 1, 1, 1, 1, 1, 1] length_replicate hBuilt rfl hCreate hParse hAdd
  have hRep := addDims_represents (represents_empty emptyHeap (ofBytes [])) hAdd
  rw [hShape] at hDims
  rcases (dimSizes_other_heap_iff emptyHeap hRep.layout.dimSizes_eq).mp hDims with
    hTag | ⟨vals, hVals, _⟩
  · have hInline := hRep.tag_inline_iff.mp hTag
    rcases hInline with ⟨hLength, _⟩ | ⟨hLength, _⟩
    · exact absurd hLength (by decide)
    · exact absurd hLength (by decide)
  · cases hVals

end TensorFlowOnSpark.Rdma.RdmaMessage
