import TensorFlowOnSpark.Lib.CodedInputStream

/-!
# The parser of serialized examples

`util/example_proto_fast_parsing.cc` up to `ParseExample`.
-/

namespace TensorFlowOnSpark.Util

open Wire (CodedInputStream Reader)

abbrev Text := List UInt8

inductive DataType where
  | invalid
  | string
  | float
  | int64
  | other (name : Text)
deriving DecidableEq

inductive Value where
  | string (bytes : Text)
  | float (bits : UInt32)
  | int64 (n : Int64)
deriving DecidableEq

def kVarintTag (tag : UInt8) : UInt8 := (tag <<< 3) ||| 0

def kDelimitedTag (tag : UInt8) : UInt8 := (tag <<< 3) ||| 2

def kFixed32Tag (tag : UInt8) : UInt8 := (tag <<< 3) ||| 5

section Peek

variable (io : Reader)

def peekTag (stream : io.Stream) : UInt8 :=
  match io.getDirectBufferPointer stream with
  | some (tag :: _) => tag
  | _ => 0

end Peek

namespace Parsed

/-- `parsed::Feature`: what is left of its serialized form. -/
structure Feature where
  serialized : Text
deriving DecidableEq

namespace Feature

/-- `none` is the error "Unsuported datatype." -/
def parseDataType (feature : Feature) : Option (DataType × Feature) :=
  match feature.serialized with
  | [] => some (.invalid, feature)
  | oneofTag :: rest =>
    if oneofTag = kDelimitedTag 1 then some (.string, ⟨rest⟩)
    else if oneofTag = kDelimitedTag 2 then some (.float, ⟨rest⟩)
    else if oneofTag = kDelimitedTag 3 then some (.int64, ⟨rest⟩)
    else none

section Lists

variable (io : Reader)

def bytesItem (stream : io.Stream) : Option (Value × io.Stream) := do
  let stream ← io.expectTag stream (kDelimitedTag 1)
  let (bytesLength, stream) ← io.readVarint32 stream
  let (bytes, stream) ← io.readString stream bytesLength
  return (.string bytes, stream)

/-- Every turn of the loops reads some of the array. -/
def parseBytesList (feature : Feature) : Option (List Value) := do
  let (length, stream) ← io.readVarint32 (io.ofArray feature.serialized)
  let (_, stream) := io.pushLimit stream length
  let (values, _) ← io.untilEnd (bytesItem io) feature.serialized.length stream
  return values

def floatItem (stream : io.Stream) : Option (Value × io.Stream) := do
  let (buffer32, stream) ← io.readLittleEndian32 stream
  return (.float buffer32, stream)

def int64Item (stream : io.Stream) : Option (Value × io.Stream) := do
  let (n, stream) ← io.readVarint64 stream
  return (.int64 n.toInt64, stream)

def taggedItem (tag : UInt8) (item : io.Stream → Option (Value × io.Stream))
    (stream : io.Stream) : Option (Value × io.Stream) := do
  let stream ← io.expectTag stream tag
  item stream

/-- The numbers up to the limit, packed or one by one. -/
def readNumbers (tag : UInt8) (item : io.Stream → Option (Value × io.Stream)) (fuel : Nat)
    (stream : io.Stream) : Option (List Value) :=
  if io.expectAtEnd stream then some []
  else
    let peeked := peekTag io stream
    if peeked ≠ kDelimitedTag 1 ∧ peeked ≠ tag then none
    else if peeked = kDelimitedTag 1 then do
      let stream ← io.expectTag stream (kDelimitedTag 1)
      let (packedLength, stream) ← io.readVarint32 stream
      let (_, stream) := io.pushLimit stream packedLength
      let (values, _) ← io.untilEnd item fuel stream
      return values
    else do
      let (values, _) ← io.untilEnd (taggedItem io tag item) fuel stream
      return values

/-- `ParseFloatList` and `ParseInt64List`, which differ in the tag and the reading of an item. -/
def parseNumbers (tag : UInt8) (item : io.Stream → Option (Value × io.Stream))
    (feature : Feature) : Option (List Value) := do
  let (length, stream) ← io.readVarint32 (io.ofArray feature.serialized)
  let (_, stream) := io.pushLimit stream length
  readNumbers io tag item feature.serialized.length stream

def parseFloatList : Feature → Option (List Value) :=
  parseNumbers io (kFixed32Tag 1) (floatItem io)

def parseInt64List : Feature → Option (List Value) :=
  parseNumbers io (kVarintTag 1) (int64Item io)

def parseList (feature : Feature) : DataType → Option (List Value)
  | .int64 => feature.parseInt64List io
  | .float => feature.parseFloatList io
  | .string => feature.parseBytesList io
  | _ => none

end Lists

end Feature

structure FeatureMapEntry where
  name : Text
  feature : Feature
deriving DecidableEq

end Parsed

open Parsed

section Parsing

variable (io : Reader)

def parseString (stream : io.Stream) : Option (Text × io.Stream) := do
  let (length, stream) ← io.readVarint32 stream
  if length = 0 then return ([], stream)
  let buffer ← io.getDirectBufferPointer stream
  if buffer.length < length.toNat then none
  else return (buffer.take length.toNat, io.skip stream length)

def parseFeatureMapEntry (stream : io.Stream) : Option (FeatureMapEntry × io.Stream) := do
  let (length, stream) ← io.readVarint32 stream
  let (limit, stream) := io.pushLimit stream length
  let stream ← io.expectTag stream (kDelimitedTag 1)
  let (name, stream) ← parseString io stream
  let stream ← io.expectTag stream (kDelimitedTag 2)
  let (feature, stream) ← parseString io stream
  if io.expectAtEnd stream then return (⟨name, ⟨feature⟩⟩, io.popLimit stream limit)
  else none

def featuresItem (stream : io.Stream) : Option (FeatureMapEntry × io.Stream) := do
  let stream ← io.expectTag stream (kDelimitedTag 1)
  parseFeatureMapEntry io stream

/-- The entries that `ParseFeatures` appends to the example. -/
def parseFeatures (fuel : Nat) (stream : io.Stream) :
    Option (List FeatureMapEntry × io.Stream) := do
  let (length, stream) ← io.readVarint32 stream
  let (limit, stream) := io.pushLimit stream length
  let (entries, stream) ← io.untilEnd (featuresItem io) fuel stream
  return (entries, io.popLimit stream limit)

def exampleItem (fuel : Nat) (stream : io.Stream) :
    Option (List FeatureMapEntry × io.Stream) := do
  let stream ← io.expectTag stream (kDelimitedTag 1)
  parseFeatures io fuel stream

/-- The features of all the examples that are merged in `serialized`, in their order. -/
def parseExample (serialized : Text) : Option (List FeatureMapEntry) := do
  let (features, _) ←
    io.untilEnd (exampleItem io serialized.length) serialized.length (io.ofArray serialized)
  return features.flatten

end Parsing

open Wire List Option Wire.CodedInputStream
open Wire.Reader (documented untilEnd_flatMap)

open Parsed (Feature FeatureMapEntry)

/-- A `Feature` that is set; numbers are written packed or one by one. -/
inductive Kind where
  | bytesList (value : List Text)
  | floatList (isPacked : Bool) (value : List UInt32)
  | int64List (isPacked : Bool) (value : List Int64)
deriving DecidableEq

/-- An entry of the map in `Features`; the feature may be unset. -/
structure MapEntry where
  name : Text
  feature : Option Kind
deriving DecidableEq

/-- An `Example`, whose features may be unset. -/
abbrev ExampleMessage := Option (List MapEntry)

namespace Kind

def dtype : Kind → DataType
  | bytesList _ => .string
  | floatList _ _ => .float
  | int64List _ _ => .int64

def values : Kind → List Value
  | bytesList value => value.map .string
  | floatList _ value => value.map .float
  | int64List _ value => value.map .int64

def writeNumbers {α : Type} (isPacked : Bool) (tag : UInt8) (write : α → List UInt8)
    (value : List α) : List UInt8 :=
  if value.isEmpty then []
  else if isPacked then kDelimitedTag 1 :: writeDelimited (value.flatMap write)
  else value.flatMap fun x => tag :: write x

def writeFloat (bits : UInt32) : List UInt8 := Bytes.encodeLE 4 bits.toNat

def writeInt64 (n : Int64) : List UInt8 := writeVarint n.toUInt64.toNat

def body : Kind → List UInt8
  | bytesList value => value.flatMap fun bytes => kDelimitedTag 1 :: writeDelimited bytes
  | floatList isPacked value => writeNumbers isPacked (kFixed32Tag 1) writeFloat value
  | int64List isPacked value => writeNumbers isPacked (kVarintTag 1) writeInt64 value

def tag : Kind → UInt8
  | bytesList _ => kDelimitedTag 1
  | floatList _ _ => kDelimitedTag 2
  | int64List _ _ => kDelimitedTag 3

end Kind

def writeFeature : Option Kind → List UInt8
  | none => []
  | some kind => kind.tag :: writeDelimited kind.body

namespace MapEntry

def body (entry : MapEntry) : List UInt8 :=
  kDelimitedTag 1 :: writeDelimited entry.name ++
    kDelimitedTag 2 :: writeDelimited (writeFeature entry.feature)

def write (entry : MapEntry) : List UInt8 := kDelimitedTag 1 :: writeDelimited entry.body

def parsed (entry : MapEntry) : FeatureMapEntry := ⟨entry.name, ⟨writeFeature entry.feature⟩⟩

end MapEntry

def writeExample : ExampleMessage → List UInt8
  | none => []
  | some entries => kDelimitedTag 1 :: writeDelimited (entries.flatMap MapEntry.write)

def serialize (examples : List ExampleMessage) : List UInt8 := examples.flatMap writeExample

def entriesOf (examples : List ExampleMessage) : List MapEntry :=
  examples.flatMap fun message => message.getD []

section Lists

variable {rest beyond : List UInt8}

theorem length_writeDelimited_le (body : List UInt8) :
    body.length ≤ (writeDelimited body).length := by
  rw [writeDelimited, length_append]
  exact Nat.le_add_left _ _

variable {body : List UInt8}

theorem readVarint32_delimited (rest beyond : List UInt8) (h : body.length < 2 ^ 32) :
    readVarint32 ⟨writeDelimited body ++ rest, beyond⟩ =
      some (UInt32.ofNat body.length, ⟨body ++ rest, beyond⟩) := by
  rw [writeDelimited, append_assoc, readVarint32_write _ _ h]

theorem toNat_length (h : body.length < 2 ^ 32) :
    (UInt32.ofNat body.length).toNat = body.length := by
  exact Nat.mod_eq_of_lt h

theorem readVarint32_whole (h : body.length < 2 ^ 32) :
    readVarint32 (ofArray (writeDelimited body)) =
      some (UInt32.ofNat body.length, ⟨body, []⟩) := by
  have hRead := readVarint32_delimited [] [] h
  rwa [append_nil, append_nil] at hRead

theorem pushLimit_whole (body : List UInt8) :
    pushLimit ⟨body, []⟩ body.length = (0, ⟨body, []⟩) := by
  have hPush := pushLimit_append [] [] body
  rwa [append_nil, append_nil] at hPush

theorem bytesItem_write {bytes : Text} (h : bytes.length < 2 ^ 32) :
    Feature.bytesItem documented ⟨kDelimitedTag 1 :: writeDelimited bytes ++ rest, beyond⟩ =
      some (.string bytes, ⟨rest, beyond⟩) := by
  simp only [Feature.bytesItem, cons_append, expectTag_cons, bind_eq_bind, bind_some,
    readVarint32_delimited _ _ h, toNat_length h, readString_append]
  rfl

theorem parseBytesList_write {value : List Text}
    (h : ((Kind.bytesList value).body).length < 2 ^ 32) :
    Feature.parseBytesList documented ⟨writeDelimited (Kind.bytesList value).body⟩ =
      some (value.map .string) := by
  have hEach : ∀ bytes ∈ value, bytes.length < 2 ^ 32 := by
    intro bytes hMem
    have hLe := length_le_flatMap (fun bytes => kDelimitedTag 1 :: writeDelimited bytes) hMem
    have hInner := length_writeDelimited_le bytes
    rw [length_cons] at hLe
    change (value.flatMap _).length < _ at h
    omega
  have hItems : documented.untilEnd (Feature.bytesItem documented) _ ⟨_, []⟩ = _ :=
    untilEnd_flatMap (Feature.bytesItem documented)
      (fun bytes => kDelimitedTag 1 :: writeDelimited bytes) Value.string value
      (fun bytes hMem rest => bytesItem_write (hEach bytes hMem))
      (fun _ _ => cons_ne_nil _ _) _ (length_writeDelimited_le _)
  simp only [Feature.parseBytesList, readVarint32_whole h, bind_eq_bind, bind_some,
    toNat_length h, pushLimit_whole]
  rw [Kind.body, hItems]
  rfl

theorem parseNumbers_write {α : Type} (isPacked : Bool) {tag : UInt8} (hTag : tag ≠ kDelimitedTag 1)
    {item : CodedInputStream → Option (Value × CodedInputStream)} {write : α → List UInt8}
    {value : α → Value}
    (hItem : ∀ x rest beyond, item ⟨write x ++ rest, beyond⟩ = some (value x, ⟨rest, beyond⟩))
    (hWrite : ∀ x, write x ≠ []) (xs : List α)
    (h : (Kind.writeNumbers isPacked tag write xs).length < 2 ^ 32) :
    Feature.parseNumbers documented tag item
        ⟨writeDelimited (Kind.writeNumbers isPacked tag write xs)⟩ = some (xs.map value) := by
  have hFuel := length_writeDelimited_le (Kind.writeNumbers isPacked tag write xs)
  simp only [Feature.parseNumbers, Feature.readNumbers, readVarint32_whole h, bind_eq_bind,
    bind_some, toNat_length h, pushLimit_whole]
  cases xs with
  | nil =>
    rfl
  | cons x xs =>
    have hItems : ∀ beyond fuel, ((x :: xs).flatMap write).length ≤ fuel →
        documented.untilEnd item fuel ⟨(x :: xs).flatMap write, beyond⟩ = _ :=
      fun beyond => untilEnd_flatMap item write value (x :: xs)
        (fun y _ rest => hItem y rest beyond) (fun y _ => hWrite y)
    cases isPacked with
    | true =>
      simp only [Kind.writeNumbers, isEmpty_cons, Bool.false_eq_true, if_false, if_true]
        at h hFuel ⊢
      have hLe := length_writeDelimited_le ((x :: xs).flatMap write)
      rw [length_cons] at h hFuel
      have hInner : ((x :: xs).flatMap write).length < 2 ^ 32 := by omega
      have hRead := readVarint32_delimited [] [] hInner
      have hLimit := pushLimit_append [] [] ((x :: xs).flatMap write)
      rw [append_nil, append_nil] at hRead hLimit
      simp only [expectTag_cons, bind_some, hRead, toNat_length hInner, hLimit]
      rw [hItems _ _ (by omega)]
      rfl
    | false =>
      simp only [Kind.writeNumbers, isEmpty_cons, Bool.false_eq_true, if_false] at hFuel ⊢
      have hTagged : documented.untilEnd (Feature.taggedItem documented tag item) _
          ⟨(x :: xs).flatMap fun x => tag :: write x, []⟩ = _ :=
        untilEnd_flatMap _ (fun x => tag :: write x) value (x :: xs)
          (fun y _ rest => by
            simp only [Feature.taggedItem, cons_append, expectTag_cons, bind_eq_bind, bind_some]
            exact hItem y rest []) (fun _ _ => cons_ne_nil _ _) _ hFuel
      have hPeek : peekTag documented ⟨(x :: xs).flatMap fun x => tag :: write x, []⟩ = tag := by
        rfl
      simp only [hPeek, hTag, ne_eq]
      rw [hTagged]
      rfl

theorem floatItem_write (bits : UInt32) (rest beyond : List UInt8) :
    Feature.floatItem documented ⟨Kind.writeFloat bits ++ rest, beyond⟩ =
      some (.float bits, ⟨rest, beyond⟩) := by
  simp only [Feature.floatItem, Kind.writeFloat, readLittleEndian32_write]
  rfl

theorem int64Item_write (n : Int64) (rest beyond : List UInt8) :
    Feature.int64Item documented ⟨Kind.writeInt64 n ++ rest, beyond⟩ =
      some (.int64 n, ⟨rest, beyond⟩) := by
  simp only [Feature.int64Item, Kind.writeInt64, readVarint64_write]
  rfl

theorem parseList_write (kind : Kind) (h : kind.body.length < 2 ^ 32) :
    Feature.parseList documented ⟨writeDelimited kind.body⟩ kind.dtype = some kind.values := by
  cases kind with
  | bytesList value => exact parseBytesList_write h
  | floatList isPacked value =>
    exact parseNumbers_write isPacked (by decide) floatItem_write
      (fun bits => by
        intro hNil
        have hLength := congrArg length hNil
        cases hLength) value h
  | int64List isPacked value =>
    exact parseNumbers_write isPacked (by decide) int64Item_write
      (fun n => writeVarint_ne_nil _) value h

theorem parseDataType_write (kind : Kind) :
    Feature.parseDataType ⟨writeFeature (some kind)⟩ =
      some (kind.dtype, ⟨writeDelimited kind.body⟩) := by
  cases kind <;> rfl

end Lists

section Entries

variable {rest beyond : List UInt8}

theorem parseString_write (rest beyond : List UInt8) {text : Text} (h : text.length < 2 ^ 32) :
    parseString documented ⟨writeDelimited text ++ rest, beyond⟩ =
      some (text, ⟨rest, beyond⟩) := by
  simp only [parseString, readVarint32_delimited _ _ h, bind_eq_bind, bind_some]
  cases text with
  | nil => rfl
  | cons byte text =>
    have hLength : UInt32.ofNat (byte :: text).length ≠ 0 := by
      intro hZero
      have hNat := congrArg UInt32.toNat hZero
      rw [toNat_length h] at hNat
      cases hNat
    rw [if_neg hLength]
    simp only [getDirectBufferPointer, cons_append, bind_some]
    rw [toNat_length h, if_neg (by simp), ← cons_append, take_left',
      skip, drop_left'] <;> rfl

variable {entry : MapEntry}

theorem parseFeatureMapEntry_write (h : entry.body.length < 2 ^ 32) :
    parseFeatureMapEntry documented ⟨writeDelimited entry.body ++ rest, beyond⟩ =
      some (entry.parsed, ⟨rest, beyond⟩) := by
  have hName : entry.name.length < 2 ^ 32 := by
    have hLe := length_writeDelimited_le entry.name
    rw [MapEntry.body, length_append, length_cons] at h
    omega
  have hFeature : (writeFeature entry.feature).length < 2 ^ 32 := by
    have hLe := length_writeDelimited_le (writeFeature entry.feature)
    rw [MapEntry.body, length_append, length_cons, length_cons] at h
    omega
  have hSecond := parseString_write [] (rest ++ beyond) hFeature
  rw [append_nil] at hSecond
  simp only [parseFeatureMapEntry, readVarint32_delimited _ _ h, bind_eq_bind, bind_some,
    toNat_length h, pushLimit_append]
  rw [MapEntry.body, cons_append]
  simp only [bind_some, parseString_write _ _ hName, expectTag_cons, hSecond, popLimit_append]
  rfl

theorem featuresItem_write (h : entry.body.length < 2 ^ 32) :
    featuresItem documented ⟨entry.write ++ rest, beyond⟩ =
      some (entry.parsed, ⟨rest, beyond⟩) := by
  simp only [featuresItem, MapEntry.write, cons_append, expectTag_cons, bind_eq_bind, bind_some]
  exact parseFeatureMapEntry_write h

theorem exampleItem_write {entries : List MapEntry} {fuel : Nat}
    (h : (entries.flatMap MapEntry.write).length < 2 ^ 32)
    (hFuel : (entries.flatMap MapEntry.write).length ≤ fuel) :
    exampleItem documented fuel
        ⟨kDelimitedTag 1 :: writeDelimited (entries.flatMap MapEntry.write) ++ rest, beyond⟩ =
      some (entries.map MapEntry.parsed, ⟨rest, beyond⟩) := by
  have hEach : ∀ entry ∈ entries, entry.body.length < 2 ^ 32 := by
    intro entry hMem
    have hLe := length_le_flatMap MapEntry.write hMem
    have hInner := length_writeDelimited_le entry.body
    rw [MapEntry.write, length_cons] at hLe
    omega
  have hItems : documented.untilEnd (featuresItem documented) fuel ⟨_, rest ++ beyond⟩ = _ :=
    untilEnd_flatMap (featuresItem documented) MapEntry.write MapEntry.parsed entries
      (fun entry hMem rest => featuresItem_write (hEach entry hMem))
      (fun _ _ => cons_ne_nil _ _) _ hFuel
  simp only [exampleItem, cons_append, expectTag_cons, bind_eq_bind, bind_some, parseFeatures,
    readVarint32_delimited _ _ h, toNat_length h, pushLimit_append, hItems]
  rw [popLimit_append]
  rfl

theorem serialize_eq (examples : List ExampleMessage) :
    serialize examples = (examples.filterMap id).flatMap fun entries =>
      kDelimitedTag 1 :: writeDelimited (entries.flatMap MapEntry.write) := by
  induction examples with
  | nil => rfl
  | cons message examples ih =>
    cases message with
    | none => exact ih
    | some entries =>
      change writeExample (some entries) ++ serialize examples = _
      rw [ih]
      rfl

theorem entriesOf_eq (examples : List ExampleMessage) :
    entriesOf examples = (examples.filterMap id).flatten := by
  induction examples with
  | nil => rfl
  | cons message examples ih =>
    cases message with
    | none => exact ih
    | some entries =>
      change entries ++ entriesOf examples = _
      rw [ih]
      rfl

variable {examples : List ExampleMessage}

theorem parseExample_serialize (h : (serialize examples).length < 2 ^ 31) :
    parseExample documented (serialize examples) =
      some ((entriesOf examples).map MapEntry.parsed) := by
  rw [serialize_eq] at h ⊢
  have hEach : ∀ entries ∈ examples.filterMap id, (entries.flatMap MapEntry.write).length ≤
      ((examples.filterMap id).flatMap fun entries =>
        kDelimitedTag 1 :: writeDelimited (entries.flatMap MapEntry.write)).length := by
    intro entries hMem
    have hLe := length_le_flatMap (fun entries : List MapEntry =>
      kDelimitedTag 1 :: writeDelimited (entries.flatMap MapEntry.write)) hMem
    have hInner := length_writeDelimited_le (entries.flatMap MapEntry.write)
    rw [length_cons] at hLe
    omega
  have hItems : documented.untilEnd (exampleItem documented _) _ ⟨_, []⟩ = _ :=
    untilEnd_flatMap (exampleItem documented _)
      (fun entries => kDelimitedTag 1 :: writeDelimited (entries.flatMap MapEntry.write))
      (map MapEntry.parsed) (examples.filterMap id)
      (fun entries hMem rest =>
        exampleItem_write ((hEach entries hMem).trans_lt (h.trans (by decide)))
          (hEach entries hMem))
      (fun _ _ => cons_ne_nil _ _) _ le_rfl
  simp only [parseExample, ofArray, hItems, bind_eq_bind, bind_some]
  rw [entriesOf_eq, map_flatten]
  rfl

theorem feature_fits (h : (serialize examples).length < 2 ^ 31) (hMem : entry ∈ entriesOf examples)
    {kind : Kind} (hKind : entry.feature = some kind) : kind.body.length < 2 ^ 32 := by
  rw [serialize_eq] at h
  rw [entriesOf_eq, mem_flatten] at hMem
  obtain ⟨entries, hEntries, hMem⟩ := hMem
  have hExample := length_le_flatMap (fun entries : List MapEntry =>
    kDelimitedTag 1 :: writeDelimited (entries.flatMap MapEntry.write)) hEntries
  have hEntry := length_le_flatMap MapEntry.write hMem
  have hOuter := length_writeDelimited_le (entries.flatMap MapEntry.write)
  have hBody := length_writeDelimited_le entry.body
  have hFeature := length_writeDelimited_le (writeFeature entry.feature)
  have hInner := length_writeDelimited_le kind.body
  have hWritten : (writeFeature entry.feature).length = (writeDelimited kind.body).length + 1 := by
    rw [hKind, writeFeature, length_cons]
  rw [MapEntry.write, length_cons] at hEntry
  rw [length_cons] at hExample
  have hEnd : entry.body.length = 1 + (writeDelimited entry.name).length +
      (1 + (writeDelimited (writeFeature entry.feature)).length) := by
    rw [MapEntry.body, length_append, length_cons, length_cons]
    omega
  omega

end Entries

section Documented

universe u v w

theorem bind_eq_of_map {α : Type u} {β : Type v} {γ : Type w} {x : Option α} {y : Option β}
    {p : α → β} (hx : x.map p = y) {f : α → Option γ} {g : β → Option γ}
    (hf : ∀ a, f a = g (p a)) : x.bind f = y.bind g := by
  subst hx
  cases x with
  | none => rfl
  | some a => exact hf a

theorem map_bind_eq_of_map {α : Type u} {β : Type v} {γ δ : Type w} {x : Option α} {y : Option β}
    {p : α → β} (hx : x.map p = y) {f : α → Option γ} {g : β → Option δ} {q : γ → δ}
    (hf : ∀ a, (f a).map q = g (p a)) : (x.bind f).map q = y.bind g := by
  rw [map_bind]
  exact bind_eq_of_map hx hf

variable {io : Reader} {view : io.Stream → CodedInputStream} {limit : io.Limit → Nat}
  (hIo : io.Documented view limit)
include hIo

theorem pushLimit_view (s : io.Stream) (byteLimit : UInt32) :
    view (io.pushLimit s byteLimit).2 = ((view s).pushLimit byteLimit.toNat).2 ∧
      limit (io.pushLimit s byteLimit).1 = ((view s).pushLimit byteLimit.toNat).1 := by
  rw [← hIo.pushLimit]
  exact ⟨rfl, rfl⟩

theorem peekTag_view (s : io.Stream) : peekTag io s = peekTag documented (view s) := by
  rw [peekTag, hIo.getDirectBufferPointer]
  rfl

/-- A loop reads the same items when every turn does. -/
theorem untilEnd_view {α : Type} {item : io.Stream → Option (α × io.Stream)}
    {item' : CodedInputStream → Option (α × CodedInputStream)}
    (hItem : ∀ s, (item s).map (Prod.map id view) = item' (view s)) (fuel : Nat) (s : io.Stream) :
    (io.untilEnd item fuel s).map (Prod.map id view) =
      documented.untilEnd item' fuel (view s) := by
  induction fuel generalizing s with
  | zero =>
    rw [Reader.untilEnd, Reader.untilEnd, hIo.expectAtEnd]
    split <;> rfl
  | succ fuel ih =>
    rw [Reader.untilEnd, Reader.untilEnd, hIo.expectAtEnd]
    split
    · rfl
    · refine map_bind_eq_of_map (hItem s) fun ⟨x, s⟩ => ?_
      exact map_bind_eq_of_map (ih s) fun ⟨xs, s⟩ => rfl

namespace Parsed.Feature

theorem bytesItem_view (s : io.Stream) :
    (bytesItem io s).map (Prod.map id view) = bytesItem documented (view s) := by
  refine map_bind_eq_of_map (hIo.expectTag s _) fun s => ?_
  refine map_bind_eq_of_map (hIo.readVarint32 s) fun ⟨bytesLength, s⟩ => ?_
  exact map_bind_eq_of_map (hIo.readString s bytesLength) fun ⟨bytes, s⟩ => rfl

theorem floatItem_view (s : io.Stream) :
    (floatItem io s).map (Prod.map id view) = floatItem documented (view s) :=
  map_bind_eq_of_map (hIo.readLittleEndian32 s) fun _ => rfl

theorem int64Item_view (s : io.Stream) :
    (int64Item io s).map (Prod.map id view) = int64Item documented (view s) :=
  map_bind_eq_of_map (hIo.readVarint64 s) fun _ => rfl

theorem parseBytesList_eq (feature : Feature) :
    feature.parseBytesList io = feature.parseBytesList documented := by
  have hRead := hIo.readVarint32 (io.ofArray feature.serialized)
  rw [hIo.ofArray] at hRead
  refine bind_eq_of_map hRead fun ⟨length, s⟩ => ?_
  have hItems := untilEnd_view hIo (bytesItem_view hIo) feature.serialized.length
    (io.pushLimit s length).2
  rw [(pushLimit_view hIo s length).1] at hItems
  exact bind_eq_of_map hItems fun ⟨values, s⟩ => rfl

section Numbers

variable {tag : UInt8} {item : io.Stream → Option (Value × io.Stream)}
  {item' : CodedInputStream → Option (Value × CodedInputStream)}
  (hItem : ∀ s, (item s).map (Prod.map id view) = item' (view s))
include hItem

theorem readNumbers_view (fuel : Nat) (s : io.Stream) :
    readNumbers io tag item fuel s = readNumbers documented tag item' fuel (view s) := by
  have hTagged (s : io.Stream) : (taggedItem io tag item s).map (Prod.map id view) =
      taggedItem documented tag item' (view s) :=
    map_bind_eq_of_map (hIo.expectTag s tag) fun s => hItem s
  rw [readNumbers, readNumbers, hIo.expectAtEnd, peekTag_view hIo]
  refine if_congr Iff.rfl rfl (if_congr Iff.rfl rfl (if_congr Iff.rfl ?_ ?_))
  · refine bind_eq_of_map (hIo.expectTag s _) fun s => ?_
    refine bind_eq_of_map (hIo.readVarint32 s) fun ⟨packedLength, s⟩ => ?_
    have hItems := untilEnd_view hIo hItem fuel (io.pushLimit s packedLength).2
    rw [(pushLimit_view hIo s packedLength).1] at hItems
    exact bind_eq_of_map hItems fun _ => rfl
  · exact bind_eq_of_map (untilEnd_view hIo hTagged fuel s) fun _ => rfl

theorem parseNumbers_eq (feature : Feature) :
    feature.parseNumbers io tag item = feature.parseNumbers documented tag item' := by
  have hRead := hIo.readVarint32 (io.ofArray feature.serialized)
  rw [hIo.ofArray] at hRead
  refine bind_eq_of_map hRead fun ⟨length, s⟩ => ?_
  refine (readNumbers_view hIo hItem _ _).trans ?_
  rw [(pushLimit_view hIo s length).1]
  rfl

end Numbers

theorem parseList_eq (feature : Feature) (dtype : DataType) :
    feature.parseList io dtype = feature.parseList documented dtype := by
  cases dtype with
  | int64 => exact parseNumbers_eq hIo (int64Item_view hIo) feature
  | float => exact parseNumbers_eq hIo (floatItem_view hIo) feature
  | string => exact parseBytesList_eq hIo feature
  | invalid => rfl
  | other name => rfl

end Parsed.Feature

theorem parseString_view (s : io.Stream) :
    (parseString io s).map (Prod.map id view) = parseString documented (view s) := by
  refine map_bind_eq_of_map (hIo.readVarint32 s) fun ⟨length, s⟩ => ?_
  dsimp only [Prod.map, id]
  by_cases hZero : length = 0
  · rw [if_pos hZero, if_pos hZero]
    rfl
  · rw [if_neg hZero, if_neg hZero, hIo.getDirectBufferPointer]
    refine map_bind_eq_of_map (congrFun Option.map_id _) fun buffer => ?_
    dsimp only [id]
    by_cases hShort : buffer.length < length.toNat
    · rw [if_pos hShort, if_pos hShort]
      rfl
    · rw [if_neg hShort, if_neg hShort]
      exact congrArg some (Prod.ext rfl (hIo.skip s length))

theorem parseFeatureMapEntry_view (s : io.Stream) :
    (parseFeatureMapEntry io s).map (Prod.map id view) =
      parseFeatureMapEntry documented (view s) := by
  refine map_bind_eq_of_map (hIo.readVarint32 s) fun ⟨length, start⟩ => ?_
  obtain ⟨hView, hLimit⟩ := pushLimit_view hIo start length
  have hTag := hIo.expectTag (io.pushLimit start length).2 (kDelimitedTag 1)
  rw [hView] at hTag
  refine map_bind_eq_of_map hTag fun s => ?_
  refine map_bind_eq_of_map (parseString_view hIo s) fun ⟨name, s⟩ => ?_
  refine map_bind_eq_of_map (hIo.expectTag s _) fun s => ?_
  refine map_bind_eq_of_map (parseString_view hIo s) fun ⟨feature, s⟩ => ?_
  have hPop := hIo.popLimit s (io.pushLimit start length).1
  rw [hLimit] at hPop
  dsimp only [Prod.map, id]
  rw [hIo.expectAtEnd]
  by_cases hEnd : (view s).expectAtEnd
  · rw [if_pos hEnd, if_pos hEnd]
    exact congrArg some (Prod.ext rfl hPop)
  · rw [if_neg hEnd, if_neg hEnd]
    rfl

theorem featuresItem_view (s : io.Stream) :
    (featuresItem io s).map (Prod.map id view) = featuresItem documented (view s) :=
  map_bind_eq_of_map (hIo.expectTag s _) fun s => parseFeatureMapEntry_view hIo s

theorem exampleItem_view (fuel : Nat) (s : io.Stream) :
    (exampleItem io fuel s).map (Prod.map id view) = exampleItem documented fuel (view s) := by
  refine map_bind_eq_of_map (hIo.expectTag s _) fun s => ?_
  refine map_bind_eq_of_map (hIo.readVarint32 s) fun ⟨length, start⟩ => ?_
  obtain ⟨hView, hLimit⟩ := pushLimit_view hIo start length
  have hItems := untilEnd_view hIo (featuresItem_view hIo) fuel (io.pushLimit start length).2
  rw [hView] at hItems
  refine map_bind_eq_of_map hItems fun ⟨entries, s⟩ => ?_
  have hPop := hIo.popLimit s (io.pushLimit start length).1
  rw [hLimit] at hPop
  exact congrArg some (Prod.ext rfl hPop)

theorem parseExample_eq (serialized : Text) :
    parseExample io serialized = parseExample documented serialized := by
  have hItems := untilEnd_view hIo (exampleItem_view hIo serialized.length) serialized.length
    (io.ofArray serialized)
  rw [hIo.ofArray] at hItems
  exact bind_eq_of_map hItems fun _ => rfl

end Documented

end TensorFlowOnSpark.Util
