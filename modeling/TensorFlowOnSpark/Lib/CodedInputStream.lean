import TensorFlowOnSpark.Lib.Bytes

/-!
# The wire format of protocol buffers

A reader of tags, varints and delimited fields over a flat array, with limits that nest,
and the writers that it inverts.
-/

namespace TensorFlowOnSpark.Wire

universe u

open List Option

structure CodedInputStream where
  bytes : List UInt8
  beyond : List UInt8
deriving DecidableEq

/-- The value of a varint of at most `room` bytes, with the bytes after it. -/
def varint : Nat → List UInt8 → Option (Nat × List UInt8)
  | 0, _ => none
  | _ + 1, [] => none
  | room + 1, b :: rest =>
    if b.toNat < 128 then some (b.toNat, rest)
    else (varint room rest).map fun (n, rest) => (b.toNat % 128 + 128 * n, rest)

namespace CodedInputStream

def ofArray (serialized : List UInt8) : CodedInputStream := ⟨serialized, []⟩

def expectAtEnd (s : CodedInputStream) : Bool := s.bytes.isEmpty

def expectTag (s : CodedInputStream) (tag : UInt8) : Option CodedInputStream :=
  match s.bytes with
  | [] => none
  | b :: rest => if b = tag then some { s with bytes := rest } else none

def readVarint64 (s : CodedInputStream) : Option (UInt64 × CodedInputStream) :=
  (varint 10 s.bytes).map fun (n, rest) => (UInt64.ofNat n, { s with bytes := rest })

def readVarint32 (s : CodedInputStream) : Option (UInt32 × CodedInputStream) :=
  (varint 10 s.bytes).map fun (n, rest) => (UInt32.ofNat n, { s with bytes := rest })

def skip (s : CodedInputStream) (count : Nat) : CodedInputStream :=
  { s with bytes := s.bytes.drop count }

def readString (s : CodedInputStream) (size : Nat) : Option (List UInt8 × CodedInputStream) :=
  if size ≤ s.bytes.length then some (s.bytes.take size, s.skip size) else none

def readLittleEndian32 (s : CodedInputStream) : Option (UInt32 × CodedInputStream) :=
  (s.readString 4).map fun (bytes, s) => (UInt32.ofNat (Bytes.decodeLE bytes), s)

def getDirectBufferPointer (s : CodedInputStream) : Option (List UInt8) :=
  match s.bytes with
  | [] => none
  | b :: rest => some (b :: rest)

def pushLimit (s : CodedInputStream) (byteLimit : Nat) : Nat × CodedInputStream :=
  (s.beyond.length, ⟨s.bytes.take byteLimit, s.bytes.drop byteLimit ++ s.beyond⟩)

def popLimit (s : CodedInputStream) (limit : Nat) : CodedInputStream :=
  let all := s.bytes ++ s.beyond
  ⟨all.take (all.length - limit), all.drop (all.length - limit)⟩

end CodedInputStream

/-- What a reader of a flat array does: `io::CodedInputStream` of protobuf, with its streams and the
limits that `PushLimit` returns. -/
structure Reader where
  Stream : Type
  Limit : Type
  ofArray : List UInt8 → Stream
  expectAtEnd : Stream → Bool
  expectTag : Stream → UInt8 → Option Stream
  readVarint64 : Stream → Option (UInt64 × Stream)
  readVarint32 : Stream → Option (UInt32 × Stream)
  readLittleEndian32 : Stream → Option (UInt32 × Stream)
  readString : Stream → UInt32 → Option (List UInt8 × Stream)
  getDirectBufferPointer : Stream → Option (List UInt8)
  skip : Stream → UInt32 → Stream
  pushLimit : Stream → UInt32 → Limit × Stream
  popLimit : Stream → Limit → Stream

namespace Reader

/-- The reader of the wire format as it is documented. -/
abbrev documented : Reader where
  Stream := CodedInputStream
  Limit := Nat
  ofArray := CodedInputStream.ofArray
  expectAtEnd := CodedInputStream.expectAtEnd
  expectTag := CodedInputStream.expectTag
  readVarint64 := CodedInputStream.readVarint64
  readVarint32 := CodedInputStream.readVarint32
  readLittleEndian32 := CodedInputStream.readLittleEndian32
  readString s size := s.readString size.toNat
  getDirectBufferPointer := CodedInputStream.getDirectBufferPointer
  skip s count := s.skip count.toNat
  pushLimit s byteLimit := s.pushLimit byteLimit.toNat
  popLimit := CodedInputStream.popLimit

section UntilEnd

variable {α : Type u}

/-- Reads items up to the current limit, at most `fuel` of them. -/
def untilEnd (io : Reader) (item : io.Stream → Option (α × io.Stream)) :
    Nat → io.Stream → Option (List α × io.Stream)
  | 0, s => if io.expectAtEnd s then some ([], s) else none
  | fuel + 1, s =>
    if io.expectAtEnd s then some ([], s)
    else do
      let (x, s) ← item s
      let (xs, s) ← untilEnd io item fuel s
      return (x :: xs, s)

theorem untilEnd_flatMap {β : Type*} (item : CodedInputStream → Option (α × CodedInputStream))
    (write : β → List UInt8) (value : β → α) {beyond : List UInt8} (items : List β)
    (hItem : ∀ x ∈ items, ∀ rest, item ⟨write x ++ rest, beyond⟩ = some (value x, ⟨rest, beyond⟩))
    (hWrite : ∀ x ∈ items, write x ≠ []) (fuel : Nat)
    (hFuel : (items.flatMap write).length ≤ fuel) :
    documented.untilEnd item fuel ⟨items.flatMap write, beyond⟩ =
      some (items.map value, ⟨[], beyond⟩) := by
  induction items generalizing fuel with
  | nil => cases fuel <;> rfl
  | cons x items ih =>
    have hFirst := length_pos_iff.mpr (hWrite x (mem_cons_self ..))
    rw [flatMap_cons, length_append] at hFuel
    cases fuel with
    | zero => omega
    | succ fuel =>
      have hEnd : documented.expectAtEnd
          (⟨(x :: items).flatMap write, beyond⟩ : CodedInputStream) = false := by
        simp [CodedInputStream.expectAtEnd, hWrite x (mem_cons_self ..)]
      have hRest := ih (fun y hMem => hItem y (mem_cons_of_mem _ hMem))
        (fun y hMem => hWrite y (mem_cons_of_mem _ hMem)) fuel (by omega)
      have hTurn : documented.untilEnd item (fuel + 1) ⟨(x :: items).flatMap write, beyond⟩ =
          (item ⟨write x ++ items.flatMap write, beyond⟩).bind fun r =>
            (documented.untilEnd item fuel r.2).bind fun more => some (r.1 :: more.1, more.2) :=
        if_neg (by rw [hEnd]; exact Bool.false_ne_true)
      rw [hTurn, hItem x (mem_cons_self ..), bind_some, hRest, bind_some, map_cons]

end UntilEnd

/-- The reader does what is documented: `view` is what is left of the array in its streams. -/
structure Documented (io : Reader) (view : io.Stream → CodedInputStream)
    (limit : io.Limit → Nat) : Prop where
  ofArray serialized : view (io.ofArray serialized) = .ofArray serialized
  expectAtEnd s : io.expectAtEnd s = (view s).expectAtEnd
  expectTag s tag : (io.expectTag s tag).map view = (view s).expectTag tag
  readVarint64 s : (io.readVarint64 s).map (Prod.map id view) = (view s).readVarint64
  readVarint32 s : (io.readVarint32 s).map (Prod.map id view) = (view s).readVarint32
  readLittleEndian32 s :
    (io.readLittleEndian32 s).map (Prod.map id view) = (view s).readLittleEndian32
  readString s size : (io.readString s size).map (Prod.map id view) = (view s).readString size.toNat
  getDirectBufferPointer s : io.getDirectBufferPointer s = (view s).getDirectBufferPointer
  skip s count : view (io.skip s count) = (view s).skip count.toNat
  pushLimit s byteLimit :
    Prod.map limit view (io.pushLimit s byteLimit) = (view s).pushLimit byteLimit.toNat
  popLimit s old : view (io.popLimit s old) = (view s).popLimit (limit old)

theorem documented_documented : documented.Documented id id := by
  constructor <;> intros <;> simp [documented]

end Reader

theorem length_le_flatMap {β : Type*} {items : List β} {x : β} (write : β → List UInt8)
    (h : x ∈ items) : (write x).length ≤ (items.flatMap write).length := by
  exact (sublist_flatten_of_mem (mem_map_of_mem h)).length_le

/-- The varint of `n`, in at most `room` bytes. -/
def varintBytes : Nat → Nat → List UInt8
  | 0, _ => []
  | room + 1, n =>
    if n < 128 then [UInt8.ofNat n]
    else UInt8.ofNat (n % 128 + 128) :: varintBytes room (n / 128)

def writeVarint (n : Nat) : List UInt8 := varintBytes 10 n

def writeDelimited (body : List UInt8) : List UInt8 := writeVarint body.length ++ body

theorem varint_varintBytes {room n : Nat} (h : n < 128 ^ (room + 1)) (rest : List UInt8) :
    varint (room + 1) (varintBytes (room + 1) n ++ rest) = some (n, rest) := by
  induction room generalizing n with
  | zero =>
    have hSmall : n < 128 := by simpa using h
    have hByte : (UInt8.ofNat n).toNat = n := by
      rw [UInt8.toNat_ofNat']
      omega
    simp only [varintBytes, if_pos hSmall, cons_append, nil_append, varint, hByte]
  | succ room ih =>
    rw [varintBytes]
    split
    · rename_i hSmall
      have hByte : (UInt8.ofNat n).toNat = n := by
        rw [UInt8.toNat_ofNat']
        omega
      simp only [cons_append, nil_append, varint, hByte, if_pos hSmall]
    · have hByte : (UInt8.ofNat (n % 128 + 128)).toNat = n % 128 + 128 := by
        rw [UInt8.toNat_ofNat']
        omega
      have hDiv : n / 128 < 128 ^ (room + 1) := by
        rw [Nat.div_lt_iff_lt_mul (by decide)]
        exact h
      have hValue : (n % 128 + 128) % 128 + 128 * (n / 128) = n := by omega
      rw [cons_append, varint, hByte, if_neg (by omega), ih hDiv, map_some]
      simp only [hValue]

theorem varintBytes_ne_nil (room n : Nat) : varintBytes (room + 1) n ≠ [] := by
  rw [varintBytes]
  split <;> exact cons_ne_nil _ _

@[simp] theorem writeVarint_ne_nil (n : Nat) : writeVarint n ≠ [] := varintBytes_ne_nil 9 n

namespace CodedInputStream

variable (rest beyond : List UInt8)

theorem readVarint64_write (n : UInt64) :
    readVarint64 ⟨writeVarint n.toNat ++ rest, beyond⟩ = some (n, ⟨rest, beyond⟩) := by
  have hRead : varint 10 (writeVarint n.toNat ++ rest) = some (n.toNat, rest) :=
    varint_varintBytes (n.toNat_lt.trans (by decide)) rest
  simp only [readVarint64, hRead, map_some, UInt64.ofNat_toNat]

theorem readVarint32_write {n : Nat} (h : n < 2 ^ 32) :
    readVarint32 ⟨writeVarint n ++ rest, beyond⟩ = some (UInt32.ofNat n, ⟨rest, beyond⟩) := by
  have hRead : varint 10 (writeVarint n ++ rest) = some (n, rest) :=
    varint_varintBytes (h.trans (by decide)) rest
  rw [readVarint32, hRead, map_some]

theorem expectTag_cons (tag : UInt8) :
    expectTag ⟨tag :: rest, beyond⟩ tag = some ⟨rest, beyond⟩ := by
  simp only [expectTag, if_true]

theorem readString_append (body : List UInt8) :
    readString ⟨body ++ rest, beyond⟩ body.length = some (body, ⟨rest, beyond⟩) := by
  rw [readString, if_pos (by simp), take_left', skip, drop_left'] <;> rfl

theorem readLittleEndian32_write (x : UInt32) :
    readLittleEndian32 ⟨Bytes.encodeLE 4 x.toNat ++ rest, beyond⟩ = some (x, ⟨rest, beyond⟩) := by
  have hRead := readString_append rest beyond (Bytes.encodeLE 4 x.toNat)
  rw [Bytes.length_encodeLE] at hRead
  simp only [readLittleEndian32, hRead, map_some, Bytes.ofNat_decodeLE_uint32]

theorem pushLimit_append (body : List UInt8) :
    pushLimit ⟨body ++ rest, beyond⟩ body.length = (beyond.length, ⟨body, rest ++ beyond⟩) := by
  rw [pushLimit, take_left', drop_left'] <;> rfl

theorem popLimit_append : popLimit ⟨[], rest ++ beyond⟩ beyond.length = ⟨rest, beyond⟩ := by
  simp only [popLimit, nil_append, length_append, Nat.add_sub_cancel, take_left', drop_left']

end CodedInputStream

open CodedInputStream

inductive Payload where
  | varint (n : UInt64)
  | fixed64 (bytes : List UInt8)
  | delimited (bytes : List UInt8)
  | fixed32 (bytes : List UInt8)

structure Field where
  number : Nat
  payload : Payload

namespace Payload

def wireType : Payload → Nat
  | varint _ => 0
  | fixed64 _ => 1
  | delimited _ => 2
  | fixed32 _ => 5

def write : Payload → List UInt8
  | varint n => writeVarint n.toNat
  | fixed64 bytes => bytes
  | delimited bytes => writeDelimited bytes
  | fixed32 bytes => bytes

def Valid : Payload → Prop
  | varint _ => True
  | fixed64 bytes => bytes.length = 8
  | delimited bytes => bytes.length < 2 ^ 32
  | fixed32 bytes => bytes.length = 4

def read (wireType : Nat) (s : CodedInputStream) : Option (Payload × CodedInputStream) :=
  match wireType with
  | 0 => s.readVarint64.map fun r => (varint r.1, r.2)
  | 1 => (s.readString 8).map fun r => (fixed64 r.1, r.2)
  | 2 => do
    let (length, s) ← s.readVarint32
    let (bytes, s) ← s.readString length.toNat
    return (delimited bytes, s)
  | 5 => (s.readString 4).map fun r => (fixed32 r.1, r.2)
  | _ => none

theorem read_write {payload : Payload} (h : payload.Valid) (rest beyond : List UInt8) :
    read payload.wireType ⟨payload.write ++ rest, beyond⟩ = some (payload, ⟨rest, beyond⟩) := by
  cases payload with
  | varint n =>
    simp only [wireType, write, read, readVarint64_write, map_some]
  | fixed64 bytes =>
    have hRead := readString_append rest beyond bytes
    rw [h] at hRead
    simp only [wireType, write, read, hRead, map_some]
  | delimited bytes =>
    have hLength : (UInt32.ofNat bytes.length).toNat = bytes.length := UInt32.toNat_ofNat_of_lt' h
    simp only [write, read, writeDelimited, append_assoc, readVarint32_write _ _ h,
      bind_eq_bind, bind_some, hLength, readString_append]
    rfl
  | fixed32 bytes =>
    have hRead := readString_append rest beyond bytes
    rw [h] at hRead
    simp only [wireType, write, read, hRead, map_some]

theorem wireType_lt (payload : Payload) : payload.wireType < 8 := by
  cases payload <;> simp [wireType]

end Payload

namespace Field

def key (field : Field) : Nat := 8 * field.number + field.payload.wireType

def write (field : Field) : List UInt8 := writeVarint field.key ++ field.payload.write

structure Valid (field : Field) : Prop where
  number : 0 < field.number ∧ field.number < 2 ^ 29
  payload : field.payload.Valid

def read (s : CodedInputStream) : Option (Field × CodedInputStream) := do
  let (key, s) ← s.readVarint32
  if key.toNat / 8 = 0 then none
  else
    let (payload, s) ← Payload.read (key.toNat % 8) s
    return (⟨key.toNat / 8, payload⟩, s)

theorem read_write {field : Field} (h : field.Valid) (rest beyond : List UInt8) :
    read ⟨field.write ++ rest, beyond⟩ = some (field, ⟨rest, beyond⟩) := by
  have hType := field.payload.wireType_lt
  have hNumber := h.number
  have hKey : field.key < 2 ^ 32 := by
    rw [key]
    omega
  have hValue : (UInt32.ofNat field.key).toNat = field.key := UInt32.toNat_ofNat_of_lt' hKey
  have hDiv : field.key / 8 = field.number := by
    rw [key]
    omega
  have hMod : field.key % 8 = field.payload.wireType := by
    rw [key]
    omega
  simp only [read, write, append_assoc, readVarint32_write _ _ hKey, bind_eq_bind, bind_some,
    hValue, hDiv, hMod, Payload.read_write h.payload]
  rw [if_neg (by omega)]
  rfl

def delimitedHead (number length : Nat) : List UInt8 :=
  writeVarint (8 * number + 2) ++ writeVarint length

theorem write_delimited (number : Nat) (bytes : List UInt8) :
    write ⟨number, .delimited bytes⟩ = delimitedHead number bytes.length ++ bytes := by
  rw [delimitedHead, append_assoc]
  rfl

theorem write_ne_nil (field : Field) : field.write ≠ [] := by
  exact append_ne_nil_of_left_ne_nil (writeVarint_ne_nil _) _

end Field

def writeFields (fields : List Field) : List UInt8 := fields.flatMap Field.write

def parseFields (bytes : List UInt8) : Option (List Field) :=
  (Reader.documented.untilEnd Field.read bytes.length (CodedInputStream.ofArray bytes)).map Prod.fst

theorem parseFields_writeFields {fields : List Field} (h : ∀ field ∈ fields, field.Valid) :
    parseFields (writeFields fields) = some fields := by
  have hEach : ∀ field ∈ fields, ∀ rest,
      Field.read ⟨field.write ++ rest, []⟩ = some (id field, ⟨rest, []⟩) :=
    fun field hMem rest => Field.read_write (h field hMem) rest []
  have hRead := Reader.untilEnd_flatMap Field.read Field.write id fields hEach
    (fun field _ => field.write_ne_nil) (fields.flatMap Field.write).length le_rfl
  rw [List.map_id] at hRead
  rw [parseFields, writeFields, ofArray, hRead]
  rfl

@[simp] theorem writeFields_append (fields fields' : List Field) :
    writeFields (fields ++ fields') = writeFields fields ++ writeFields fields' :=
  flatMap_append

end TensorFlowOnSpark.Wire
