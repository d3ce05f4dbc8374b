import TensorFlowOnSpark.Framework.OpDef
import TensorFlowOnSpark.Io.InputBuffer
import TensorFlowOnSpark.Io.RecordFile

/-!
# Restoring a tensor

`BundleReader::GetValue` and `ReadStringTensor` of `util/tensor_bundle/tensor_bundle.cc`.
-/

namespace TensorFlowOnSpark.Bundle

open List Bytes Nat Option

open Framework (Status)
open Platform Ops Io

def dtString : DataType := 7

def dtResource : DataType := 20

/-- The types that `DataTypeCanUseMemcpy` lists, with the sizes of their elements. -/
def memcpySizes : List (DataType × Nat) :=
  [(1, 4), (2, 8), (3, 4), (4, 1), (17, 2), (5, 2), (6, 1), (8, 8), (18, 16), (9, 8), (10, 1),
    (11, 1), (12, 1), (15, 2), (16, 2), (13, 4), (14, 2), (19, 2)]

def dataTypeCanUseMemcpy (dtype : DataType) : Bool := (memcpySizes.lookup dtype).isSome

inductive Buffer where
  | plain (data : Platform.Bytes)
  | strings (elems : List Platform.Bytes)
  | handles
deriving DecidableEq

structure Tensor where
  dtype : DataType
  shape : List Nat
  buf : Buffer
deriving DecidableEq

def emptyTensor : Tensor := ⟨1, [0], .plain []⟩

namespace Tensor

def numElements (t : Tensor) : Nat := t.shape.prod

def Sized (t : Tensor) : Prop :=
  match t.buf with
  | .plain data =>
    ∃ size, memcpySizes.lookup t.dtype = some size ∧ data.length = t.numElements * size
  | .strings elems => t.dtype = dtString ∧ elems.length = t.numElements
  | .handles => t.dtype = dtResource

def stringBytes (t : Tensor) : Nat :=
  match t.buf with
  | .strings elems => (elems.map length).sum
  | _ => 0

end Tensor

/-- `sizeof(string)`, `sizeof(ResourceHandle)` and what a new buffer of bytes holds. -/
structure Machine where
  sizeofString : Nat
  sizeofResourceHandle : Nat
  uninitialized : Nat → Platform.Bytes
  uninitialized_length : ∀ n, (uninitialized n).length = n

namespace Machine

variable (m : Machine)

def totalBytes (t : Tensor) : Nat :=
  if t.numElements = 0 then 0
  else
    match t.buf with
    | .plain data => data.length
    | .strings elems => m.sizeofString * t.numElements + (elems.map length).sum
    | .handles => t.numElements * m.sizeofResourceHandle

/-- The constructor of `Tensor`, which knows no other types. -/
def newTensor (dtype : DataType) (shape : List Nat) : Option Tensor :=
  match memcpySizes.lookup dtype with
  | some size => some ⟨dtype, shape, .plain (m.uninitialized (shape.prod * size))⟩
  | none =>
    if dtype = dtString then some ⟨dtype, shape, .strings (replicate shape.prod [])⟩
    else if dtype = dtResource then some ⟨dtype, shape, .handles⟩
    else none

end Machine

/-- `BundleEntryProto`, without the slices. -/
structure BundleEntryProto where
  dtype : DataType
  shape : List Nat
  shardId : Int
  offset : Int64
  size : Int64
  crc32c : UInt32

def BundleEntryProto.byteSize (entry : BundleEntryProto) : Nat := entry.size.toUInt64.toNat

/-- Why no value is given. `fatal` ends the process; `file` is what the file or the environment
says. -/
inductive Failure where
  | invalidSize (key : String) (stored : Int64) (expected : Nat)
  | sizeBelow (key : String) (stored : Int64) (lowerBound : Nat)
  | file (status : Status)
  | shortRead (desired read : Nat)
  | lengthsTooLong (offset : UInt64)
  | lengthChecksum (expected actual : UInt32)
  | checksum (stored actual : UInt32)
  | fatal
deriving DecidableEq

namespace Failure

def padded (n : UInt32) : String :=
  let digits := toString n
  "".pushn '0' (8 - digits.length) ++ digits

def status : Failure → Option Status
  | .invalidSize key stored expected => some (Framework.Errors.dataLoss
      s!"Invalid size in bundle entry: key {key}; stored size {stored}; expected size {expected}")
  | .sizeBelow key stored lowerBound => some (Framework.Errors.dataLoss
      (s!"Invalid size in bundle entry: key {key}; stored size {stored}; expected size is at " ++
        s!"least {lowerBound}"))
  | .file status => some status
  | .shortRead desired read =>
    some (Framework.Errors.dataLoss s!"Requested {desired} bytes but read {read} bytes.")
  | .lengthsTooLong offset =>
    some (Framework.Errors.dataLoss s!"String lengths longer than expected offset {offset}")
  | .lengthChecksum expected actual => some (Framework.Errors.dataLoss
      (s!"The length checksum does not match: expected {padded expected} but actual is " ++
        padded actual))
  | .checksum stored actual => some (Framework.Errors.dataLoss
      (s!"Checksum does not match: stored {padded stored} vs. calculated on the restored bytes " ++
        s!"{actual}"))
  | .fatal => none

end Failure

section Read

-- `extend` is `crc32c::Extend`.
variable (extend : UInt32 → Platform.Bytes → UInt32)

def readLengths : Nat → InputBuffer → Except Failure (List UInt32 × InputBuffer)
  | 0, s => .ok ([], s)
  | n + 1, s => do
    let (length, s) ← s.readVarint32.mapError .file
    let (lengths, s) ← readLengths n s
    .ok (length :: lengths, s)

def resize (buffer : Platform.Bytes) (length : Nat) : Platform.Bytes :=
  buffer.take length ++ replicate (length - buffer.length) 0

def readStrings : List (UInt32 × Platform.Bytes) → UInt32 → InputBuffer →
    Except Failure (List Platform.Bytes × UInt32)
  | [], crc, _ => .ok ([], crc)
  | (length, old) :: rest, crc, s => do
    let (bytes, s) ← (s.readNBytes length.toNat).mapError .file
    let buffer := writeAt (resize old length.toNat) 0 bytes
    let (strings, crc) ← readStrings rest (extend crc (buffer.take bytes.length)) s
    .ok (buffer :: strings, crc)

def check (condition : Bool) (failure : Failure) : Except Failure Unit :=
  if condition then .ok () else .error failure

/-- `ReadStringTensor`, with the checksum of what it reads. -/
def readStringTensor (offset size : UInt64) (destination : List Platform.Bytes) (s : InputBuffer) :
    Except Failure (List Platform.Bytes × UInt32) :=
  if size = 0 then .ok (destination, 0)
  else do
    let s ← (s.seek offset.toInt64.toInt).mapError .file
    let (lengths, s) ← readLengths destination.length s
    check (s.tell ≤ (offset + size).toNat) (.lengthsTooLong (offset + size))
    let actual := extend 0 (lengths.flatMap encodeFixed32)
    let (bytes, s) ← (s.readNBytes 4).mapError .file
    let lengthChecksum := decodeFixed32 bytes
    check (unmask lengthChecksum = actual) (.lengthChecksum (unmask lengthChecksum) actual)
    readStrings extend (lengths.zip destination) (extend actual bytes) s

/-- `ReadInputByChunk` from the byte `bytesRead` on; each turn reads a byte or is the last. -/
def readInputByChunk (file : RandomAccessFile) (offset size bufferSize : Nat) :
    Nat → Nat → Platform.Bytes → Except Failure Platform.Bytes
  | 0, _, destination => .ok destination
  | turns + 1, bytesRead, destination =>
    if size ≤ bytesRead then .ok destination
    else do
      let desired := min bufferSize (size - bytesRead)
      let result := file.read (offset + bytesRead) desired
      check (result.1 = .ok) (.file result.1)
      check (result.2.length = desired) (.shortRead desired result.2.length)
      readInputByChunk file offset size bufferSize turns (bytesRead + result.2.length)
        (writeAt destination bytesRead result.2)

end Read

structure BundleReader where
  newRandomAccessFile : String → Except Status RandomAccessFile
  pre : String
  numShards : Int
  key : String

def padded5 (n : Int) : String :=
  let digits := toString n.natAbs
  if n < 0 then "-" ++ "".pushn '0' (4 - digits.length) ++ digits
  else "".pushn '0' (5 - digits.length) ++ digits

def dataFilename (pre : String) (shardId numShards : Int) : String :=
  s!"{pre}.data-{padded5 shardId}-of-{padded5 numShards}"

section GetValue

variable (m : Machine) (extend : UInt32 → Platform.Bytes → UInt32) (reader : BundleReader)

def target (entry : BundleEntryProto) (val : Tensor) : Except Failure Tensor :=
  if val.numElements = 0 then
    match m.newTensor entry.dtype entry.shape with
    | none => .error .fatal
    | some t => .ok t
  else .ok val

def lowerBound (ret : Tensor) : Nat :=
  ret.numElements + m.totalBytes ret - m.sizeofString * ret.numElements

def checkSize (entry : BundleEntryProto) (ret : Tensor) : Except Failure Unit :=
  if entry.dtype ≠ dtString then
    check (entry.byteSize = m.totalBytes ret)
      (.invalidSize reader.key entry.size (m.totalBytes ret))
  else
    check (lowerBound m ret ≤ entry.byteSize) (.sizeBelow reader.key entry.size (lowerBound m ret))

/-- Reads what the tensor is to hold. The code takes the buffer of `ret` as the type of the entry
says. -/
def restore (entry : BundleEntryProto) (ret : Tensor) (s : InputBuffer) :
    Except Failure (Buffer × UInt32) :=
  let offset := entry.offset.toUInt64
  if dataTypeCanUseMemcpy entry.dtype then
    match ret.buf with
    | .plain backing => do
      let data ← readInputByChunk s.file offset.toNat entry.byteSize (8 * 2 ^ 20) entry.byteSize 0
        backing
      .ok (.plain data, extend 0 (data.take entry.byteSize))
    | _ => .error .fatal
  else
    match ret.buf with
    | .strings destination => do
      let (strings, actual) ← readStringTensor extend offset entry.size.toUInt64 destination s
      .ok (.strings strings, actual)
    | _ => .error .fatal

def getInto (entry : BundleEntryProto) (ret : Tensor) : Except Failure Tensor := do
  checkSize m reader entry ret
  let file ← (reader.newRandomAccessFile
    (dataFilename reader.pre entry.shardId reader.numShards)).mapError .file
  let buffered ←
    ((InputBuffer.new file (256 * 2 ^ 10) (by decide)).seek entry.offset.toInt).mapError .file
  let (buf, actual) ← restore extend entry ret buffered
  check (unmask entry.crc32c = actual) (.checksum (unmask entry.crc32c) actual)
  .ok { ret with buf := buf }

def getValue (entry : BundleEntryProto) (val : Tensor) : Except Failure Tensor := do
  let ret ← target m entry val
  getInto m extend reader entry ret

end GetValue

structure Destination (entry : BundleEntryProto) (d : Tensor) : Prop where
  dtype : d.dtype = entry.dtype
  shape : d.shape = entry.shape
  sized : d.Sized

def Fits (entry : BundleEntryProto) (d : Tensor) : Prop :=
  d.stringBytes = 0 ∨ d.numElements + d.stringBytes ≤ entry.byteSize

section Independence

variable {m : Machine} {extend : UInt32 → Platform.Bytes → UInt32} {reader : BundleReader}
variable {entry : BundleEntryProto} {t t' : Tensor}

theorem check_eq_ok {condition : Bool} {failure : Failure} {u : Unit} :
    check condition failure = .ok u ↔ condition := by
  unfold check
  cases condition <;> simp

theorem length_resize (buffer : Platform.Bytes) (length : Nat) :
    (resize buffer length).length = length := by
  simp only [resize, length_append, length_take, length_replicate]
  omega

theorem writeAt_whole {mem src : Platform.Bytes} (h : src.length = mem.length) :
    writeAt mem 0 src = src := by
  rw [writeAt, take_zero, nil_append, zero_add, h, drop_length, append_nil]

variable {old old' : List Platform.Bytes}

theorem readStrings_independent {lengths : List UInt32} (h : old.length = old'.length)
    (crc : UInt32) (s : InputBuffer) :
    readStrings extend (lengths.zip old) crc s = readStrings extend (lengths.zip old') crc s := by
  induction lengths generalizing old old' crc s with
  | nil => rfl
  | cons length lengths ih =>
    cases old with
    | nil =>
      obtain rfl := length_eq_zero_iff.mp h.symm
      rfl
    | cons first old =>
      cases old' with
      | nil => cases h
      | cons first' old' =>
        rw [zip_cons_cons, zip_cons_cons, readStrings, readStrings]
        cases hRead : s.readNBytes length.toNat with
        | error status => rfl
        | ok result =>
          obtain ⟨bytes, s'⟩ := result
          have hLength := InputBuffer.readNBytes_length hRead
          have hWhole : ∀ buffer, writeAt (resize buffer length.toNat) 0 bytes = bytes :=
            fun buffer => writeAt_whole (by rw [length_resize, hLength])
          simp only [Except.mapError, Fallible.ok_bind, hWhole, ih (succ.inj h)]

theorem readStringTensor_independent {offset size : UInt64} (h : old.length = old'.length)
    (hSize : size ≠ 0 ∨ old = []) (s : InputBuffer) :
    readStringTensor extend offset size old s = readStringTensor extend offset size old' s := by
  rcases hSize with hSize | rfl
  · unfold readStringTensor
    rw [if_neg hSize, if_neg hSize]
    simp only [h, readStrings_independent h]
  · rw [length_eq_zero_iff.mp h.symm]

/-- All chunks are read in full. -/
theorem readInputByChunk_independent {file : RandomAccessFile} {offset size bufferSize : Nat}
    (hBuffer : 0 < bufferSize) {turns bytesRead : Nat} {old old' : Platform.Bytes}
    (hTurns : size ≤ turns + bytesRead) (hOld : old.length = size) (hOld' : old'.length = size)
    (hSame : old.take bytesRead = old'.take bytesRead) (hLe : bytesRead ≤ size) :
    readInputByChunk file offset size bufferSize turns bytesRead old =
      readInputByChunk file offset size bufferSize turns bytesRead old' := by
  have hDone : size ≤ bytesRead → old = old' := by
    intro hDone
    rw [take_of_length_le (by omega), take_of_length_le (by omega)] at hSame
    exact hSame
  induction turns generalizing bytesRead old old' with
  | zero =>
    rw [readInputByChunk, readInputByChunk, hDone (by omega)]
  | succ turns ih =>
    rw [readInputByChunk, readInputByChunk]
    split
    · rename_i hEnd
      rw [hDone hEnd]
    · rename_i hMore
      simp only
      generalize hResult : file.read (offset + bytesRead) (min bufferSize (size - bytesRead)) =
        result
      by_cases hLength : result.2.length = min bufferSize (size - bytesRead)
      · have hNext : ∀ buffer : Platform.Bytes, buffer.length = size →
            (writeAt buffer bytesRead result.2).length = size := by
          intro buffer hBufferSize
          rw [length_writeAt (by omega), hBufferSize]
        have hTake : ∀ buffer : Platform.Bytes, buffer.length = size →
            (writeAt buffer bytesRead result.2).take (bytesRead + result.2.length) =
              buffer.take bytesRead ++ result.2 := by
          intro buffer hBufferSize
          rw [writeAt, take_left']
          rw [length_append, length_take]
          omega
        have hSame' : (writeAt old bytesRead result.2).take (bytesRead + result.2.length) =
            (writeAt old' bytesRead result.2).take (bytesRead + result.2.length) := by
          rw [hTake old hOld, hTake old' hOld', hSame]
        have hRest := ih (by omega) (hNext old hOld) (hNext old' hOld') hSame' (by omega) ?_
        · simp only [hRest]
        · intro hEnd
          rw [take_of_length_le (by rw [hNext old hOld]; omega),
            take_of_length_le (by rw [hNext old' hOld']; omega)] at hSame'
          exact hSame'
      · simp [check, hLength, bind, Except.bind]

theorem Destination.numElements_eq (h : Destination entry t) (h' : Destination entry t') :
    t.numElements = t'.numElements := by
  rw [Tensor.numElements, Tensor.numElements, h.shape, h'.shape]

namespace Destination

variable (h : Destination entry t)

include h

theorem kind : (∃ size, memcpySizes.lookup entry.dtype = some size) ∨ entry.dtype = dtString ∨
    entry.dtype = dtResource := by
  obtain ⟨hDtype, -, hSized⟩ := h
  unfold Tensor.Sized at hSized
  rw [hDtype] at hSized
  split at hSized
  · obtain ⟨size, hLookup, -⟩ := hSized
    exact Or.inl ⟨size, hLookup⟩
  · exact Or.inr (Or.inl hSized.1)
  · exact Or.inr (Or.inr hSized)

theorem plain {size : Nat} (hLookup : memcpySizes.lookup entry.dtype = some size) :
    ∃ data, t.buf = .plain data ∧ data.length = t.numElements * size := by
  obtain ⟨hDtype, -, hSized⟩ := h
  unfold Tensor.Sized at hSized
  rw [hDtype] at hSized
  split at hSized
  · rename_i data hBuf
    obtain ⟨size', hLookup', hLength⟩ := hSized
    obtain rfl := some.inj (hLookup.symm.trans hLookup')
    exact ⟨data, hBuf, hLength⟩
  · rw [hSized.1] at hLookup
    cases hLookup
  · rw [hSized] at hLookup
    cases hLookup

theorem strings (hString : entry.dtype = dtString) :
    ∃ elems, t.buf = .strings elems ∧ elems.length = t.numElements := by
  obtain ⟨hDtype, -, hSized⟩ := h
  unfold Tensor.Sized at hSized
  rw [hDtype, hString] at hSized
  split at hSized
  · obtain ⟨size, hLookup, -⟩ := hSized
    cases hLookup
  · rename_i elems hBuf
    exact ⟨elems, hBuf, hSized.2⟩
  · cases hSized

theorem handles (hResource : entry.dtype = dtResource) : t.buf = .handles := by
  obtain ⟨hDtype, -, hSized⟩ := h
  unfold Tensor.Sized at hSized
  rw [hDtype, hResource] at hSized
  split at hSized
  · obtain ⟨size, hLookup, -⟩ := hSized
    cases hLookup
  · cases hSized.1
  · rename_i hBuf
    exact hBuf

theorem newTensor_eq : ∃ new, m.newTensor entry.dtype entry.shape = some new ∧
    Destination entry new ∧ new.stringBytes = 0 := by
  unfold Machine.newTensor
  rcases h.kind with ⟨size, hLookup⟩ | hString | hResource
  · rw [hLookup]
    exact ⟨_, rfl, ⟨rfl, rfl, size, hLookup, m.uninitialized_length _⟩, rfl⟩
  · rw [hString]
    refine ⟨_, rfl, ⟨hString.symm, rfl, rfl, length_replicate⟩, ?_⟩
    simp [Tensor.stringBytes]
  · rw [hResource]
    exact ⟨_, rfl, ⟨hResource.symm, rfl, rfl⟩, rfl⟩

theorem totalBytes_plain {size : Nat} (hLookup : memcpySizes.lookup entry.dtype = some size) :
    m.totalBytes t = t.numElements * size := by
  obtain ⟨data, hBuf, hLength⟩ := h.plain hLookup
  unfold Machine.totalBytes
  rw [hBuf]
  split
  · rename_i hNone
    rw [hNone, zero_mul]
  · exact hLength

theorem totalBytes_eq (h' : Destination entry t') (hString : entry.dtype ≠ dtString) :
    m.totalBytes t = m.totalBytes t' := by
  rcases h.kind with ⟨size, hLookup⟩ | hString' | hResource
  · rw [h.totalBytes_plain hLookup, h'.totalBytes_plain hLookup, h.numElements_eq h']
  · exact absurd hString' hString
  · unfold Machine.totalBytes
    rw [h.handles hResource, h'.handles hResource, h.numElements_eq h']

theorem lowerBound_eq (hString : entry.dtype = dtString) :
    lowerBound m t = t.numElements + t.stringBytes := by
  obtain ⟨elems, hBuf, hLength⟩ := h.strings hString
  unfold lowerBound Machine.totalBytes Tensor.stringBytes
  rw [hBuf]
  split
  · rename_i hNone
    rw [hNone, length_eq_zero_iff] at hLength
    simp [hNone, hLength]
  · generalize m.sizeofString * t.numElements = header
    simp only
    omega

theorem strings_of_bytes (hBytes : t.stringBytes ≠ 0) :
    entry.dtype = dtString ∧ t.numElements ≠ 0 := by
  rcases h.kind with ⟨size, hLookup⟩ | hString | hResource
  · obtain ⟨data, hBuf, -⟩ := h.plain hLookup
    rw [Tensor.stringBytes, hBuf] at hBytes
    cases hBytes rfl
  · obtain ⟨elems, hBuf, hLength⟩ := h.strings hString
    refine ⟨hString, ?_⟩
    intro hNone
    rw [hNone, length_eq_zero_iff] at hLength
    rw [Tensor.stringBytes, hBuf, hLength] at hBytes
    exact hBytes rfl
  · rw [Tensor.stringBytes, h.handles hResource] at hBytes
    cases hBytes rfl

end Destination

theorem checkSize_independent (h : Destination entry t) (h' : Destination entry t')
    (hFits : Fits entry t) (hFits' : Fits entry t') :
    checkSize m reader entry t = checkSize m reader entry t' := by
  unfold checkSize
  split
  · rename_i hString
    rw [h.totalBytes_eq h' hString]
  · rename_i hString
    have hString := not_not.mp hString
    have hCount := h.numElements_eq h'
    rw [h.lowerBound_eq hString, h'.lowerBound_eq hString, hCount]
    rcases hFits with hNone | hFits
    · rcases hFits' with hNone' | hFits'
      · rw [hNone, hNone']
      · rw [check, check, if_pos (decide_eq_true (by omega)), if_pos (decide_eq_true hFits')]
    · rw [check, check, if_pos (decide_eq_true (hCount ▸ hFits)), if_pos]
      apply decide_eq_true
      rcases hFits' with hNone' | hFits' <;> omega

theorem checkSize_eq_ok (h : checkSize m reader entry t = .ok ()) :
    if entry.dtype = dtString then lowerBound m t ≤ entry.byteSize
    else entry.byteSize = m.totalBytes t := by
  unfold checkSize at h
  split at h
  · rename_i hString
    rw [if_neg hString]
    exact of_decide_eq_true (check_eq_ok.mp h)
  · rename_i hString
    rw [if_pos (not_not.mp hString)]
    exact of_decide_eq_true (check_eq_ok.mp h)

theorem restore_independent (h : Destination entry t) (h' : Destination entry t')
    (hOk : checkSize m reader entry t = .ok ()) (s : InputBuffer) :
    restore extend entry t s = restore extend entry t' s := by
  have hCount := h.numElements_eq h'
  have hSize := checkSize_eq_ok hOk
  unfold restore dataTypeCanUseMemcpy
  rcases h.kind with ⟨size, hLookup⟩ | hString | hResource
  · obtain ⟨data, hBuf, hLength⟩ := h.plain hLookup
    obtain ⟨data', hBuf', hLength'⟩ := h'.plain hLookup
    have hString : entry.dtype ≠ dtString := by
      intro hString
      rw [hString] at hLookup
      cases hLookup
    rw [if_neg hString, h.totalBytes_plain hLookup] at hSize
    rw [hCount] at hLength hSize
    rw [hBuf, hBuf']
    have hChunks : ∀ bufferSize, 0 < bufferSize →
        readInputByChunk s.file entry.offset.toUInt64.toNat entry.byteSize bufferSize
            entry.byteSize 0 data =
          readInputByChunk s.file entry.offset.toUInt64.toNat entry.byteSize bufferSize
            entry.byteSize 0 data' :=
      fun bufferSize hBuffer => readInputByChunk_independent hBuffer (le_refl _)
        (hLength.trans hSize.symm) (hLength'.trans hSize.symm) rfl (zero_le _)
    simp only
    rw [hChunks _ (by decide)]
  · obtain ⟨elems, hBuf, hLength⟩ := h.strings hString
    obtain ⟨elems', hBuf', hLength'⟩ := h'.strings hString
    rw [if_pos hString, h.lowerBound_eq hString] at hSize
    have hSome : entry.size.toUInt64 ≠ 0 ∨ elems = [] := by
      apply Decidable.or_iff_not_imp_left.mpr
      intro hZero
      rw [BundleEntryProto.byteSize, not_not.mp hZero] at hSize
      apply eq_nil_of_length_eq_zero
      rw [hLength]
      exact le_zero.mp (le_of_add_right_le hSize)
    rw [hBuf, hBuf']
    simp only
    rw [readStringTensor_independent (hLength.trans (hCount.trans hLength'.symm)) hSome]
  · rw [h.handles hResource, h'.handles hResource]

theorem getInto_independent (h : Destination entry t) (h' : Destination entry t')
    (hFits : Fits entry t) (hFits' : Fits entry t') :
    getInto m extend reader entry t = getInto m extend reader entry t' := by
  unfold getInto
  rw [checkSize_independent h h' hFits hFits']
  cases hCheck : checkSize m reader entry t' with
  | error failure => rfl
  | ok u =>
    have hRestore : restore extend entry t = restore extend entry t' :=
      funext (restore_independent h h' ((checkSize_independent h h' hFits hFits').trans hCheck))
    simp only [hRestore, h.dtype, h'.dtype, h.shape, h'.shape]

end Independence

section Refusal

variable {m : Machine} {extend : UInt32 → Platform.Bytes → UInt32} {reader : BundleReader}
variable {entry : BundleEntryProto} {t : Tensor}

def Failure.isSizeBelow : Failure → Bool
  | .sizeBelow _ _ _ => true
  | _ => false

abbrev Accepts {α : Type} (x : Except Failure α) : Prop :=
  Fallible.Ends (fun _ => True) (fun failure => failure.isSizeBelow = false) x

theorem Accepts.bind {α β : Type} {x : Except Failure α} {f : α → Except Failure β}
    (h : Accepts x) (hNext : ∀ a, Accepts (f a)) : Accepts (x >>= f) :=
  Fallible.Ends.bind h (fun a _ _ => hNext a)

theorem accepts_mapError {α : Type} (x : Except Status α) : Accepts (x.mapError .file) := by
  cases x with
  | error status => rfl
  | ok a => trivial

theorem accepts_check {condition : Bool} {failure : Failure}
    (h : failure.isSizeBelow = false) : Accepts (check condition failure) := by
  cases condition with
  | true => trivial
  | false => exact h

theorem readLengths_accepts (n : Nat) (s : InputBuffer) : Accepts (readLengths n s) := by
  induction n generalizing s with
  | zero => trivial
  | succ n ih =>
    apply (accepts_mapError _).bind
    intro length
    apply (ih _).bind
    intro lengths
    trivial

theorem readStrings_accepts (strings : List (UInt32 × Platform.Bytes)) (crc : UInt32)
    (s : InputBuffer) : Accepts (readStrings extend strings crc s) := by
  induction strings generalizing crc s with
  | nil => trivial
  | cons first rest ih =>
    apply (accepts_mapError _).bind
    intro read
    apply (ih _ _).bind
    intro strings
    trivial

theorem readStringTensor_accepts (offset size : UInt64) (destination : List Platform.Bytes)
    (s : InputBuffer) : Accepts (readStringTensor extend offset size destination s) := by
  unfold readStringTensor
  split
  · trivial
  · apply (accepts_mapError _).bind
    intro s
    apply (readLengths_accepts _ s).bind
    intro lengths
    apply Accepts.bind (accepts_check rfl)
    intro u
    apply (accepts_mapError _).bind
    intro read
    apply Accepts.bind (accepts_check rfl)
    intro u
    exact readStrings_accepts _ _ _

theorem readInputByChunk_accepts (file : RandomAccessFile) (offset size bufferSize : Nat)
    (turns bytesRead : Nat) (destination : Platform.Bytes) :
    Accepts (readInputByChunk file offset size bufferSize turns bytesRead destination) := by
  induction turns generalizing bytesRead destination with
  | zero => trivial
  | succ turns ih =>
    rw [readInputByChunk]
    split
    · trivial
    · apply Accepts.bind (accepts_check rfl)
      intro u
      apply Accepts.bind (accepts_check rfl)
      intro u
      exact ih _ _

theorem restore_accepts (s : InputBuffer) : Accepts (restore extend entry t s) := by
  unfold restore
  split
  · split
    · apply (readInputByChunk_accepts _ _ _ _ _ _ _).bind
      intro data
      trivial
    · rfl
  · split
    · apply (readStringTensor_accepts _ _ _ _).bind
      intro strings
      trivial
    · rfl

theorem getInto_ends (t : Tensor) : Fallible.Ends (fun _ => True)
    (fun failure => failure.isSizeBelow →
      failure = .sizeBelow reader.key entry.size (lowerBound m t))
    (getInto m extend reader entry t) := by
  have hAccepted : ∀ failure : Failure, failure.isSizeBelow = false →
      failure.isSizeBelow → failure = .sizeBelow reader.key entry.size (lowerBound m t) := by
    intro failure hOther hBelow
    rw [hOther] at hBelow
    cases hBelow
  apply Fallible.Ends.bind (Q := fun _ => True)
  · unfold checkSize check
    split <;> split
    · trivial
    · exact hAccepted _ rfl
    · trivial
    · exact fun _ => rfl
  · intro u _ _
    apply Fallible.Ends.mono (Q := fun _ => True) _ (fun _ _ => trivial) hAccepted
    apply (accepts_mapError _).bind
    intro file
    apply (accepts_mapError _).bind
    intro buffered
    apply (restore_accepts _).bind
    intro restored
    apply Accepts.bind (accepts_check rfl)
    intro u
    trivial

theorem target_of_elements (h : t.numElements ≠ 0) : target m entry t = .ok t :=
  if_neg h

theorem target_of_none {new : Tensor} (h : t.numElements = 0)
    (hNew : m.newTensor entry.dtype entry.shape = some new) : target m entry t = .ok new := by
  rw [target, if_pos h, hNew]

theorem getValue_of_not_fits (h : Destination entry t) (hFits : ¬ Fits entry t) :
    getValue m extend reader entry t =
      .error (.sizeBelow reader.key entry.size (t.numElements + t.stringBytes)) := by
  rw [Fits, not_or] at hFits
  obtain ⟨hString, hSome⟩ := h.strings_of_bytes hFits.1
  rw [getValue, target_of_elements hSome, Fallible.ok_bind, getInto, checkSize,
    if_neg (not_not.mpr hString), h.lowerBound_eq hString, check, if_neg]
  · rfl
  · exact fun hLe => hFits.2 (of_decide_eq_true hLe)

theorem getValue_of_fits (h : Destination entry t) (hFits : Fits entry t) :
    getValue m extend reader entry t = getValue m extend reader entry emptyTensor := by
  obtain ⟨new, hNew, hDestination, hBytes⟩ := h.newTensor_eq (m := m)
  rw [getValue, getValue, target_of_none (t := emptyTensor) rfl hNew]
  rcases Nat.eq_zero_or_pos t.numElements with hNone | hSome
  · rw [target_of_none hNone hNew]
  · rw [target_of_elements (ne_of_gt hSome)]
    exact getInto_independent h hDestination hFits (Or.inl hBytes)

theorem getValue_fits_iff (h : Destination entry t) :
    getValue m extend reader entry t = getValue m extend reader entry emptyTensor ↔
      Fits entry t := by
  constructor
  · intro hSame
    by_contra hFits
    have hString := (h.strings_of_bytes (fun hNone => hFits (Or.inl hNone))).1
    obtain ⟨new, hNew, hDestination, hBytes⟩ := h.newTensor_eq (m := m)
    rw [getValue_of_not_fits h hFits, getValue, target_of_none rfl hNew] at hSame
    have hBound := (getInto_ends new).of_error hSame.symm rfl
    rw [hDestination.lowerBound_eq hString, hBytes, hDestination.numElements_eq h] at hBound
    injection hBound with _ _ hBound
    exact hFits (Or.inl (add_left_cancel hBound))
  · exact getValue_of_fits h

/-- The old contents of two tensors are of no matter where the entry is as long as their strings. -/
theorem getValue_independent_iff {first second : Tensor} (h : Destination entry first)
    (h' : Destination entry second) :
    (getValue m extend reader entry first = getValue m extend reader entry second ∧
      getValue m extend reader entry first = getValue m extend reader entry emptyTensor) ↔
      Fits entry first ∧ Fits entry second := by
  constructor
  · rintro ⟨hSame, hEmpty⟩
    exact ⟨(getValue_fits_iff h).mp hEmpty, (getValue_fits_iff h').mp (hSame.symm.trans hEmpty)⟩
  · rintro ⟨hFits, hFits'⟩
    have hEmpty :
        getValue m extend reader entry first = getValue m extend reader entry emptyTensor :=
      getValue_of_fits h hFits
    exact ⟨hEmpty.trans (getValue_of_fits h' hFits').symm, hEmpty⟩

end Refusal

def crcBit (crc : UInt32) : UInt32 :=
  if crc &&& 1 = 1 then (crc >>> 1) ^^^ 0x82f63b78 else crc >>> 1

/-- `crc32c::Extend`, whose tables hold what the turns over the bits of a byte give. -/
def crcExtend (crc : UInt32) (data : Platform.Bytes) : UInt32 :=
  data.foldl (fun crc byte => crcBit^[8] (crc ^^^ byte.toUInt32)) (crc ^^^ 0xffffffff) ^^^
    0xffffffff

def gnuMachine : Machine := ⟨32, 56, fun n => replicate n 0, fun _ => length_replicate⟩

/-- One string `a`: its length, the checksum of the length and its byte. -/
def storedBytes : Platform.Bytes :=
  [1] ++ encodeFixed32 (mask (crcExtend 0 [1, 0, 0, 0])) ++ [97]

def storedReader : BundleReader where
  newRandomAccessFile _ := .ok (wholeFile storedBytes)
  pre := "model.ckpt"
  numShards := 1
  key := "names"

def storedEntry : BundleEntryProto where
  dtype := dtString
  shape := [1]
  shardId := 0
  offset := 0
  size := 6
  crc32c := mask (crcExtend 0 ([1, 0, 0, 0] ++ storedBytes.tail))

/-- The tensor holds `a` or a string of eight bytes. -/
def holding (bytes : Platform.Bytes) : Tensor := ⟨dtString, [1], .strings [bytes]⟩

theorem holding_destination (bytes : Platform.Bytes) : Destination storedEntry (holding bytes) :=
  ⟨rfl, rfl, rfl, rfl⟩

theorem holding_independent :
    getValue gnuMachine crcExtend storedReader storedEntry (holding [98, 99]) =
        getValue gnuMachine crcExtend storedReader storedEntry (holding [98, 99, 100]) ∧
      getValue gnuMachine crcExtend storedReader storedEntry (holding [98, 99]) =
        getValue gnuMachine crcExtend storedReader storedEntry emptyTensor :=
  (getValue_independent_iff (holding_destination _) (holding_destination _)).mpr
    ⟨.inr (by decide), .inr (by decide)⟩

/-- The string of eight bytes is not replaced by the shorter one. -/
theorem holding_refused :
    Destination storedEntry (holding (replicate 8 98)) ∧
      getValue gnuMachine crcExtend storedReader storedEntry (holding (replicate 8 98)) =
        .error (.sizeBelow "names" 6 9) ∧
      getValue gnuMachine crcExtend storedReader storedEntry emptyTensor = .ok (holding [97]) :=
  ⟨⟨rfl, rfl, rfl, rfl⟩, by decide +kernel, by decide +kernel⟩

end TensorFlowOnSpark.Bundle
