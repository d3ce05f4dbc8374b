import TensorFlowOnSpark.Lib.CodedInputStream
import TensorFlowOnSpark.Platform.PosixFile

/-!
# Buffered reading

`InputBuffer` of `lib/io/inputbuffer.cc`, over a file that keeps what `RandomAccessFile`
of `platform/file_system.h` says of `Read`.
-/

namespace TensorFlowOnSpark.Io

open Framework Platform List

structure RandomAccessFile where
  read : Nat → Nat → Status × Bytes
  read_ok : ∀ offset n, (read offset n).1 = .ok → (read offset n).2.length = n

theorem length_read_ok {contents : Bytes} (offset n : Nat)
    (hOk : (if n = 0 ∨ offset + n ≤ contents.length then Status.ok
      else Errors.outOfRange "Read less bytes than requested") = .ok) :
    (Bytes.slice contents offset n).length = n := by
  split at hOk
  · simp only [Bytes.slice, length_take, length_drop]
    omega
  · cases hOk

def wholeFile (contents : Bytes) : RandomAccessFile where
  read offset n :=
    (if n = 0 ∨ offset + n ≤ contents.length then .ok
      else Errors.outOfRange "Read less bytes than requested", Bytes.slice contents offset n)
  read_ok := length_read_ok

/-- `[buf_, pos_)` is `behind` and `[pos_, limit_)` is `ahead`; they end at `file_pos_`. -/
structure InputBuffer where
  file : RandomAccessFile
  size : Nat
  filePos : Nat
  behind : Bytes
  ahead : Bytes
  size_pos : 0 < size

namespace InputBuffer

def new (file : RandomAccessFile) (size : Nat) (h : 0 < size) : InputBuffer :=
  ⟨file, size, 0, [], [], h⟩

def fillBuffer (s : InputBuffer) : Status × InputBuffer :=
  let data := s.file.read s.filePos s.size
  (data.1, { s with filePos := s.filePos + data.2.length, behind := [], ahead := data.2 })

def refill (status : Status) (s : InputBuffer) : Status × InputBuffer :=
  if s.ahead.isEmpty then s.fillBuffer else (status, s)

def advance (s : InputBuffer) (n : Nat) : InputBuffer :=
  { s with behind := s.behind ++ s.ahead.take n, ahead := s.ahead.drop n }

/-- The loop of `ReadNBytes`, in which `result` has been read; each turn reads a byte or is the
last. -/
def readLoop (bytesToRead : Nat) : Nat → Bytes → Status → InputBuffer →
    Status × Bytes × InputBuffer
  | 0, result, status, s => (status, result, s)
  | turns + 1, result, status, s =>
    if bytesToRead ≤ result.length then (status, result, s)
    else
      let filled := s.refill status
      if filled.2.ahead.isEmpty then (filled.1, result, filled.2)
      else
        let bytesToCopy := min filled.2.ahead.length (bytesToRead - result.length)
        readLoop bytesToRead turns (result ++ filled.2.ahead.take bytesToCopy) filled.1
          (filled.2.advance bytesToCopy)

/-- `ReadNBytes`, of which no caller asks for a negative number. -/
def readNBytes (bytesToRead : Nat) (s : InputBuffer) :
    Except Status (Bytes × InputBuffer) :=
  let read := readLoop bytesToRead bytesToRead [] .ok s
  if read.1 = .ok ∨ read.1.code? = some .outOfRange ∧ read.2.1.length = bytesToRead then .ok read.2
  else .error read.1

def readVarint32Fallback :
    Nat → UInt32 → UInt32 → InputBuffer → Except Status (UInt32 × InputBuffer)
  | 0, _, _, _ => .error (Errors.dataLoss "Stored data is too large to be a varint32.")
  | turns + 1, shift, result, s =>
    match s.readNBytes 1 with
    | .error status => .error status
    | .ok (bytes, s) =>
      let scratch := bytes.headD 0
      let result := result ||| ((scratch &&& 127).toUInt32 <<< shift)
      if scratch &&& 128 = 0 then .ok (result, s)
      else readVarint32Fallback turns (shift + 7) result s

def kMaxVarint32Bytes : Nat := 5

def readVarint32 (s : InputBuffer) : Except Status (UInt32 × InputBuffer) :=
  if kMaxVarint32Bytes ≤ s.ahead.length then
    match Wire.varint kMaxVarint32Bytes s.ahead with
    | none => .error (Errors.outOfRange "Parsed past limit.")
    | some (n, rest) => .ok (UInt32.ofNat n, s.advance (s.ahead.length - rest.length))
  else readVarint32Fallback 5 0 0 s

def seek (position : Int) (s : InputBuffer) : Except Status InputBuffer :=
  if position < 0 then
    .error (Errors.invalidArgument s!"Seeking to a negative position: {position}")
  else
    let held := s.behind ++ s.ahead
    let bufpos : Int := s.filePos - held.length
    if bufpos ≤ position ∧ position < s.filePos then
      .ok { s with
        behind := held.take (position - bufpos).toNat
        ahead := held.drop (position - bufpos).toNat }
    else .ok { s with filePos := position.toNat, behind := [], ahead := [] }

def tell (s : InputBuffer) : Int := s.filePos - s.ahead.length

theorem refill_ok {status status' : Status} {s s' : InputBuffer}
    (h : s.refill status = (status', s')) (hEmpty : s'.ahead.isEmpty) : status' ≠ .ok := by
  unfold refill at h
  split at h
  · obtain ⟨rfl, rfl⟩ := Prod.mk.inj h
    intro hOk
    have hLength := s.file.read_ok s.filePos s.size hOk
    have hSize := s.size_pos
    rw [List.isEmpty_iff] at hEmpty
    change (s.file.read s.filePos s.size).2 = [] at hEmpty
    rw [hEmpty, length_nil] at hLength
    omega
  · rename_i hSome
    obtain ⟨rfl, rfl⟩ := Prod.mk.inj h
    exact absurd hEmpty hSome

theorem readLoop_length {bytesToRead turns : Nat} {result : Bytes} {status : Status}
    {s : InputBuffer} (hTurns : bytesToRead ≤ turns + result.length)
    (hLe : result.length ≤ bytesToRead)
    (hOk : (readLoop bytesToRead turns result status s).1 = .ok) :
    (readLoop bytesToRead turns result status s).2.1.length = bytesToRead := by
  induction turns generalizing result status s with
  | zero =>
    rw [readLoop]
    simp only
    omega
  | succ turns ih =>
    rw [readLoop] at hOk ⊢
    split at hOk
    · rename_i hDone
      rw [if_pos hDone]
      simp only
      omega
    · rename_i hMore
      rw [if_neg hMore]
      simp only at hOk ⊢
      split at hOk
      · rename_i hEmpty
        exact absurd hOk (refill_ok rfl hEmpty)
      · rename_i hSome
        rw [if_neg hSome]
        rw [List.isEmpty_iff, ← length_eq_zero_iff] at hSome
        apply ih _ _ hOk
        · simp only [length_append, length_take]
          omega
        · simp only [length_append, length_take]
          omega

theorem readNBytes_length {bytesToRead : Nat} {s s' : InputBuffer} {bytes : Bytes}
    (h : s.readNBytes bytesToRead = .ok (bytes, s')) : bytes.length = bytesToRead := by
  unfold readNBytes at h
  simp only at h
  split at h
  · rename_i hGood
    have hRead := Except.ok.inj h
    rcases hGood with hOk | ⟨-, hLength⟩
    · have hLength := readLoop_length (by simp) (by simp) hOk
      rw [hRead] at hLength
      exact hLength
    · rw [hRead] at hLength
      exact hLength
  · cases h

end InputBuffer

end TensorFlowOnSpark.Io
