import TensorFlowOnSpark.Lib.BigEndian
import TensorFlowOnSpark.Platform.PosixFile
import TensorFlowOnSpark.Lib.Fallible

/-!
# Writing a compressed stream

`SnappyOutputBuffer` of `lib/io/snappy/snappy_outputbuffer.cc`, on a file to which every
`Append` succeeds.
-/

namespace TensorFlowOnSpark.Io

open BigEndian List Nat Option

/-- `port::Snappy_Compress` and its inverses. -/
structure Snappy where
  compress : Platform.Bytes → Platform.Bytes
  uncompressedLength : Platform.Bytes → Option Nat
  uncompress : Platform.Bytes → Option Platform.Bytes
  uncompressedLength_compress (data : Platform.Bytes) :
    uncompressedLength (compress data) = some data.length
  uncompress_compress (data : Platform.Bytes) : uncompress (compress data) = some data

structure Sink where
  output : Platform.Bytes
  file : Platform.Bytes

/-- `input` is unread in the input buffer, from `readBytes` on. -/
structure SnappyOutputBuffer where
  input : Platform.Bytes
  readBytes : Nat
  sink : Sink

namespace SnappyOutputBuffer

def empty : SnappyOutputBuffer := ⟨[], 0, ⟨[], []⟩⟩

section Model

variable (snappy : Snappy) (inputCapacity outputCapacity : Nat)

def flushOutputBufferToFile (s : Sink) : Sink := ⟨[], s.file ++ s.output⟩

/-- A turn of the loop of `AddToOutputBuffer` that copies some bytes. -/
def addSome (bytesToCopy : Nat) (s : Sink) (data : Platform.Bytes) : Sink :=
  let s := { s with output := s.output ++ data.take bytesToCopy }
  if outputCapacity - s.output.length = 0 then flushOutputBufferToFile s else s

/-- The loop of `AddToOutputBuffer`; `none` when it does not end. A turn that does not copy a
byte leaves all as it was, so that the loop ends within as many turns as there are bytes or
never. -/
def addLoop : Nat → Sink → Platform.Bytes → Option Sink
  | turns, s, data =>
    if data.length = 0 then some s
    else
      let bytesToCopy := min data.length (outputCapacity - s.output.length)
      match turns with
      | 0 => none
      | turns + 1 =>
        addLoop turns (addSome outputCapacity bytesToCopy s data) (data.drop bytesToCopy)

def addToOutputBuffer (s : Sink) (data : Platform.Bytes) : Option Sink :=
  addLoop outputCapacity data.length s data

/-- `Deflate` of the bytes that `next_in_` points to. -/
def deflate (s : Sink) (data : Platform.Bytes) : Option Sink :=
  if data = [] then some s
  else do
    let output := snappy.compress data
    let s ← addToOutputBuffer outputCapacity s (bigEndian 4 output.length)
    addToOutputBuffer outputCapacity s output

def deflateBuffered (s : SnappyOutputBuffer) : Option SnappyOutputBuffer := do
  let sink ← deflate snappy outputCapacity s.sink s.input
  some ⟨[], 0, sink⟩

def addToInputBuffer (s : SnappyOutputBuffer) (data : Platform.Bytes) : SnappyOutputBuffer :=
  { s with
    input := s.input ++ data
    readBytes :=
      if data.length > inputCapacity - (s.readBytes + s.input.length) then 0 else s.readBytes }

def write (s : SnappyOutputBuffer) (data : Platform.Bytes) : Option SnappyOutputBuffer :=
  if data.length ≤ inputCapacity - s.input.length then some (addToInputBuffer inputCapacity s data)
  else do
    let s ← deflateBuffered snappy outputCapacity s
    if data.length ≤ inputCapacity - s.input.length then
      some (addToInputBuffer inputCapacity s data)
    else
      let sink ← deflate snappy outputCapacity s.sink data
      some ⟨[], 0, sink⟩

def flush (s : SnappyOutputBuffer) : Option SnappyOutputBuffer := do
  let s ← deflateBuffered snappy outputCapacity s
  some { s with sink := flushOutputBufferToFile s.sink }

/-- Some calls of `Write` and then `Flush`. -/
def writes : List Platform.Bytes → SnappyOutputBuffer → Option SnappyOutputBuffer
  | [], s => flush snappy outputCapacity s
  | data :: rest, s => do
    let s ← write snappy inputCapacity outputCapacity s data
    writes rest s

end Model

def blockOf (data : Platform.Bytes) : List Platform.Bytes := if data = [] then [] else [data]

/-- The blocks that are compressed, one by one, for calls of `Write` with some pending bytes. -/
def blocks (inputCapacity : Nat) (pending : Platform.Bytes) :
    List Platform.Bytes → List Platform.Bytes
  | [] => blockOf pending
  | data :: rest =>
    if pending.length + data.length ≤ inputCapacity then blocks inputCapacity (pending ++ data) rest
    else
      blockOf pending ++
        if data.length ≤ inputCapacity then blocks inputCapacity data rest
        else data :: blocks inputCapacity [] rest

def frame (snappy : Snappy) (data : Platform.Bytes) : Platform.Bytes :=
  bigEndian 4 (snappy.compress data).length ++ snappy.compress data

theorem mem_blockOf {data b : Platform.Bytes} (h : b ∈ blockOf data) : b ≠ [] := by
  rw [blockOf] at h
  split at h
  · cases h
  · rename_i hNonempty
    rw [mem_singleton.mp h]
    exact hNonempty

variable {ws : List Platform.Bytes}

theorem mem_blocks_ne_nil {inputCapacity : Nat} {pending : Platform.Bytes} {b : Platform.Bytes}
    (h : b ∈ blocks inputCapacity pending ws) :
    b ≠ [] := by
  induction ws generalizing pending with
  | nil => exact mem_blockOf h
  | cons data rest ih =>
    rw [blocks] at h
    split at h
    · exact ih h
    · rw [mem_append] at h
      rcases h with hPending | hRest
      · exact mem_blockOf hPending
      · split at hRest
        · exact ih hRest
        · rename_i hLarge
          rcases mem_cons.mp hRest with rfl | hMore
          · rintro rfl
            exact hLarge (zero_le _)
          · exact ih hMore

theorem flatten_blockOf (data : Platform.Bytes) : (blockOf data).flatten = data := by
  rw [blockOf]
  split
  · rename_i hEmpty
    rw [hEmpty]
    rfl
  · exact append_nil data

theorem flatten_blocks (inputCapacity : Nat) (pending : Platform.Bytes) (ws : List Platform.Bytes) :
    (blocks inputCapacity pending ws).flatten = pending ++ ws.flatten := by
  induction ws generalizing pending with
  | nil => rw [blocks, flatten_blockOf, flatten_nil, append_nil]
  | cons data rest ih =>
    rw [blocks]
    split
    · rw [ih, append_assoc, flatten_cons]
    · rw [flatten_append, flatten_blockOf, flatten_cons]
      split
      · rw [ih]
      · rw [flatten_cons, ih]
        rfl

section Ends

variable {snappy : Snappy} {inputCapacity outputCapacity : Nat}

theorem deflate_blockOf (s : Sink) (data : Platform.Bytes) :
    (blockOf data).foldlM (deflate snappy outputCapacity) s =
      deflate snappy outputCapacity s data := by
  rw [blockOf]
  split
  · rename_i hEmpty
    rw [deflate, if_pos hEmpty]
    rfl
  · exact bind_pure _

theorem writes_eq {s : SnappyOutputBuffer} (h : s.input.length ≤ inputCapacity) :
    writes snappy inputCapacity outputCapacity ws s =
      ((blocks inputCapacity s.input ws).foldlM (deflate snappy outputCapacity) s.sink).map
        fun sink => ⟨[], 0, flushOutputBufferToFile sink⟩ := by
  induction ws generalizing s with
  | nil =>
    rw [writes, blocks, deflate_blockOf, flush, deflateBuffered]
    cases deflate snappy outputCapacity s.sink s.input <;> rfl
  | cons data rest ih =>
    rw [writes, blocks, write]
    split
    · rename_i hFits
      rw [if_pos (by omega)]
      refine ih (s := addToInputBuffer inputCapacity s data) ?_
      simp only [addToInputBuffer, length_append]
      omega
    · rename_i hFull
      rw [if_neg (by omega), foldlM_append, deflate_blockOf, deflateBuffered]
      cases deflate snappy outputCapacity s.sink s.input with
      | none => rfl
      | some sink =>
        simp only [bind_eq_bind, bind_some, length_nil, Nat.sub_zero]
        split
        · rename_i hFits
          exact ih (s := addToInputBuffer inputCapacity ⟨[], 0, sink⟩ data) hFits
        · rw [foldlM_cons]
          cases deflate snappy outputCapacity sink data with
          | none => rfl
          | some sink => exact ih (s := ⟨[], 0, sink⟩) (zero_le _)

structure Holds (outputCapacity : Nat) (s : Sink) (stream : Platform.Bytes) : Prop where
  stream : s.file ++ s.output = stream
  output : s.output.length < outputCapacity

variable {s : Sink} {stream data : Platform.Bytes}

theorem addSome_holds (data : Platform.Bytes) {n : Nat} (h : Holds outputCapacity s stream)
    (hn : min data.length (outputCapacity - s.output.length) = n) :
    Holds outputCapacity (addSome outputCapacity n s data) (stream ++ data.take n) := by
  have hRoom := h.output
  have hLength : (s.output ++ data.take n).length = s.output.length + n := by
    rw [length_append, length_take]
    omega
  rw [← h.stream, addSome]
  dsimp only
  split
  · constructor
    · simp [flushOutputBufferToFile]
    · exact lt_of_le_of_lt (zero_le _) hRoom
  · constructor
    · simp
    · simp only [hLength]
      omega

theorem addLoop_holds {turns : Nat}
    (h : Holds outputCapacity s stream) (hTurns : data.length ≤ turns) :
    ∃ s', addLoop outputCapacity turns s data = some s' ∧
      Holds outputCapacity s' (stream ++ data) := by
  induction turns generalizing s stream data with
  | zero =>
    obtain rfl := length_eq_zero_iff.mp (le_zero.mp hTurns)
    exact ⟨s, rfl, by rw [append_nil]; exact h⟩
  | succ turns ih =>
    rw [addLoop]
    split
    · rename_i hEmpty
      rw [length_eq_zero_iff.mp hEmpty, append_nil]
      exact ⟨s, rfl, h⟩
    · have hRoom := h.output
      have hNext := addSome_holds data h rfl
      generalize hn : min data.length (outputCapacity - s.output.length) = n at *
      have hLess : (data.drop n).length ≤ turns := by
        rw [length_drop]
        omega
      obtain ⟨s', hRun, hEnd⟩ := ih hNext hLess
      rw [append_assoc, take_append_drop] at hEnd
      exact ⟨s', hRun, hEnd⟩

theorem deflate_holds (h : Holds outputCapacity s stream) (hData : data ≠ []) :
    ∃ s', deflate snappy outputCapacity s data = some s' ∧
      Holds outputCapacity s' (stream ++ frame snappy data) := by
  obtain ⟨s₁, hHeader, h₁⟩ :=
    addLoop_holds h (le_refl (bigEndian 4 (snappy.compress data).length).length)
  obtain ⟨s₂, hBlock, h₂⟩ := addLoop_holds h₁ (le_refl (snappy.compress data).length)
  refine ⟨s₂, ?_, ?_⟩
  · rw [deflate, if_neg hData]
    simp only [addToOutputBuffer, hHeader]
    exact hBlock
  · rw [append_assoc] at h₂
    exact h₂

theorem foldlM_deflate_holds {bs : List Platform.Bytes} (hBlocks : ∀ b ∈ bs, b ≠ [])
    (h : Holds outputCapacity s stream) :
    ∃ s', bs.foldlM (deflate snappy outputCapacity) s = some s' ∧
      Holds outputCapacity s' (stream ++ bs.flatMap (frame snappy)) := by
  induction bs generalizing s stream with
  | nil => exact ⟨s, rfl, by rw [flatMap_nil, append_nil]; exact h⟩
  | cons b rest ih =>
    obtain ⟨s₁, hDeflate, h₁⟩ : ∃ s₁, deflate snappy outputCapacity s b = some s₁ ∧
        Holds outputCapacity s₁ (stream ++ frame snappy b) :=
      deflate_holds h (hBlocks b mem_cons_self)
    obtain ⟨s₂, hRest, h₂⟩ := ih (fun b' hb' => hBlocks b' (mem_cons_of_mem _ hb')) h₁
    rw [append_assoc] at h₂
    refine ⟨s₂, ?_, h₂⟩
    rw [foldlM_cons, hDeflate]
    exact hRest

theorem addLoop_stuck {turns : Nat} (hs : s.output = [])
    (hData : data ≠ []) : addLoop 0 turns s data = none := by
  have hSome : data.length ≠ 0 := fun hEmpty => hData (length_eq_zero_iff.mp hEmpty)
  induction turns generalizing s with
  | zero => rw [addLoop, if_neg hSome]
  | succ turns ih =>
    rw [addLoop, if_neg hSome]
    simp only [Nat.zero_sub, min_zero]
    refine ih ?_
    simp [addSome, flushOutputBufferToFile]

theorem deflate_stuck (hs : s.output = [])
    (hData : data ≠ []) : deflate snappy 0 s data = none := by
  rw [deflate, if_neg hData]
  simp only [addToOutputBuffer]
  rw [addLoop_stuck hs (by simp [bigEndian])]
  rfl

variable (snappy inputCapacity outputCapacity) in
theorem writes_empty (ws : List Platform.Bytes) :
    (writes snappy inputCapacity outputCapacity ws empty).map (fun s => s.sink.file) =
      if blocks inputCapacity [] ws ≠ [] ∧ outputCapacity = 0 then none
      else some ((blocks inputCapacity [] ws).flatMap (frame snappy)) := by
  rw [writes_eq (Nat.zero_le _), Option.map_map]
  split
  · rename_i hStuck
    obtain ⟨hSome, rfl⟩ := hStuck
    obtain ⟨b, rest, hBlocks⟩ := exists_cons_of_ne_nil hSome
    have hb : b ≠ [] := mem_blocks_ne_nil (hBlocks ▸ mem_cons_self)
    simp only [empty]
    rw [hBlocks, foldlM_cons, deflate_stuck rfl hb]
    rfl
  · rename_i hEnds
    cases outputCapacity with
    | zero =>
      have hNone : blocks inputCapacity [] ws = [] := by
        by_contra hSome
        exact hEnds ⟨hSome, rfl⟩
      simp only [empty]
      rw [hNone]
      rfl
    | succ room =>
      have hSome : ∀ b ∈ blocks inputCapacity [] ws, b ≠ [] := fun _ h => mem_blocks_ne_nil h
      have hEmpty : Holds (room + 1) empty.sink [] := ⟨rfl, Nat.succ_pos room⟩
      obtain ⟨s', hRun, hHolds⟩ : ∃ s',
          (blocks inputCapacity [] ws).foldlM (deflate snappy (room + 1)) empty.sink = some s' ∧
            Holds (room + 1) s' ([] ++ (blocks inputCapacity [] ws).flatMap (frame snappy)) :=
        foldlM_deflate_holds hSome hEmpty
      simp only [empty] at hRun ⊢
      rw [hRun, Option.map_some, ← nil_append (List.flatMap _ _), ← hHolds.stream]
      rfl

end Ends

end SnappyOutputBuffer

open Framework Platform Bytes Fallible

/-- `input` and `output` are what is unread in the two buffers. -/
structure SnappyInputBuffer where
  filePos : Nat
  input : Bytes
  output : Bytes

namespace SnappyInputBuffer

def empty : SnappyInputBuffer := ⟨0, [], []⟩

/-- `undefined` is a block that does not fit in the output buffer: it is written behind it. -/
inductive Failure where
  | status (s : Status)
  | undefined

section Model

variable (snappy : Snappy) (file : PosixRandomAccessFile) (inputCapacity outputCapacity : Nat)

/-- `int bytes_to_read` of `ReadFromFile`, as the `size_t` that it is for `Read`. -/
def bytesToRead (s : SnappyInputBuffer) : Nat :=
  (((inputCapacity : Int) - s.input.length).bmod (2 ^ 32) % 2 ^ 64).toNat

def readFromFile (s : SnappyInputBuffer) : Except Failure SnappyInputBuffer :=
  let (status, data) := file.read s.filePos (bytesToRead inputCapacity s)
  if status ≠ .ok ∧ status.code? ≠ some .outOfRange then .error (.status status)
  else if data.length = 0 then .error (.status (Errors.outOfRange "EOF reached"))
  else .ok { s with filePos := s.filePos + data.length, input := s.input ++ data }

/-- A turn of the loops of `ReadCompressedBlockLength`; `char` is signed. -/
def shiftIn (length : UInt32) (b : UInt8) : UInt32 :=
  (length <<< 8) ||| b.toInt8.toInt32.toUInt32

/-- The bytes that `ReadCompressedBlockLength` takes the next one from. -/
def fillInput (s : SnappyInputBuffer) : Except Failure SnappyInputBuffer :=
  if s.input.length = 0 then readFromFile file inputCapacity s else .ok s

def readCompressedBlockLength (bytesToRead : Nat) (length : UInt32) (s : SnappyInputBuffer) :
    Except Failure (UInt32 × SnappyInputBuffer) :=
  match bytesToRead with
  | 0 => .ok (length, s)
  | bytesToRead + 1 => do
    let s ← fillInput file inputCapacity s
    readCompressedBlockLength bytesToRead (shiftIn length (s.input.headD 0))
      { s with input := s.input.drop 1 }

/-- The part of `Inflate` that gets the whole block into the input buffer. -/
def readBlock (length : Nat) (s : SnappyInputBuffer) : Except Failure SnappyInputBuffer :=
  if s.input.length < length then do
    let s ← readFromFile file inputCapacity s
    if s.input.length < length then
      if inputCapacity < length then
        .error (.status (Errors.resourceExhausted
          (s!"Input buffer(size: {inputCapacity} bytes) too small. Should be larger than " ++
            s!"{length} bytes.")))
      else
        .error (.status (Errors.dataLoss
          s!"Failed to read {length} bytes from file. Possible data corruption."))
    else .ok s
  else .ok s

/-- The rest of `Inflate`, for an output buffer that is read to its end. -/
def uncompressBlock (length : Nat) (s : SnappyInputBuffer) : Except Failure SnappyInputBuffer :=
  match snappy.uncompressedLength (s.input.take length) with
  | none =>
    .error (.status (Errors.dataLoss "Parsing error in Snappy_GetUncompressedLength"))
  | some uncompressedLength =>
    if outputCapacity < uncompressedLength then .error .undefined
    else
      match snappy.uncompress (s.input.take length) with
      | none => .error (.status (Errors.dataLoss "Snappy_Uncompress failed"))
      | some output => .ok { s with input := s.input.drop length, output := output }

def inflate (s : SnappyInputBuffer) : Except Failure SnappyInputBuffer := do
  let (length, s) ← readCompressedBlockLength file inputCapacity 4 0 s
  let s ← readBlock file inputCapacity length.toNat s
  uncompressBlock snappy outputCapacity length.toNat s

def readBytesFromCache (bytesToRead : Nat) (s : SnappyInputBuffer) :
    Bytes × SnappyInputBuffer :=
  (s.output.take bytesToRead, { s with output := s.output.drop bytesToRead })

def unread (s : SnappyInputBuffer) : Nat :=
  file.contents.length - s.filePos + s.input.length

variable {snappy file inputCapacity outputCapacity}
variable {s s' : SnappyInputBuffer}

theorem readFromFile_unread (h : readFromFile file inputCapacity s = .ok s') :
    s'.unread file = s.unread file ∧ s'.input ≠ [] := by
  have hRead : (file.read s.filePos (bytesToRead inputCapacity s)).2.length ≤
      file.contents.length - s.filePos := by
    by_cases hn : bytesToRead inputCapacity s ≤ PosixRandomAccessFile.ssizeMax
    · rw [PosixRandomAccessFile.read_eq hn, slice, length_take, length_drop]
      exact min_le_right _ _
    · rw [PosixRandomAccessFile.read, if_pos (Nat.lt_of_not_le hn)]
      exact zero_le _
  rw [readFromFile] at h
  dsimp only at h hRead
  split at h
  · cases h
  · split at h
    · cases h
    · rename_i hSome
      cases h
      constructor
      · simp only [unread, length_append]
        omega
      · intro hNone
        rw [append_eq_nil_iff] at hNone
        exact hSome (length_eq_zero_iff.mpr hNone.2)

theorem fillInput_unread (h : fillInput file inputCapacity s = .ok s') :
    s'.unread file = s.unread file ∧ s'.input ≠ [] := by
  rw [fillInput] at h
  split at h
  · exact readFromFile_unread h
  · rename_i hSome
    cases h
    exact ⟨rfl, fun hNone => hSome (length_eq_zero_iff.mpr hNone)⟩

theorem readCompressedBlockLength_unread {bytes : Nat} {length length' : UInt32}
    (h : readCompressedBlockLength file inputCapacity bytes length s = .ok (length', s')) :
    s'.unread file + bytes = s.unread file := by
  induction bytes generalizing length s with
  | zero =>
    cases h
    rfl
  | succ bytes ih =>
    obtain ⟨s₁, hFill, hRest⟩ := bind_eq_ok.mp h
    have hFilled := fillInput_unread hFill
    have hPos := length_pos_iff.mpr hFilled.2
    have hTaken := ih hRest
    simp only [unread, length_drop] at hTaken hFilled ⊢
    omega

theorem readBlock_unread {length : Nat}
    (h : readBlock file inputCapacity length s = .ok s') : s'.unread file = s.unread file := by
  rw [readBlock] at h
  split at h
  · obtain ⟨s₁, hFill, hRest⟩ := bind_eq_ok.mp h
    split at hRest
    · split at hRest <;> cases hRest
    · cases hRest
      exact (readFromFile_unread hFill).1
  · cases h
    rfl

theorem uncompressBlock_unread {length : Nat}
    (h : uncompressBlock snappy outputCapacity length s = .ok s') :
    s'.unread file ≤ s.unread file := by
  rw [uncompressBlock] at h
  split at h
  · cases h
  · split at h
    · cases h
    · split at h
      · cases h
      · cases h
        simp only [unread, length_drop]
        omega

theorem inflate_unread (h : inflate snappy file inputCapacity outputCapacity s = .ok s') :
    s'.unread file < s.unread file := by
  obtain ⟨⟨length, s₁⟩, hLength, hMore⟩ := bind_eq_ok.mp h
  obtain ⟨s₂, hBlock, hRest⟩ := bind_eq_ok.mp hMore
  have h₁ := readCompressedBlockLength_unread hLength
  have h₂ := readBlock_unread hBlock
  have h₃ : s'.unread file ≤ s₂.unread file := uncompressBlock_unread hRest
  omega

variable (snappy file inputCapacity outputCapacity)

/-- The loop of `ReadNBytes`, in which `result` is what has been read. -/
def readLoop (bytesToRead : Nat) (result : Bytes) (s : SnappyInputBuffer) :
    Except Failure (Bytes × SnappyInputBuffer) :=
  if bytesToRead = 0 then .ok (result, s)
  else
    match _h : inflate snappy file inputCapacity outputCapacity s with
    | .error failure => .error failure
    | .ok s' =>
      let cached := readBytesFromCache bytesToRead s'
      readLoop (bytesToRead - cached.1.length) (result ++ cached.1) cached.2
termination_by s.unread file
decreasing_by
  have hLess := inflate_unread _h
  exact hLess

def readNBytes (bytesToRead : Nat) (s : SnappyInputBuffer) :
    Except Failure (Bytes × SnappyInputBuffer) :=
  let cached := readBytesFromCache bytesToRead s
  readLoop snappy file inputCapacity outputCapacity (bytesToRead - cached.1.length) cached.1
    cached.2

def reads : List Nat → SnappyInputBuffer → Except Failure (List Bytes)
  | [], _ => .ok []
  | n :: sizes, s => do
    let (data, s) ← readNBytes snappy file inputCapacity outputCapacity n s
    let more ← reads sizes s
    .ok (data :: more)

end Model

end SnappyInputBuffer

end TensorFlowOnSpark.Io
