import TensorFlowOnSpark.Io.SnappyOutputBuffer

/-!
# Reading a compressed stream back

The reader takes the blocks of the stream as the writer made them, one by one, as long as it
reads their lengths right and has the room for them.
-/

namespace TensorFlowOnSpark.Io

open BigEndian Framework Platform Bytes Fallible List Nat Int

namespace SnappyInputBuffer

variable {length : UInt32} {b : UInt8} {bytes : List UInt8}

theorem toNat_shiftIn_low (hLength : length.toNat < 2 ^ 24)
    (hb : b < 128) : (shiftIn length b).toNat = 256 * length.toNat + b.toNat := by
  have hByte : b.toInt8.toInt32.toUInt32.toNat = b.toNat := by
    have hMsb : b.toBitVec.msb = false := by
      rw [BitVec.msb_eq_false_iff_two_mul_lt]
      have hLess := UInt8.lt_iff_toNat_lt.mp hb
      have h128 : (128 : UInt8).toNat = 128 := rfl
      rw [UInt8.toNat_toBitVec]
      omega
    have hSigned : b.toInt8.toInt32.toUInt32.toBitVec = b.toBitVec.signExtend 32 := rfl
    rw [← UInt32.toNat_toBitVec, hSigned, BitVec.signExtend_eq_setWidth_of_msb_false hMsb,
      BitVec.toNat_setWidth, UInt8.toNat_toBitVec]
    have := b.toNat_lt
    omega
  rw [shiftIn, UInt32.toNat_or, hByte, UInt32.toNat_shiftLeft]
  have hShift : length.toNat <<< ((8 : UInt32).toNat % 32) % 2 ^ 32 = length.toNat <<< 8 := by
    have h8 : (8 : UInt32).toNat % 32 = 8 := rfl
    rw [h8]
    omega
  rw [hShift, ← shiftLeft_add_eq_or_of_lt b.toNat_lt]
  omega

theorem testBit_shiftIn (length : UInt32) (b : UInt8) {i : Nat} (hi : i < 32) :
    (shiftIn length b).toNat.testBit i =
      ((decide (8 ≤ i) && length.toNat.testBit (i - 8)) ||
        if i < 8 then b.toNat.testBit i else b.toBitVec.msb) := by
  have hSigned : b.toInt8.toInt32.toUInt32.toNat = (b.toBitVec.signExtend 32).toNat := rfl
  have h8 : (8 : UInt32).toNat % 32 = 8 := rfl
  rw [shiftIn, UInt32.toNat_or, hSigned, UInt32.toNat_shiftLeft, testBit_or, testBit_mod_two_pow]
  have hBit : (b.toBitVec.signExtend 32).toNat.testBit i = (b.toBitVec.signExtend 32).getLsbD i :=
    rfl
  rw [hBit, BitVec.getLsbD_signExtend]
  simp [hi]
  rfl

theorem foldl_shiftIn_low (h : ∀ b ∈ bytes, b < 128)
    (hFits : 256 ^ bytes.length * (length.toNat + 1) ≤ 2 ^ 32) :
    (bytes.foldl shiftIn length).toNat =
      bytes.foldl (fun n b => 256 * n + b.toNat) length.toNat := by
  induction bytes generalizing length with
  | nil => rfl
  | cons b rest ih =>
    rw [forall_mem_cons] at h
    have hPow : 256 ^ (rest.length + 1) = 256 * 256 ^ rest.length := by
      rw [pow_succ, mul_comm]
    have hPos : 0 < 256 ^ rest.length := Nat.pow_pos (by decide)
    rw [length_cons, hPow, mul_assoc] at hFits
    have hLength : length.toNat < 2 ^ 24 := by
      have := Nat.le_mul_of_pos_left (length.toNat + 1) hPos
      omega
    have hNext := toNat_shiftIn_low hLength h.1
    rw [foldl_cons, foldl_cons, ← hNext]
    apply ih h.2
    rw [hNext]
    have hByte := b.toNat_lt
    calc 256 ^ rest.length * (256 * length.toNat + b.toNat + 1)
        ≤ 256 ^ rest.length * (256 * (length.toNat + 1)) := mul_le_mul_left _ (by omega)
      _ = 256 * (256 ^ rest.length * (length.toNat + 1)) := mul_left_comm _ _ _
      _ ≤ 2 ^ 32 := hFits

variable {n : Nat}

theorem foldl_shiftIn_bigEndian (hn : n < 2 ^ 31) (h : ∀ b ∈ bigEndian 4 n, b < 128)
    : ((bigEndian 4 n).foldl shiftIn 0).toNat = n := by
  rw [foldl_shiftIn_low h (by rw [length_bigEndian]; decide)]
  exact fromBytes_bigEndian (by omega)

theorem testBit_foldl_shiftIn {k i : Nat}
    (h : ∀ j, k ≤ j → j < 32 → length.toNat.testBit j) (hLow : k + 8 * bytes.length ≤ i)
    (hi : i < 32) : (bytes.foldl shiftIn length).toNat.testBit i := by
  induction bytes generalizing length k with
  | nil => exact h i hLow hi
  | cons b rest ih =>
    rw [length_cons] at hLow
    apply ih (k := k + 8) _ (by omega)
    intro j hj hj'
    rw [testBit_shiftIn _ _ hj', h (j - 8) (by omega) (by omega)]
    simp only [Bool.and_true, Bool.or_eq_true, decide_eq_true_eq]
    exact Or.inl (by omega)

theorem testBit_foldl_shiftIn_high (hb : b ∈ bytes) (hHigh : 128 ≤ b) (hBytes : bytes.length ≤ 4)
    (length : UInt32) : (bytes.foldl shiftIn length).toNat.testBit 31 := by
  obtain ⟨before, after, rfl⟩ := append_of_mem hb
  rw [foldl_append, foldl_cons]
  rw [length_append, length_cons] at hBytes
  apply testBit_foldl_shiftIn (k := 7) _ (by omega) (by omega)
  intro j hj hj'
  have hMsb : b.toBitVec.msb := by
    rw [BitVec.msb_eq_true_iff_two_mul_ge, UInt8.toNat_toBitVec]
    have := UInt8.le_iff_toNat_le.mp hHigh
    have h128 : (128 : UInt8).toNat = 128 := rfl
    omega
  rw [testBit_shiftIn _ _ hj']
  split
  · rename_i hSmall
    obtain rfl : j = 7 := by omega
    have hBit : b.toNat.testBit 7 = b.toBitVec.msb := by
      rfl
    rw [hBit, hMsb, Bool.or_true]
  · rw [hMsb, Bool.or_true]

theorem foldl_shiftIn_high (hb : b ∈ bigEndian 4 n) (hHigh : 128 ≤ b) :
    2 ^ 31 ≤ ((bigEndian 4 n).foldl shiftIn 0).toNat :=
  ge_two_pow_of_testBit
    (testBit_foldl_shiftIn_high hb hHigh (le_of_eq (length_bigEndian 4 n)) 0)

def room (inputCapacity : Nat) : Nat := ((inputCapacity : Int).bmod (2 ^ 32)).toNat

theorem room_lt (inputCapacity : Nat) : room inputCapacity < 2 ^ 31 := by
  have hLess := bmod_lt (x := inputCapacity) (m := 2 ^ 32) (Nat.two_pow_pos 32)
  unfold room
  omega

section Reader

variable {snappy : Snappy} {file : PosixRandomAccessFile} {inputCapacity outputCapacity : Nat}

/-- `stream` is what follows in the input buffer and then in the file. -/
structure Ahead (file : PosixRandomAccessFile) (inputCapacity : Nat) (s : SnappyInputBuffer)
    (stream : Bytes) : Prop where
  stream : s.input ++ file.contents.drop s.filePos = stream
  input : s.input.length ≤ room inputCapacity

variable {s : SnappyInputBuffer} {stream data : Platform.Bytes} {blocks : List Platform.Bytes}

theorem bytesToRead_eq (hRoom : 0 < room inputCapacity) (h : s.input.length ≤ room inputCapacity) :
    bytesToRead inputCapacity s = room inputCapacity - s.input.length := by
  have hLess := room_lt inputCapacity
  have hInt : ((inputCapacity : Int) - s.input.length).bmod (2 ^ 32) =
      room inputCapacity - s.input.length := by
    unfold room at *
    have hPos : 0 < (inputCapacity : Int).bmod (2 ^ 32) := by omega
    rw [← bmod_sub_bmod, toNat_of_nonneg hPos.le]
    exact bmod_eq_of_le (by omega) (by omega)
  unfold bytesToRead
  omega

theorem readFromFile_no_room (hRoom : room inputCapacity = 0)
    (h : s.input = []) : ∃ failure, readFromFile file inputCapacity s = .error failure := by
  have hMin := le_bmod (x := inputCapacity) (m := 2 ^ 32) (Nat.two_pow_pos 32)
  have hBytes : bytesToRead inputCapacity s = 0 ∨
      PosixRandomAccessFile.ssizeMax < bytesToRead inputCapacity s := by
    unfold bytesToRead PosixRandomAccessFile.ssizeMax
    unfold room at hRoom
    rw [h, length_nil, Int.natCast_zero, sub_zero]
    omega
  have hNone : (file.read s.filePos (bytesToRead inputCapacity s)).2.length = 0 := by
    rcases hBytes with hZero | hMany
    · rw [hZero, PosixRandomAccessFile.read_eq (zero_le _)]
      rfl
    · rw [PosixRandomAccessFile.read, if_pos hMany]
      rfl
  rw [readFromFile]
  dsimp only
  split <;> exact ⟨_, rfl⟩

section

variable (hRoom : 0 < room inputCapacity)
include hRoom

theorem readFromFile_ahead (h : Ahead file inputCapacity s stream) :
    Ends
      (fun s' => Ahead file inputCapacity s' stream ∧
        s'.input.length = min (room inputCapacity) stream.length)
      (fun _ => s.input.length = room inputCapacity ∨ s.input.length = stream.length)
      (readFromFile file inputCapacity s) := by
  have hInput := h.input
  have hLess := room_lt inputCapacity
  have hBytes := bytesToRead_eq hRoom hInput
  have hLength : s.input.length + (file.contents.drop s.filePos).length = stream.length := by
    rw [← h.stream, length_append]
  have hTake : (slice file.contents s.filePos (bytesToRead inputCapacity s)).length =
      min (bytesToRead inputCapacity s) (file.contents.drop s.filePos).length :=
    length_take
  rw [readFromFile, PosixRandomAccessFile.read_eq (by
    rw [PosixRandomAccessFile.ssizeMax]
    omega)]
  dsimp only
  rw [if_neg (by split <;> simp [Errors.outOfRange, Status.code?])]
  split
  · exact Ends.error (by omega)
  · apply Ends.ok
    constructor
    · constructor
      · rw [← h.stream, append_assoc, ← drop_drop, hTake, slice]
        congr 1
        rcases le_total (bytesToRead inputCapacity s) (file.contents.drop s.filePos).length
          with hSome | hAll
        · rw [min_eq_left hSome, take_append_drop]
        · rw [min_eq_right hAll, take_of_length_le hAll, drop_length, append_nil]
      · rw [length_append]
        omega
    · rw [length_append]
      omega

theorem fillInput_ahead (h : Ahead file inputCapacity s stream) (hMore : stream ≠ []) :
    ∃ s', fillInput file inputCapacity s = .ok s' ∧ Ahead file inputCapacity s' stream ∧
      s'.input ≠ [] := by
  have hSome := length_pos_iff.mpr hMore
  rw [fillInput]
  split
  · rename_i hEmpty
    have hEnds := readFromFile_ahead hRoom h
    cases hRead : readFromFile file inputCapacity s with
    | error failure =>
      have hNot := hEnds.of_error hRead
      omega
    | ok s' =>
      obtain ⟨hAhead, hLength⟩ := hEnds.of_ok hRead
      exact ⟨s', rfl, hAhead, length_pos_iff.mp (by omega)⟩
  · rename_i hCached
    exact ⟨s, rfl, h, fun hNone => hCached (length_eq_zero_iff.mpr hNone)⟩

theorem readCompressedBlockLength_ahead {header : List UInt8} (length : UInt32)
    (h : Ahead file inputCapacity s (header ++ stream)) :
    ∃ s', readCompressedBlockLength file inputCapacity header.length length s =
        .ok (header.foldl shiftIn length, s') ∧
      Ahead file inputCapacity s' stream := by
  induction header generalizing length s with
  | nil => exact ⟨s, rfl, h⟩
  | cons b rest ih =>
    obtain ⟨s₁, hFill, h₁, hSome⟩ := fillInput_ahead hRoom h (cons_ne_nil _ _)
    obtain ⟨first, more, hInput⟩ := exists_cons_of_ne_nil hSome
    have hStream := h₁.stream
    have hLength := h₁.input
    rw [hInput] at hStream
    obtain ⟨rfl, hMore⟩ := cons.inj hStream
    rw [hInput, length_cons] at hLength
    obtain ⟨s', hRun, hAhead⟩ := ih (shiftIn length first)
      (s := { s₁ with input := more }) ⟨hMore, by dsimp only; omega⟩
    refine ⟨s', ?_, hAhead⟩
    rw [length_cons, readCompressedBlockLength, hFill, ok_bind, hInput]
    exact hRun

theorem readBlock_ahead (h : Ahead file inputCapacity s stream) {length : Nat}
    (hLength : length ≤ room inputCapacity) (hStream : length ≤ stream.length) :
    ∃ s', readBlock file inputCapacity length s = .ok s' ∧ Ahead file inputCapacity s' stream ∧
      length ≤ s'.input.length := by
  rw [readBlock]
  split
  · have hEnds := readFromFile_ahead hRoom h
    cases hRead : readFromFile file inputCapacity s with
    | error failure =>
      have hNot := hEnds.of_error hRead
      omega
    | ok s' =>
      obtain ⟨hAhead, hFilled⟩ := hEnds.of_ok hRead
      refine ⟨s', ?_, hAhead, by omega⟩
      rw [ok_bind, if_neg (by omega)]
  · rename_i hWhole
    exact ⟨s, rfl, h, Nat.le_of_not_lt hWhole⟩

theorem readBlock_fails (h : Ahead file inputCapacity s stream) {length : Nat}
    (hLength : room inputCapacity < length) :
    ∃ failure, readBlock file inputCapacity length s = .error failure := by
  have hInput := h.input
  have hEnds := readFromFile_ahead hRoom h
  rw [readBlock, if_pos (by omega)]
  cases hRead : readFromFile file inputCapacity s with
  | error failure => exact ⟨failure, rfl⟩
  | ok s' =>
    have hFilled := (hEnds.of_ok hRead).2
    rw [ok_bind, if_pos (by omega)]
    split <;> exact ⟨_, rfl⟩

end

theorem uncompressBlock_ahead (h : Ahead file inputCapacity s (snappy.compress data ++ stream))
    (hWhole : (snappy.compress data).length ≤ s.input.length)
    (hOutput : data.length ≤ outputCapacity) :
    ∃ s', uncompressBlock snappy outputCapacity (snappy.compress data).length s = .ok s' ∧
      Ahead file inputCapacity s' stream ∧ s'.output = data := by
  have hInput : s.input.take (snappy.compress data).length = snappy.compress data := by
    rw [← take_append_of_le_length hWhole, h.stream, take_left]
  have hRest : s.input.drop (snappy.compress data).length ++ file.contents.drop s.filePos =
      stream := by
    rw [← drop_append_of_le_length hWhole, h.stream, drop_left]
  refine ⟨{ s with input := s.input.drop (snappy.compress data).length, output := data }, ?_,
    ⟨hRest, ?_⟩, rfl⟩
  · rw [uncompressBlock, hInput, snappy.uncompressedLength_compress]
    dsimp only
    rw [if_neg (not_lt.mpr hOutput), snappy.uncompress_compress]
  · rw [length_drop]
    exact le_trans (sub_le _ _) h.input

/-- What a reader needs of a block: room for it, and a length without a negative `char`. -/
structure Readable (snappy : Snappy) (inputCapacity : Nat) (data : Bytes) : Prop where
  fits : (snappy.compress data).length ≤ room inputCapacity
  length : ∀ b ∈ bigEndian 4 (snappy.compress data).length, b < 128

instance (snappy : Snappy) (inputCapacity : Nat) (data : Bytes) :
    Decidable (Readable snappy inputCapacity data) :=
  haveI : Decidable (∀ b ∈ bigEndian 4 (snappy.compress data).length, b < 128) :=
    decidableBAll _ _
  decidable_of_iff
    ((snappy.compress data).length ≤ room inputCapacity ∧
      ∀ b ∈ bigEndian 4 (snappy.compress data).length, b < 128)
    ⟨fun h => ⟨h.1, h.2⟩, fun h => ⟨h.fits, h.length⟩⟩

theorem inflate_readable (hRoom : 0 < room inputCapacity)
    (h : Ahead file inputCapacity s (SnappyOutputBuffer.frame snappy data ++ stream))
    (hReadable : Readable snappy inputCapacity data) (hOutput : data.length ≤ outputCapacity) :
    ∃ s', inflate snappy file inputCapacity outputCapacity s = .ok s' ∧
      Ahead file inputCapacity s' stream ∧ s'.output = data := by
  have hLength := foldl_shiftIn_bigEndian
    (lt_of_le_of_lt hReadable.fits (room_lt inputCapacity)) hReadable.length
  rw [SnappyOutputBuffer.frame, append_assoc] at h
  obtain ⟨s₁, hHeader, h₁⟩ := readCompressedBlockLength_ahead hRoom 0 h
  rw [length_bigEndian] at hHeader
  obtain ⟨s₂, hBlock, h₂, hWhole⟩ := readBlock_ahead hRoom h₁ hReadable.fits
    (by rw [length_append]; exact le_add_right _ _)
  obtain ⟨s₃, hRest, h₃, hData⟩ := uncompressBlock_ahead h₂ hWhole hOutput
  refine ⟨s₃, ?_, h₃, hData⟩
  rw [inflate, hHeader, ok_bind]
  dsimp only
  rw [hLength, hBlock]
  exact hRest

theorem inflate_not_readable (hRoom : 0 < room inputCapacity)
    (h : Ahead file inputCapacity s (SnappyOutputBuffer.frame snappy data ++ stream))
    (hLength : (snappy.compress data).length < 2 ^ 31)
    (hNot : ¬ Readable snappy inputCapacity data) :
    ∃ failure, inflate snappy file inputCapacity outputCapacity s = .error failure := by
  have hMany : room inputCapacity <
      ((bigEndian 4 (snappy.compress data).length).foldl shiftIn 0).toNat := by
    by_cases hLow : ∀ b ∈ bigEndian 4 (snappy.compress data).length, b < 128
    · rw [foldl_shiftIn_bigEndian hLength hLow]
      exact Nat.lt_of_not_le fun hFits => hNot ⟨hFits, hLow⟩
    · push Not at hLow
      obtain ⟨b, hb, hHigh⟩ := hLow
      exact lt_of_lt_of_le (room_lt inputCapacity) (foldl_shiftIn_high hb (UInt8.not_lt.mp hHigh))
  rw [SnappyOutputBuffer.frame, append_assoc] at h
  obtain ⟨s₁, hHeader, h₁⟩ := readCompressedBlockLength_ahead hRoom 0 h
  obtain ⟨failure, hBlock⟩ := readBlock_fails hRoom h₁ hMany
  rw [length_bigEndian] at hHeader
  refine ⟨failure, ?_⟩
  rw [inflate, hHeader, ok_bind]
  dsimp only
  rw [hBlock]
  rfl

theorem inflate_no_room (hRoom : room inputCapacity = 0) (h : s.input = []) :
    ∃ failure, inflate snappy file inputCapacity outputCapacity s = .error failure := by
  obtain ⟨failure, hRead⟩ : ∃ failure, readFromFile file inputCapacity s = .error failure :=
    readFromFile_no_room hRoom h
  refine ⟨failure, ?_⟩
  rw [inflate, readCompressedBlockLength, fillInput, if_pos (by rw [h]; rfl), hRead]
  rfl

theorem take_cached (output more : Bytes) (n : Nat) :
    output.take n ++ (output.drop n ++ more).take (n - (output.take n).length) =
      (output ++ more).take n := by
  have hTake : (output ++ more).take n = output.take n ++ more.take (n - output.length) :=
    take_append
  rw [length_take, hTake]
  rcases le_total n output.length with hCached | hAll
  · rw [min_eq_left hCached, Nat.sub_self, Nat.sub_eq_zero_of_le hCached, take_zero, take_zero]
  · rw [min_eq_right hAll, drop_eq_nil_of_le hAll, nil_append]

theorem drop_cached (output more : Bytes) (n : Nat) :
    (output.drop n ++ more).drop (n - (output.take n).length) = (output ++ more).drop n := by
  have hDrop : (output ++ more).drop n = output.drop n ++ more.drop (n - output.length) :=
    drop_append
  rw [length_take, hDrop]
  rcases le_total n output.length with hCached | hAll
  · rw [min_eq_left hCached, Nat.sub_self, Nat.sub_eq_zero_of_le hCached, drop_zero, drop_zero]
  · rw [min_eq_right hAll, drop_eq_nil_of_le hAll, nil_append, nil_append]

structure Remains (snappy : Snappy) (file : PosixRandomAccessFile)
    (inputCapacity outputCapacity : Nat) (blocks : List Bytes) (s : SnappyInputBuffer)
    (data : Bytes) : Prop where
  ahead : Ahead file inputCapacity s (blocks.flatMap (SnappyOutputBuffer.frame snappy))
  readable : ∀ b ∈ blocks, Readable snappy inputCapacity b ∧ b.length ≤ outputCapacity
  data : s.output ++ blocks.flatten = data

theorem readLoop_remains (hRoom : 0 < room inputCapacity) (result : Bytes)
    (h : Remains snappy file inputCapacity outputCapacity blocks s data) (hn : n ≤ data.length)
    (hCache : n = 0 ∨ s.output = []) :
    ∃ s' blocks', readLoop snappy file inputCapacity outputCapacity n result s =
        .ok (result ++ data.take n, s') ∧
      Remains snappy file inputCapacity outputCapacity blocks' s' (data.drop n) := by
  induction blocks generalizing n s data result with
  | nil =>
    have hNone : n = 0 := by
      rcases hCache with hZero | hEmpty
      · exact hZero
      · have hData := h.data
        rw [hEmpty] at hData
        rw [← hData] at hn
        exact le_zero.mp hn
    refine ⟨s, [], ?_, by rw [hNone]; exact h⟩
    rw [readLoop, if_pos hNone, hNone, take_zero, append_nil]
  | cons b rest ih =>
    cases n with
    | zero =>
      refine ⟨s, b :: rest, ?_, h⟩
      rw [readLoop, if_pos rfl, take_zero, append_nil]
    | succ m =>
      have hEmpty := hCache.resolve_left (succ_ne_zero m)
      have hData := h.data
      have hAhead := h.ahead
      obtain ⟨hReadable, hOutput⟩ := h.readable b mem_cons_self
      rw [hEmpty, nil_append, flatten_cons] at hData
      obtain ⟨s₁, hInflate, h₁, hCached⟩ := inflate_readable hRoom hAhead hReadable hOutput
      have hNext : Remains snappy file inputCapacity outputCapacity rest
          (readBytesFromCache (m + 1) s₁).2 (b.drop (m + 1) ++ rest.flatten) := by
        refine ⟨⟨h₁.stream, h₁.input⟩, fun b' hb' => h.readable b' (mem_cons_of_mem _ hb'), ?_⟩
        rw [← hCached]
        rfl
      have hLeft : m + 1 - (b.take (m + 1)).length ≤ (b.drop (m + 1) ++ rest.flatten).length := by
        rw [← hData, length_append] at hn
        rw [length_take, length_append]
        omega
      have hDone : m + 1 - (b.take (m + 1)).length = 0 ∨ b.drop (m + 1) = [] := by
        rw [length_take, drop_eq_nil_iff]
        omega
      obtain ⟨s', blocks', hRun, hRemains⟩ := ih (result ++ b.take (m + 1)) hNext hLeft
        (by rw [← hCached] at hDone ⊢; exact hDone)
      rw [append_assoc, take_cached, hData] at hRun
      rw [drop_cached, hData] at hRemains
      refine ⟨s', blocks', ?_, hRemains⟩
      rw [readLoop, if_neg (succ_ne_zero m)]
      split
      · rename_i hFails
        rw [hInflate] at hFails
        cases hFails
      · rename_i hOk
        rw [hInflate] at hOk
        cases hOk
        rw [← hRun, ← hCached]
        rfl

theorem readNBytes_remains (hRoom : 0 < room inputCapacity)
    (h : Remains snappy file inputCapacity outputCapacity blocks s data) (hn : n ≤ data.length) :
    ∃ s' blocks', readNBytes snappy file inputCapacity outputCapacity n s =
        .ok (data.take n, s') ∧
      Remains snappy file inputCapacity outputCapacity blocks' s' (data.drop n) := by
  have hData := h.data
  have hNext : Remains snappy file inputCapacity outputCapacity blocks
      (readBytesFromCache n s).2 (s.output.drop n ++ blocks.flatten) :=
    ⟨⟨h.ahead.stream, h.ahead.input⟩, h.readable, rfl⟩
  have hLeft : n - (s.output.take n).length ≤ (s.output.drop n ++ blocks.flatten).length := by
    rw [← hData, length_append] at hn
    rw [length_take, length_append]
    omega
  have hDone : n - (s.output.take n).length = 0 ∨ s.output.drop n = [] := by
    rw [length_take, drop_eq_nil_iff]
    omega
  obtain ⟨s', blocks', hRun, hRemains⟩ :=
    readLoop_remains hRoom (s.output.take n) hNext hLeft hDone
  rw [take_cached, hData] at hRun
  rw [drop_cached, hData] at hRemains
  exact ⟨s', blocks', hRun, hRemains⟩

def pieces : List Nat → Bytes → List Bytes
  | [], _ => []
  | n :: sizes, data => data.take n :: pieces sizes (data.drop n)

theorem reads_remains (hRoom : 0 < room inputCapacity) {sizes : List Nat}
    (h : Remains snappy file inputCapacity outputCapacity blocks s data)
    (hSizes : sizes.sum ≤ data.length) :
    reads snappy file inputCapacity outputCapacity sizes s = .ok (pieces sizes data) := by
  induction sizes generalizing blocks s data with
  | nil => rfl
  | cons n sizes ih =>
    rw [sum_cons] at hSizes
    obtain ⟨s', blocks', hRead, hRemains⟩ := readNBytes_remains hRoom (n := n) h (by omega)
    have hMore := ih hRemains (by rw [length_drop]; omega)
    rw [reads, hRead, ok_bind]
    dsimp only
    rw [hMore]
    rfl

/-- A block that is not readable is in the way of all that is behind it. -/
theorem readLoop_fails (hRoom : 0 < room inputCapacity)
    (hBlocks : ∀ b ∈ blocks, b ≠ [] ∧ (snappy.compress b).length < 2 ^ 31 ∧
      b.length ≤ outputCapacity)
    (hNot : ∃ b ∈ blocks, ¬ Readable snappy inputCapacity b)
    (h : Ahead file inputCapacity s (blocks.flatMap (SnappyOutputBuffer.frame snappy)))
    (result : Bytes) :
    ∃ failure, readLoop snappy file inputCapacity outputCapacity blocks.flatten.length result s =
      .error failure := by
  induction blocks generalizing s result with
  | nil =>
    obtain ⟨b, hb, -⟩ := hNot
    cases hb
  | cons b rest ih =>
    rw [forall_mem_cons] at hBlocks
    obtain ⟨⟨hSome, hLength, hOutput⟩, hRest⟩ := hBlocks
    have hPos := length_pos_iff.mpr hSome
    have hNonzero : (b :: rest).flatten.length ≠ 0 := by
      rw [flatten_cons, length_append]
      omega
    rw [readLoop, if_neg hNonzero]
    by_cases hReadable : Readable snappy inputCapacity b
    · obtain ⟨s₁, hInflate, h₁, hCached⟩ := inflate_readable hRoom h hReadable hOutput
      obtain ⟨b', hMem, hb'⟩ := hNot
      have hMore : b' ∈ rest := (mem_cons.mp hMem).resolve_left
        (by rintro rfl; exact hb' hReadable)
      split
      · exact ⟨_, rfl⟩
      · rename_i hOk
        rw [hInflate] at hOk
        cases hOk
        have hAll : (readBytesFromCache (b :: rest).flatten.length s₁).1 = b := by
          rw [readBytesFromCache, hCached, flatten_cons, length_append,
            take_of_length_le (le_add_right _ _)]
        dsimp only
        rw [hAll, flatten_cons, length_append, Nat.add_sub_cancel_left]
        exact ih hRest ⟨b', hMore, hb'⟩
          (s := (readBytesFromCache (b.length + rest.flatten.length) s₁).2)
          ⟨h₁.stream, h₁.input⟩ _
    · obtain ⟨failure, hInflate⟩ : ∃ failure,
          inflate snappy file inputCapacity outputCapacity s = .error failure :=
        inflate_not_readable hRoom h hLength hReadable
      split
      · exact ⟨_, rfl⟩
      · rename_i hOk
        rw [hInflate] at hOk
        cases hOk

end Reader

end SnappyInputBuffer

/-- The writer ends, and the reader returns what was written, piece by piece, whatever the
pieces are and however the calls of `pread` go. -/
def RoundTrips (snappy : Snappy) (writerInput writerOutput readerInput readerOutput : Nat)
    (ws : List Bytes) : Prop :=
  ∃ s, SnappyOutputBuffer.writes snappy writerInput writerOutput ws .empty = some s ∧
    ∀ file : PosixRandomAccessFile, file.contents = s.sink.file →
      ∀ sizes : List Nat, sizes.sum ≤ ws.flatten.length →
        SnappyInputBuffer.reads snappy file readerInput readerOutput sizes .empty =
          .ok (SnappyInputBuffer.pieces sizes ws.flatten)

section RoundTrip

open SnappyOutputBuffer SnappyInputBuffer

variable {snappy : Snappy} {writerInput writerOutput readerInput readerOutput : Nat}
  {ws : List Platform.Bytes}

theorem blocks_eq_nil_iff : blocks writerInput [] ws = [] ↔ ws.flatten = [] := by
  have hFlatten := flatten_blocks writerInput [] ws
  rw [nil_append] at hFlatten
  constructor
  · intro hNone
    rw [← hFlatten, hNone]
    rfl
  · intro hNone
    rw [hNone] at hFlatten
    by_contra hSome
    obtain ⟨b, rest, hBlocks⟩ := exists_cons_of_ne_nil hSome
    have hb := mem_blocks_ne_nil (hBlocks ▸ mem_cons_self : b ∈ blocks writerInput [] ws)
    rw [hBlocks, flatten_cons, append_eq_nil_iff] at hFlatten
    exact hb hFlatten.1

variable {file : PosixRandomAccessFile}

theorem ahead_empty {stream : Bytes}
    (h : file.contents = stream) : Ahead file readerInput empty stream :=
  ⟨h, zero_le _⟩

variable (snappy writerInput writerOutput ws) in
theorem writes_file (h : ws.flatten = [] ∨ 0 < writerOutput) :
    ∃ s, writes snappy writerInput writerOutput ws .empty = some s ∧
      s.sink.file = (blocks writerInput [] ws).flatMap (frame snappy) := by
  have hWrites := writes_empty snappy writerInput writerOutput ws
  rw [if_neg, Option.map_eq_some_iff] at hWrites
  · exact hWrites
  · rintro ⟨hSome, hZero⟩
    rcases h with hNone | hPos
    · exact hSome (blocks_eq_nil_iff.mpr hNone)
    · omega

theorem readNBytes_empty (n : Nat) :
    readNBytes snappy file readerInput readerOutput n SnappyInputBuffer.empty =
      readLoop snappy file readerInput readerOutput n [] SnappyInputBuffer.empty := by
  have hCached : readBytesFromCache n SnappyInputBuffer.empty = ([], SnappyInputBuffer.empty) := by
    simp only [readBytesFromCache, SnappyInputBuffer.empty, take_nil, drop_nil]
  rw [readNBytes, hCached]
  rfl

theorem reads_nothing {sizes : List Nat} (hSizes : sizes.sum ≤ 0) :
    reads snappy file readerInput readerOutput sizes .empty = .ok (pieces sizes []) := by
  induction sizes with
  | nil => rfl
  | cons n sizes ih =>
    rw [sum_cons] at hSizes
    obtain rfl : n = 0 := by omega
    have hMore := ih (by omega)
    rw [reads, readNBytes_empty, readLoop, if_pos rfl, ok_bind]
    dsimp only
    rw [hMore]
    rfl

theorem roundTrips_empty (h : ws.flatten = []) :
    RoundTrips snappy writerInput writerOutput readerInput readerOutput ws := by
  obtain ⟨s, hWrites, -⟩ := writes_file snappy writerInput writerOutput ws (Or.inl h)
  refine ⟨s, hWrites, ?_⟩
  intro file hFile sizes hSizes
  rw [h] at hSizes ⊢
  exact reads_nothing hSizes

theorem roundTrips_readable (hReader : ∀ b ∈ blocks writerInput [] ws, b.length ≤ readerOutput)
    (hWriter : 0 < writerOutput) (hRoom : 0 < room readerInput)
    (hReadable : ∀ b ∈ blocks writerInput [] ws, Readable snappy readerInput b) :
    RoundTrips snappy writerInput writerOutput readerInput readerOutput ws := by
  obtain ⟨s, hWrites, hStream⟩ := writes_file snappy writerInput writerOutput ws (Or.inr hWriter)
  refine ⟨s, hWrites, ?_⟩
  intro file hFile sizes hSizes
  have hRemains : Remains snappy file readerInput readerOutput (blocks writerInput [] ws)
      empty ws.flatten :=
    ⟨ahead_empty (hFile.trans hStream), fun b hb => ⟨hReadable b hb, hReader b hb⟩,
      flatten_blocks writerInput [] ws⟩
  exact reads_remains hRoom hRemains hSizes

theorem not_roundTrips
    (hLengths : ∀ b ∈ blocks writerInput [] ws, (snappy.compress b).length < 2 ^ 31)
    (hReader : ∀ b ∈ blocks writerInput [] ws, b.length ≤ readerOutput)
    (hSome : ws.flatten ≠ [])
    (hNot : ¬ (0 < writerOutput ∧ 0 < room readerInput ∧
      ∀ b ∈ blocks writerInput [] ws, Readable snappy readerInput b)) :
    ¬ RoundTrips snappy writerInput writerOutput readerInput readerOutput ws := by
  rintro ⟨s, hWrites, hReads⟩
  have hWriter : 0 < writerOutput := by
    have hFile := writes_empty snappy writerInput writerOutput ws
    rw [hWrites] at hFile
    split at hFile
    · cases hFile
    · rename_i hEnds
      exact pos_of_ne_zero fun hZero =>
        hEnds ⟨fun hNone => hSome (blocks_eq_nil_iff.mp hNone), hZero⟩
  obtain ⟨s', hWrites', hStream⟩ :=
    writes_file snappy writerInput writerOutput ws (Or.inr hWriter)
  obtain rfl := Option.some.inj (hWrites.symm.trans hWrites')
  -- Reading all there is fails.
  have hAll := hReads ⟨"", s.sink.file, fun _ => 0⟩ rfl [ws.flatten.length] (by simp)
  have hLoop : ∃ failure, readLoop snappy ⟨"", s.sink.file, fun _ => 0⟩ readerInput readerOutput
      ws.flatten.length [] empty = .error failure := by
    rcases Nat.eq_zero_or_pos (room readerInput) with hNone | hRoom
    · obtain ⟨failure, hInflate⟩ : ∃ failure, inflate snappy ⟨"", s.sink.file, fun _ => 0⟩
          readerInput readerOutput empty = .error failure :=
        inflate_no_room hNone rfl
      rw [readLoop, if_neg (fun hZero => hSome (length_eq_zero_iff.mp hZero))]
      split
      · exact ⟨_, rfl⟩
      · rename_i hOk
        rw [hInflate] at hOk
        cases hOk
    · have hBlock : ∃ b ∈ blocks writerInput [] ws, ¬ Readable snappy readerInput b := by
        by_contra hNone
        push Not at hNone
        exact hNot ⟨hWriter, hRoom, hNone⟩
      have hAhead : Ahead ⟨"", s.sink.file, fun _ => 0⟩ readerInput empty
          ((blocks writerInput [] ws).flatMap (frame snappy)) := ahead_empty hStream
      have hFails := readLoop_fails hRoom
        (fun b hb => ⟨mem_blocks_ne_nil hb, hLengths b hb, hReader b hb⟩) hBlock hAhead []
      rw [flatten_blocks] at hFails
      exact hFails
  obtain ⟨failure, hFails⟩ := hLoop
  rw [reads, readNBytes_empty, hFails] at hAll
  cases hAll

/-- What is written can be read when it is nothing, or when the writer has an output buffer and
every block is readable. -/
theorem snappyBuffers_roundTrip_iff (snappy : Snappy)
    (writerInput writerOutput readerInput readerOutput : Nat) (ws : List Bytes)
    (hLengths : ∀ b ∈ blocks writerInput [] ws, (snappy.compress b).length < 2 ^ 31)
    (hReader : ∀ b ∈ blocks writerInput [] ws, b.length ≤ readerOutput) :
    RoundTrips snappy writerInput writerOutput readerInput readerOutput ws ↔
      ws.flatten = [] ∨
        (0 < writerOutput ∧ 0 < room readerInput ∧
          ∀ b ∈ blocks writerInput [] ws, Readable snappy readerInput b) := by
  constructor
  · intro h
    by_contra hNot
    rw [not_or] at hNot
    exact not_roundTrips hLengths hReader hNot.1 hNot.2 h
  · rintro (hNone | ⟨hWriter, hRoom, hReadable⟩)
    · exact roundTrips_empty hNone
    · exact roundTrips_readable hReader hWriter hRoom hReadable

end RoundTrip

/-- What is before at most 127 bytes in which nothing is repeated: their number, then the tag of
a literal. Other bytes are marked as stored. -/
def literalHeader (length : Nat) : Bytes :=
  if length ≤ 60 then [UInt8.ofNat length, UInt8.ofNat (4 * (length - 1))]
  else if length < 128 then [UInt8.ofNat length, 240, UInt8.ofNat (length - 1)]
  else [255]

def literalHeaderLength (first : UInt8) : Nat :=
  if first ≤ 60 then 2 else if first < 128 then 3 else 1

def literalOf (compressed : Bytes) : Bytes :=
  compressed.drop (literalHeaderLength (compressed.headD 0))

theorem literalOf_header (data : Bytes) :
    literalOf (literalHeader data.length ++ data) = data := by
  have hNumber : ∀ {n : Nat}, n < 128 → (UInt8.ofNat n).toNat = n := by
    intro n hn
    exact mod_eq_of_lt (by omega)
  have h60 : (60 : UInt8).toNat = 60 := rfl
  have h128 : (128 : UInt8).toNat = 128 := rfl
  rw [literalHeader]
  split
  · rename_i hShort
    have hFirst : literalHeaderLength (UInt8.ofNat data.length) = 2 := by
      rw [literalHeaderLength, if_pos]
      rw [UInt8.le_iff_toNat_le, hNumber (by omega)]
      exact hShort
    change drop (literalHeaderLength (UInt8.ofNat data.length)) (_ :: _ :: data) = data
    rw [hFirst]
    rfl
  · split
    · rename_i hLong hLess
      have hFirst : literalHeaderLength (UInt8.ofNat data.length) = 3 := by
        rw [literalHeaderLength, if_neg, if_pos]
        · rw [UInt8.lt_iff_toNat_lt, hNumber hLess]
          exact hLess
        · rw [UInt8.le_iff_toNat_le, hNumber hLess]
          exact hLong
      change drop (literalHeaderLength (UInt8.ofNat data.length)) (_ :: _ :: _ :: data) = data
      rw [hFirst]
      rfl
    · rfl

def literals : Snappy where
  compress data := literalHeader data.length ++ data
  uncompressedLength compressed := some (literalOf compressed).length
  uncompress compressed := some (literalOf compressed)
  uncompressedLength_compress data := by rw [literalOf_header]
  uncompress_compress data := by rw [literalOf_header]

theorem snappyBuffers_roundTrip_short : RoundTrips literals 4 3 20 20 [[1, 2], [3, 4, 5], [6]] :=
  (snappyBuffers_roundTrip_iff literals 4 3 20 20 [[1, 2], [3, 4, 5], [6]] (by decide)
    (by decide)).mpr (Or.inr (by decide +kernel))

/-- A block of 128 bytes has a length whose last byte is a negative `char`. -/
theorem snappyBuffers_lose_block :
    ¬ RoundTrips literals 200 200 200 200 [(List.range 125).map UInt8.ofNat] := by
  apply not_roundTrips
  · decide +kernel
  · decide +kernel
  · decide +kernel
  · decide +kernel

end TensorFlowOnSpark.Io
