import TensorFlowOnSpark.Lib.Fallible
import TensorFlowOnSpark.Platform.PosixFile

/-!
# Record files

`RecordWriter` and `RecordReader` of `lib/io`, for files that are not compressed.
-/

namespace TensorFlowOnSpark.Io

open Framework Platform Bytes Fallible List PosixRandomAccessFile

def kMaskDelta : UInt32 := 0xa282ead8

def mask (crc : UInt32) : UInt32 := ((crc >>> 15) ||| (crc <<< 17)) + kMaskDelta

def unmask (maskedCrc : UInt32) : UInt32 :=
  let rot := maskedCrc - kMaskDelta
  (rot >>> 17) ||| (rot <<< 15)

theorem unmask_mask (crc : UInt32) : unmask (mask crc) = crc := by
  unfold unmask mask
  apply UInt32.eq_of_toBitVec_eq
  ext i hi
  simp
  grind

def encodeFixed32 (x : UInt32) : Bytes := encodeLE 4 x.toNat

def decodeFixed32 (bytes : Bytes) : UInt32 := UInt32.ofNat (decodeLE bytes)

theorem decodeFixed32_encodeFixed32 (x : UInt32) : decodeFixed32 (encodeFixed32 x) = x := by
  rw [decodeFixed32, encodeFixed32, decodeLE_encodeLE (by have := x.toNat_lt; omega)]
  exact UInt32.ofNat_toNat

structure Record where
  data : Bytes
  fits : data.length < 2 ^ 62

def kHeaderSize : Nat := 12

def kFooterSize : Nat := 4

-- `crc` is `crc32c::Value`.
variable (crc : Platform.Bytes → UInt32)

def checksummed (data : Bytes) : Bytes := data ++ encodeFixed32 (mask (crc data))

def writeRecord (data : Bytes) : Bytes :=
  checksummed crc (encodeLE 8 data.length) ++ checksummed crc data

/-- The file that the calls of `WriteRecord` make. -/
def writeRecords (records : List Record) : Bytes := records.flatMap fun r => writeRecord crc r.data

def readChecksummed (file : PosixRandomAccessFile) (offset n : Nat) : Except Status Bytes :=
  if 2 ^ 64 - 1 - 4 ≤ n then .error (Errors.dataLoss "record size too large")
  else
    let (status, data) := file.read offset (n + 4)
    if status ≠ .ok then .error status
    else if data.length ≠ n + 4 then
      if data.length = 0 then .error (Errors.outOfRange "eof")
      else .error (Errors.dataLoss s!"truncated record at {offset}")
    else if unmask (decodeFixed32 (data.drop n)) ≠ crc (data.take n) then
      .error (Errors.dataLoss s!"corrupted record at {offset}")
    else .ok (data.take n)

/-- What `ReadRecord` makes of an error that it got behind the header. -/
def truncated (offset : Nat) (status : Status) : Status :=
  if status.code? = some .outOfRange then Errors.dataLoss s!"truncated record at {offset}"
  else status

/-- The part of `ReadRecord` behind the header. -/
def readData (file : PosixRandomAccessFile) (offset length : Nat) :
    Except Status (Bytes × Nat) := do
  let data ← (readChecksummed crc file (offset + kHeaderSize) length).mapError (truncated offset)
  .ok (data, offset + kHeaderSize + length + kFooterSize)

def readRecord (file : PosixRandomAccessFile) (offset : Nat) :
    Except Status (Bytes × Nat) := do
  let lbuf ← readChecksummed crc file offset 8
  readData crc file offset (decodeLE lbuf)

/-- Some calls of `ReadRecord` with one offset: their results and the offset they leave. -/
def readRecords (file : PosixRandomAccessFile) :
    Nat → Nat → List (Except Status Bytes) × Nat
  | 0, offset => ([], offset)
  | calls + 1, offset =>
    match readRecord crc file offset with
    | .ok (record, offset) =>
      let (results, offset) := readRecords file calls offset
      (.ok record :: results, offset)
    | .error status =>
      let (results, offset) := readRecords file calls offset
      (.error status :: results, offset)

variable {crc}

variable (crc) in
@[simp] theorem length_checksummed (data : Platform.Bytes) :
    (checksummed crc data).length = data.length + 4 := by
  simp [checksummed, encodeFixed32]

@[simp] theorem length_writeRecord (data : Bytes) :
    (writeRecord crc data).length = kHeaderSize + data.length + kFooterSize := by
  simp only [writeRecord, length_append, length_checksummed, length_encodeLE, kHeaderSize,
    kFooterSize]
  omega

variable {file : PosixRandomAccessFile}
variable {rest : Bytes}

section Read

variable {filename : String} {chunk : Nat → Nat} {before after data : Platform.Bytes}

theorem slice_between (before data after : Bytes) :
    slice (before ++ data ++ after) before.length data.length = data := by
  simp [slice]

variable (crc filename chunk before after) in
theorem readChecksummed_whole (h : data.length < 2 ^ 62) :
    readChecksummed crc ⟨filename, before ++ checksummed crc data ++ after, chunk⟩ before.length
      data.length = .ok data := by
  have hRead : (⟨filename, before ++ checksummed crc data ++ after, chunk⟩ :
      PosixRandomAccessFile).read before.length (data.length + 4) =
        (.ok, checksummed crc data) := by
    have hSize : data.length + 4 ≤ ssizeMax := by
      rw [ssizeMax]; omega
    have hInside : before.length + (data.length + 4) ≤
        (before ++ checksummed crc data ++ after).length := by simp
    rw [read_eq hSize, if_pos (Or.inr hInside), ← length_checksummed crc, slice_between]
  have hFooter : (checksummed crc data).drop data.length = encodeFixed32 (mask (crc data)) := by
    simp [checksummed]
  have hData : (checksummed crc data).take data.length = data := by simp [checksummed]
  rw [readChecksummed, if_neg (by omega), hRead]
  simp only [ne_eq, not_true_eq_false, if_false, length_checksummed, hFooter, hData,
    decodeFixed32_encodeFixed32, unmask_mask]

theorem readChecksummed_short {offset n : Nat} (hSize : n < 2 ^ 62)
    (hShort : file.contents.length < offset + (n + 4)) :
    readChecksummed crc file offset n =
      .error (Errors.outOfRange "Read less bytes than requested") := by
  have hMax : n + 4 ≤ ssizeMax := by
    rw [ssizeMax]; omega
  rw [readChecksummed, if_neg (by omega), read_eq hMax, if_neg (by omega)]
  simp [Errors.outOfRange]

theorem readRecord_header (h : data.length < 2 ^ 62) :
    readRecord crc ⟨filename, before ++ checksummed crc (encodeLE 8 data.length) ++ rest, chunk⟩
        before.length =
      readData crc ⟨filename, before ++ checksummed crc (encodeLE 8 data.length) ++ rest, chunk⟩
        before.length data.length := by
  have hSize : (encodeLE 8 data.length).length < 2 ^ 62 := by simp
  have hHeader := readChecksummed_whole crc filename chunk before rest hSize
  rw [length_encodeLE] at hHeader
  have hLength : decodeLE (encodeLE 8 data.length) = data.length :=
    decodeLE_encodeLE (by omega)
  rw [readRecord, hHeader, ok_bind, hLength]

variable (crc filename chunk before after) in
theorem readRecord_whole (h : data.length < 2 ^ 62) :
    readRecord crc ⟨filename, before ++ writeRecord crc data ++ after, chunk⟩ before.length =
      .ok (data, (before ++ writeRecord crc data).length) := by
  have hFile : before ++ writeRecord crc data ++ after =
      before ++ checksummed crc (encodeLE 8 data.length) ++ (checksummed crc data ++ after) := by
    simp [writeRecord]
  have hOffset : before.length + kHeaderSize =
      (before ++ checksummed crc (encodeLE 8 data.length)).length := by
    simp [kHeaderSize]
  have hData := readChecksummed_whole crc filename chunk
    (before ++ checksummed crc (encodeLE 8 data.length)) after h
  rw [hFile, readRecord_header h, readData, hOffset, ← append_assoc, hData, ← hOffset]
  change Except.ok (data, before.length + kHeaderSize + data.length + kFooterSize) = _
  rw [length_append, length_writeRecord]
  simp only [Nat.add_assoc]

theorem readRecord_inHeader {offset : Nat} (h : file.contents.length < offset + kHeaderSize) :
    readRecord crc file offset = .error (Errors.outOfRange "Read less bytes than requested") := by
  rw [readRecord, readChecksummed_short (by decide) h]
  rfl

variable (crc filename chunk before) in
theorem readRecord_behindHeader {rest : Nat} (h : data.length < 2 ^ 62)
    (hHeader : kHeaderSize ≤ rest)
    (hShort : rest < (writeRecord crc data).length) :
    readRecord crc ⟨filename, before ++ (writeRecord crc data).take rest, chunk⟩ before.length =
      .error (Errors.dataLoss s!"truncated record at {before.length}") := by
  have hTake : (writeRecord crc data).take rest =
      checksummed crc (encodeLE 8 data.length) ++
        (checksummed crc data).take (rest - kHeaderSize) := by
    have hLength : (checksummed crc (encodeLE 8 data.length)).length = kHeaderSize := by
      simp [kHeaderSize]
    rw [writeRecord, take_append, hLength, take_of_length_le (by omega)]
  rw [length_writeRecord] at hShort
  rw [hTake, ← append_assoc, readRecord_header h, readData, readChecksummed_short h]
  · rfl
  · simp only [length_append, length_take, length_checksummed, length_encodeLE,
      kHeaderSize, kFooterSize] at *
    omega

end Read

variable (crc) in
/-- The records that are whole in the first `k` bytes, and how many bytes are left. -/
def cut : List Record → Nat → List Record × Nat
  | [], k => ([], k)
  | r :: records, k =>
    if (writeRecord crc r.data).length ≤ k then
      let (whole, rest) := cut records (k - (writeRecord crc r.data).length)
      (r :: whole, rest)
    else ([], k)

variable (crc) in
/-- The calls return the records, and then the same status again and again with the offset
behind the last record. -/
def Reads (file : PosixRandomAccessFile) (records : List Record) (code : Code) : Prop :=
  ∃ status : Status, status.code? = some code ∧ ∀ calls, readRecords crc file calls 0 =
    ((records.take calls).map (fun r => .ok r.data) ++
        List.replicate (calls - records.length) (.error status),
      (writeRecords crc (records.take calls)).length)

variable {status : Status}

theorem readRecords_error {offset : Nat} (h : readRecord crc file offset = .error status)
    (calls : Nat) :
    readRecords crc file calls offset = (replicate calls (.error status), offset) := by
  induction calls with
  | zero => rfl
  | succ calls ih => simp [readRecords, h, ih, replicate_succ]

variable {filename : String} {chunk : Nat → Nat}

theorem readRecords_whole (records : List Record)
    (before : Bytes)
    (hEnd : readRecord crc ⟨filename, before ++ writeRecords crc records ++ rest, chunk⟩
      (before ++ writeRecords crc records).length = .error status) (calls : Nat) :
    readRecords crc ⟨filename, before ++ writeRecords crc records ++ rest, chunk⟩ calls
        before.length =
      ((records.take calls).map (fun r => .ok r.data) ++
          replicate (calls - records.length) (.error status),
        (before ++ writeRecords crc (records.take calls)).length) := by
  induction records generalizing before calls with
  | nil =>
    simpa [writeRecords] using readRecords_error hEnd calls
  | cons r records ih =>
    have hCons : ∀ rest', writeRecords crc (r :: rest') =
      writeRecord crc r.data ++ writeRecords crc rest' :=
      fun _ => flatMap_cons
    cases calls with
    | zero => simp [readRecords, writeRecords]
    | succ calls =>
      have hRecord := readRecord_whole crc filename chunk before (writeRecords crc records ++ rest)
        r.fits
      rw [hCons, ← append_assoc] at hEnd
      have hNext := ih (before ++ writeRecord crc r.data) hEnd calls
      rw [← append_assoc] at hRecord
      rw [hCons, ← append_assoc, readRecords, hRecord]
      simp only [hNext]
      simp only [take_succ_cons, map_cons, length_cons, hCons,
        Nat.add_sub_add_right, cons_append, append_assoc]

theorem reads_iff {records : List Record} {code : Code}
    (hEnd : readRecord crc ⟨filename, writeRecords crc records ++ rest, chunk⟩
      (writeRecords crc records).length = .error status) :
    Reads crc ⟨filename, writeRecords crc records ++ rest, chunk⟩ records code ↔
      status.code? = some code := by
  have hCalls := readRecords_whole records [] hEnd
  constructor
  · rintro ⟨status', hCode, hReads⟩
    have hLast := (hCalls (records.length + 1)).symm.trans (hReads (records.length + 1))
    have hSame : status = status' := by simpa using hLast
    exact hSame ▸ hCode
  · intro hCode
    exact ⟨status, hCode, hCalls⟩

theorem take_writeRecords (records : List Record) {k : Nat}
    (h : k ≤ (writeRecords crc records).length) :
    ∃ rest, (writeRecords crc records).take k = writeRecords crc (cut crc records k).1 ++ rest ∧
      ((cut crc records k).2 = 0 ∧ rest = [] ∨
        ∃ r ∈ records, (cut crc records k).2 < (writeRecord crc r.data).length ∧
          rest = (writeRecord crc r.data).take (cut crc records k).2) := by
  induction records generalizing k with
  | nil =>
    have hZero : k = 0 := by simpa [writeRecords] using h
    exact ⟨[], by simp [cut, writeRecords], Or.inl ⟨hZero, rfl⟩⟩
  | cons r records ih =>
    have hCons : ∀ rest', writeRecords crc (r :: rest') =
      writeRecord crc r.data ++ writeRecords crc rest' :=
      fun _ => flatMap_cons
    rw [hCons] at h ⊢
    by_cases hWhole : (writeRecord crc r.data).length ≤ k
    · rw [length_append] at h
      obtain ⟨rest, hTake, hRest⟩ := ih (k := k - (writeRecord crc r.data).length) (by omega)
      refine ⟨rest, ?_, ?_⟩
      · rw [take_append, take_of_length_le hWhole, hTake]
        simp [cut, hWhole, -length_writeRecord, hCons]
      · simp only [cut, hWhole, mem_cons]
        rcases hRest with hRest | ⟨r', hMem, hLess, hRest⟩
        · exact Or.inl hRest
        · exact Or.inr ⟨r', Or.inr hMem, hLess, hRest⟩
    · refine ⟨(writeRecord crc r.data).take k, ?_, Or.inr ⟨r, mem_cons_self, ?_, ?_⟩⟩
      · rw [take_append_of_le_length (by omega)]
        simp [cut, hWhole, -length_writeRecord, writeRecords]
      · have hLess := Nat.lt_of_not_le hWhole
        simp only [cut, hWhole]
        exact hLess
      · simp [cut, hWhole, -length_writeRecord]

theorem whole_reads (crc : Bytes → UInt32) (filename : String) (chunk : Nat → Nat)
    (records : List Record) :
    Reads crc ⟨filename, writeRecords crc records, chunk⟩ records .outOfRange := by
  let file : PosixRandomAccessFile := ⟨filename, writeRecords crc records ++ [], chunk⟩
  have hAtEnd : file.contents.length < (writeRecords crc records).length + kHeaderSize := by
    simp [file, kHeaderSize]
  have hReads : Reads crc file records .outOfRange :=
    (reads_iff (readRecord_inHeader hAtEnd)).mpr rfl
  rw [show file = ⟨filename, writeRecords crc records ++ [], chunk⟩ from rfl, append_nil] at hReads
  exact hReads

theorem take_reads_iff (crc : Bytes → UInt32) (filename : String) (chunk : Nat → Nat)
    (records : List Record) (k : Fin (writeRecords crc records).length) :
    Reads crc ⟨filename, (writeRecords crc records).take k, chunk⟩ (cut crc records k).1
        (if (cut crc records k).2 = 0 then .outOfRange else .dataLoss) ↔
      (cut crc records k).2 = 0 ∨ kHeaderSize ≤ (cut crc records k).2 := by
  obtain ⟨rest, hTake, hRest⟩ := take_writeRecords records k.isLt.le
  rw [hTake]
  let file : PosixRandomAccessFile :=
    ⟨filename, writeRecords crc (cut crc records k).1 ++ rest, chunk⟩
  rcases hRest with ⟨hZero, rfl⟩ | ⟨r, -, hLess, rfl⟩
  · have hAtEnd : file.contents.length <
        (writeRecords crc (cut crc records k).1).length + kHeaderSize := by
      simp [file, kHeaderSize]
    rw [reads_iff (readRecord_inHeader hAtEnd)]
    simp [hZero, Errors.outOfRange, Status.code?]
  · by_cases hHeader : kHeaderSize ≤ (cut crc records k).2
    · have hNonzero : (cut crc records k).2 ≠ 0 := by
        simp only [kHeaderSize] at hHeader
        omega
      have hEnd := readRecord_behindHeader crc filename chunk
        (writeRecords crc (cut crc records k).1)
        r.fits hHeader hLess
      rw [reads_iff hEnd, if_neg hNonzero]
      simp [hHeader, Errors.dataLoss, Status.code?]
    · have hInHeader : file.contents.length <
          (writeRecords crc (cut crc records k).1).length + kHeaderSize := by
        simp only [file, length_append, length_take]
        omega
      rw [reads_iff (readRecord_inHeader hInHeader)]
      split
      · rename_i hZero
        simp [hZero, Errors.outOfRange, Status.code?]
      · rename_i hNonzero
        simp [hHeader, hNonzero, Errors.outOfRange, Status.code?]

/-- The whole file is read as it was written. A proper prefix is read as it should be
exactly when it does not end inside the header of a record. -/
theorem recordFile_read_iff (crc : Bytes → UInt32) (filename : String) (chunk : Nat → Nat)
    (records : List Record) :
    Reads crc ⟨filename, writeRecords crc records, chunk⟩ records .outOfRange ∧
      ∀ k : Fin (writeRecords crc records).length,
        Reads crc ⟨filename, (writeRecords crc records).take k, chunk⟩ (cut crc records k).1
            (if (cut crc records k).2 = 0 then .outOfRange else .dataLoss) ↔
          (cut crc records k).2 = 0 ∨ kHeaderSize ≤ (cut crc records k).2 := by
  constructor
  · exact whole_reads crc filename chunk records
  · intro k
    exact take_reads_iff crc filename chunk records k

/-- A file that ends one byte into the header of its only record. -/
theorem cutHeader_endOfFile : ¬ Reads (fun _ => 0)
    ⟨"records", (writeRecords (fun _ => 0) [⟨[7], by decide⟩]).take 1,
      fun _ => 0⟩ [] .dataLoss := by
  have hIff := take_reads_iff (fun _ => 0) "records" (fun _ => 0) [⟨[7], by decide⟩] ⟨1, by decide⟩
  intro hReads
  exact absurd (hIff.mp hReads) (by decide)

end TensorFlowOnSpark.Io
