import TensorFlowOnSpark.Lib.OrderPreserving
import TensorFlowOnSpark.Lib.BigEndian

/-!
# Ordered codes of strings and numbers

`OrderedCode` of `lib/strings/ordered_code.cc`.
-/

namespace TensorFlowOnSpark.Strings

open List

namespace OrderedCode

def kEscape1 : UInt8 := 0x00
def kNullCharacter : UInt8 := 0xff
def kSeparator : UInt8 := 0x01
def kEscape2 : UInt8 := 0xff
def kFFCharacter : UInt8 := 0x00

def isSpecialByte (c : UInt8) : Bool := c + 1 < 2

def skipToNextSpecialByte (s : List UInt8) : List UInt8 × List UInt8 :=
  (s.takeWhile fun c => !isSpecialByte c, s.dropWhile fun c => !isSpecialByte c)

theorem length_skipToNextSpecialByte (s : List UInt8) :
    (skipToNextSpecialByte s).2.length ≤ s.length :=
  (dropWhile_sublist _).length_le

def encodeStringFragment (dest s : List UInt8) : List UInt8 :=
  match _hRest : (skipToNextSpecialByte s).2 with
  | [] => dest ++ (skipToNextSpecialByte s).1
  | c :: rest =>
    let dest := dest ++ (skipToNextSpecialByte s).1
    if c = kEscape1 then encodeStringFragment (dest ++ [kEscape1, kNullCharacter]) rest
    else encodeStringFragment (dest ++ [kEscape2, kFFCharacter]) rest
termination_by s.length
decreasing_by
  all_goals
    have hLength := length_skipToNextSpecialByte s
    simp only [_hRest, length_cons] at hLength
    omega

def writeString (dest s : List UInt8) : List UInt8 :=
  encodeStringFragment dest s ++ [kEscape1, kSeparator]

/-- `ReadStringInternal`, with the bytes that were read so far. A special byte at the end of the
source ends the search as if there were none: `limit` leaves out the last byte. -/
def readStringInternal (result src : List UInt8) : Option (List UInt8 × List UInt8) :=
  match _hRest : (skipToNextSpecialByte src).2 with
  | [] => none
  | [_] => none
  | c :: next :: rest =>
    let result := result ++ (skipToNextSpecialByte src).1
    if c = kEscape1 then
      if next = kSeparator then some (result, rest)
      else if next = kNullCharacter then readStringInternal (result ++ [0x00]) rest
      else none
    else if next = kFFCharacter then readStringInternal (result ++ [0xff]) rest
    else none
termination_by src.length
decreasing_by
  all_goals
    have hLength := length_skipToNextSpecialByte src
    simp only [_hRest, length_cons] at hLength
    omega

def readString (src : List UInt8) : Option (List UInt8 × List UInt8) := readStringInternal [] src

def lowByte {w : Nat} (x : BitVec w) : UInt8 := UInt8.ofNat x.toNat

/-- The loop of `WriteNumIncreasing`, which fills `buf` from its end. -/
def fillPayload (val : BitVec 64) (buf : List UInt8) : List UInt8 :=
  if _hDone : val = 0 then buf else fillPayload (val >>> 8) (lowByte (val &&& 0xff) :: buf)
termination_by val.toNat
decreasing_by
  have hPos : val.toNat ≠ 0 := fun h => _hDone (BitVec.eq_of_toNat_eq h)
  rw [BitVec.toNat_ushiftRight, Nat.shiftRight_eq_div_pow]
  omega

def writeNumIncreasing (dest : List UInt8) (val : BitVec 64) : List UInt8 :=
  let payload := fillPayload val []
  dest ++ UInt8.ofNat payload.length :: payload

def shiftIn (x : BitVec 64) (b : UInt8) : BitVec 64 := (x <<< 8) ||| BitVec.ofNat 64 b.toNat

def readNumIncreasing : List UInt8 → Option (BitVec 64 × List UInt8)
  | [] => none
  | first :: rest =>
    let len := first.toNat
    if rest.length < len ∨ 8 < len then none
    else
      some ((rest.take len).foldl shiftIn 0, rest.drop len)

def kLengthToHeaderBits : List (UInt8 × UInt8) :=
  [(0, 0), (0x80, 0), (0xc0, 0), (0xe0, 0), (0xf0, 0), (0xf8, 0), (0xfc, 0), (0xfe, 0), (0xff, 0),
    (0xff, 0x80), (0xff, 0xc0)]

def kLengthToMask : List (BitVec 64) :=
  [0, 0x80, 0xc000, 0xe00000, 0xf0000000, 0xf800000000, 0xfc0000000000, 0xfe000000000000,
    0xff00000000000000, 0x8000000000000000, 0]

def kBitsToLength : List Nat :=
  [1, 1, 1, 1, 1, 1, 1, 2, 2, 2, 2, 2, 2, 2, 3, 3, 3, 3, 3, 3, 3, 4,
    4, 4, 4, 4, 4, 4, 5, 5, 5, 5, 5, 5, 5, 6, 6, 6, 6, 6, 6, 6, 7, 7,
    7, 7, 7, 7, 7, 8, 8, 8, 8, 8, 8, 8, 9, 9, 9, 9, 9, 9, 9, 10]

def log2Floor64 (n : BitVec 64) : Int := if n = 0 then -1 else (n.toNat.log2 : Int)

def signedEncodingLength (n : BitVec 64) : Nat :=
  kBitsToLength.getD (log2Floor64 (if n.slt 0 then ~~~n else n) + 1).toNat 0

def storeBigEndian64 (v : BitVec 64) : List UInt8 :=
  (range 8).map fun i => lowByte ((v >>> (56 - 8 * i)) &&& 0xff)

def loadBigEndian64 (src : List UInt8) : BitVec 64 :=
  (range 8).foldl
    (fun result i => result ||| BitVec.ofNat 64 (src.getD i 0).toNat <<< (56 - 8 * i)) 0

def xorHeader (header : UInt8 × UInt8) : List UInt8 → List UInt8
  | b₀ :: b₁ :: rest => (b₀ ^^^ header.1) :: (b₁ ^^^ header.2) :: rest
  | bytes => bytes

def writeSignedNumIncreasing (dest : List UInt8) (val : BitVec 64) : List UInt8 :=
  let x := if val.slt 0 then ~~~val else val
  if x < 64 then dest ++ [(kLengthToHeaderBits.getD 1 (0, 0)).1 ^^^ lowByte val]
  else
    let signByte : UInt8 := if val.slt 0 then 0xff else 0
    let buf := signByte :: signByte :: storeBigEndian64 val
    let len := signedEncodingLength x
    let begin := buf.drop (buf.length - len)
    dest ++ xorHeader (kLengthToHeaderBits.getD len (0, 0)) begin

/-- The length of the encoding that starts with the given bytes, once there are so many. -/
def signedLength (xorMask : UInt8) (src : List UInt8) : Option Nat :=
  let firstByte := src.getD 0 0 ^^^ xorMask
  if firstByte ≠ 0xff then
    let len := (7 - log2Floor64 (BitVec.ofNat 64 (firstByte ^^^ 0xff).toNat)).toNat
    if src.length < len then none else some len
  else if src.length < 8 then none
  else
    let secondByte := src.getD 1 0 ^^^ xorMask
    if 0x80 ≤ secondByte then
      if secondByte < 0xc0 then if src.length < 9 then none else some 9
      else
        let thirdByte := src.getD 2 0 ^^^ xorMask
        if secondByte = 0xc0 ∧ thirdByte < 0x80 then if src.length < 10 then none else some 10
        else none
    else some 8

def readSignedNumIncreasing (src : List UInt8) : Option (BitVec 64 × List UInt8) :=
  if src.isEmpty then none
  else
    let negative := src.getD 0 0 &&& 0x80 = 0
    let xorMask : BitVec 64 := if negative then BitVec.allOnes 64 else 0
    match signedLength (if negative then 0xff else 0) src with
    | none => none
    | some len =>
      let x := if src.getD 0 0 ^^^ (if negative then 0xff else 0) ≠ 0xff then
          (src.take len).foldl shiftIn xorMask
        else loadBigEndian64 (src.drop (len - 8))
      some (x ^^^ kLengthToMask.getD len 0, src.drop len)

inductive Field where
  | string | uint64 | int64
deriving DecidableEq, Repr

def Field.Value : Field → Type
  | .string => List UInt8
  | .uint64 => BitVec 64
  | .int64 => BitVec 64

def write (dest : List UInt8) : (field : Field) → field.Value → List UInt8
  | .string, value => writeString dest value
  | .uint64, value => writeNumIncreasing dest value
  | .int64, value => writeSignedNumIncreasing dest value

def read (src : List UInt8) : (field : Field) → Option (field.Value × List UInt8)
  | .string => readString src
  | .uint64 => readNumIncreasing src
  | .int64 => readSignedNumIncreasing src

def writeTuple : (fields : List Field) → fields.TProd Field.Value → List UInt8 → List UInt8
  | [], _, dest => dest
  | field :: fields, values, dest => writeTuple fields values.2 (write dest field values.1)

def readTuple :
    (fields : List Field) → List UInt8 → Option (fields.TProd Field.Value × List UInt8)
  | [], src => some (⟨⟩, src)
  | field :: fields, src =>
    match read src field with
    | none => none
    | some (value, rest) =>
      match readTuple fields rest with
      | none => none
      | some (values, rest) => some ((value, values), rest)

def Field.lt : (field : Field) → field.Value → field.Value → Prop
  | .string => fun x y : List UInt8 => x < y
  | .uint64 => fun x y : BitVec 64 => x.toNat < y.toNat
  | .int64 => fun x y : BitVec 64 => x.toInt < y.toInt

def tupleLt : (fields : List Field) → fields.TProd Field.Value → fields.TProd Field.Value → Prop
  | [], _, _ => False
  | field :: fields, x, y => field.lt x.1 y.1 ∨ x.1 = y.1 ∧ tupleLt fields x.2 y.2

end OrderedCode

namespace OrderedCode

open OrderPreserving BigEndian Nat

section Strings

def escape (c : UInt8) : List UInt8 :=
  if c = kEscape1 then [kEscape1, kNullCharacter]
  else if c = kEscape2 then [kEscape2, kFFCharacter]
  else [c]

theorem isSpecialByte_iff (c : UInt8) : isSpecialByte c ↔ c = kEscape1 ∨ c = kEscape2 := by
  rw [isSpecialByte, decide_eq_true_eq, kEscape1, kEscape2, UInt8.lt_iff_toNat_lt,
    ← UInt8.toNat_inj, ← UInt8.toNat_inj, UInt8.toNat_add]
  have hByte := c.toNat_lt
  simp only [UInt8.reduceToNat]
  omega

variable {c : UInt8} {s : List UInt8}

theorem skip_special (h : isSpecialByte c) (s : List UInt8) :
    skipToNextSpecialByte (c :: s) = ([], c :: s) := by
  simp [skipToNextSpecialByte, h]

theorem skip_cons (h : isSpecialByte c = false) (s : List UInt8) :
    skipToNextSpecialByte (c :: s) =
      (c :: (skipToNextSpecialByte s).1, (skipToNextSpecialByte s).2) := by
  simp [skipToNextSpecialByte, h]

theorem encodeStringFragment_end (h : (skipToNextSpecialByte s).2 = [])
    (dest : List UInt8) : encodeStringFragment dest s = dest ++ (skipToNextSpecialByte s).1 := by
  rw [encodeStringFragment]
  split
  · rfl
  · rename_i hRest
    cases h.symm.trans hRest

theorem encodeStringFragment_next {rest : List UInt8}
    (h : (skipToNextSpecialByte s).2 = c :: rest) (dest : List UInt8) :
    encodeStringFragment dest s =
      if c = kEscape1 then
        encodeStringFragment (dest ++ (skipToNextSpecialByte s).1 ++
          [kEscape1, kNullCharacter]) rest
      else
        encodeStringFragment (dest ++ (skipToNextSpecialByte s).1 ++ [kEscape2, kFFCharacter])
          rest := by
  rw [encodeStringFragment]
  split
  · rename_i hRest
    cases h.symm.trans hRest
  · rename_i hRest
    cases h.symm.trans hRest
    rfl

theorem encodeStringFragment_cons (h : isSpecialByte c = false) (dest s : List UInt8) :
    encodeStringFragment dest (c :: s) = encodeStringFragment (dest ++ [c]) s := by
  have hSkip := skip_cons h s
  cases hRest : (skipToNextSpecialByte s).2 with
  | nil =>
    rw [encodeStringFragment_end hRest, encodeStringFragment_end (by rw [hSkip]; exact hRest),
      hSkip]
    simp
  | cons d rest =>
    rw [encodeStringFragment_next hRest, encodeStringFragment_next (by rw [hSkip]; exact hRest),
      hSkip]
    simp

theorem escape_ordinary (h : isSpecialByte c = false) : escape c = [c] := by
  have hNot : ¬(c = kEscape1 ∨ c = kEscape2) := by
    rw [← isSpecialByte_iff, h]
    exact Bool.false_ne_true
  rw [not_or] at hNot
  rw [escape, if_neg hNot.1, if_neg hNot.2]

theorem encodeStringFragment_eq (dest s : List UInt8) :
    encodeStringFragment dest s = dest ++ s.flatMap escape := by
  induction s generalizing dest with
  | nil =>
    rw [encodeStringFragment_end rfl]
    rfl
  | cons c s ih =>
    cases hSpecial : isSpecialByte c with
    | false =>
      rw [encodeStringFragment_cons hSpecial, ih, flatMap_cons, escape_ordinary hSpecial,
        append_assoc]
    | true =>
      have hSkip := skip_special hSpecial s
      rw [encodeStringFragment_next (congrArg Prod.snd hSkip), hSkip, ih, ih]
      rcases (isSpecialByte_iff c).mp hSpecial with rfl | rfl
      · simp [escape]
      · simp [escape, kEscape1, kEscape2]

def encodedString (s : List UInt8) : List UInt8 := s.flatMap escape ++ [kEscape1, kSeparator]

theorem writeString_eq (dest s : List UInt8) : writeString dest s = dest ++ encodedString s := by
  rw [writeString, encodeStringFragment_eq, append_assoc]
  rfl

theorem readStringInternal_next {src : List UInt8} {next : UInt8} {rest : List UInt8}
    (h : (skipToNextSpecialByte src).2 = c :: next :: rest) (result : List UInt8) :
    readStringInternal result src =
      if c = kEscape1 then
        if next = kSeparator then some (result ++ (skipToNextSpecialByte src).1, rest)
        else if next = kNullCharacter then
          readStringInternal (result ++ (skipToNextSpecialByte src).1 ++ [0x00]) rest
        else none
      else if next = kFFCharacter then
        readStringInternal (result ++ (skipToNextSpecialByte src).1 ++ [0xff]) rest
      else none := by
  rw [readStringInternal]
  split
  · rename_i hRest
    cases h.symm.trans hRest
  · rename_i hRest
    cases h.symm.trans hRest
  · rename_i hRest
    cases h.symm.trans hRest
    rfl

theorem readStringInternal_stop {src : List UInt8} (h : (skipToNextSpecialByte src).2.length ≤ 1)
    (result : List UInt8) : readStringInternal result src = none := by
  rw [readStringInternal]
  split
  · rfl
  · rfl
  · rename_i hRest
    rw [hRest] at h
    simp at h

theorem readStringInternal_cons (h : isSpecialByte c = false) (result src : List UInt8) :
    readStringInternal result (c :: src) = readStringInternal (result ++ [c]) src := by
  have hSkip := skip_cons h src
  match hRest : (skipToNextSpecialByte src).2 with
  | [] =>
    rw [readStringInternal_stop (by simp [hSkip, hRest]), readStringInternal_stop (by simp [hRest])]
  | [d] =>
    rw [readStringInternal_stop (by simp [hSkip, hRest]), readStringInternal_stop (by simp [hRest])]
  | d :: next :: rest =>
    rw [readStringInternal_next hRest, readStringInternal_next (by rw [hSkip]; exact hRest), hSkip]
    simp

theorem readStringInternal_write (result s rest : List UInt8) :
    readStringInternal result (encodedString s ++ rest) = some (result ++ s, rest) := by
  induction s generalizing result with
  | nil =>
    have hSkip : skipToNextSpecialByte (encodedString [] ++ rest) =
        ([], kEscape1 :: kSeparator :: rest) := skip_special (by decide) _
    rw [readStringInternal_next (congrArg Prod.snd hSkip), hSkip]
    simp
  | cons c s ih =>
    have hCons : encodedString (c :: s) ++ rest = escape c ++ (encodedString s ++ rest) := by
      simp [encodedString]
    rw [hCons]
    cases hSpecial : isSpecialByte c with
    | false =>
      rw [escape_ordinary hSpecial, singleton_append, readStringInternal_cons hSpecial, ih,
        append_assoc, singleton_append]
    | true =>
      rcases (isSpecialByte_iff c).mp hSpecial with rfl | rfl
      · have hSkip : skipToNextSpecialByte (escape kEscape1 ++ (encodedString s ++ rest)) =
            ([], kEscape1 :: kNullCharacter :: (encodedString s ++ rest)) :=
          skip_special hSpecial _
        rw [readStringInternal_next (congrArg Prod.snd hSkip), hSkip]
        simp [ih, kNullCharacter, kSeparator, kEscape1]
      · have hSkip : skipToNextSpecialByte (escape kEscape2 ++ (encodedString s ++ rest)) =
            ([], kEscape2 :: kFFCharacter :: (encodedString s ++ rest)) :=
          skip_special hSpecial _
        rw [readStringInternal_next (congrArg Prod.snd hSkip), hSkip]
        simp [ih, kEscape1, kEscape2]

theorem escape_head (c : UInt8) : ∃ more, escape c = c :: more := by
  rw [escape]
  split
  · rename_i hZero
    rw [hZero]
    exact ⟨_, rfl⟩
  · split
    · rename_i hLast
      rw [hLast]
      exact ⟨_, rfl⟩
    · exact ⟨[], rfl⟩

theorem escape_below {d : UInt8} (h : c < d) (s t : List UInt8) :
    Below (escape c ++ s) (escape d ++ t) := by
  obtain ⟨more, hc⟩ := escape_head c
  obtain ⟨more', hd⟩ := escape_head d
  rw [hc, hd]
  exact .head _ _ h

theorem separator_below (c : UInt8) (s : List UInt8) :
    Below [kEscape1, kSeparator] (escape c ++ s) := by
  rw [escape]
  split
  · exact .cons kEscape1 (.head _ _ (by decide))
  · rename_i hNotZero
    have hPos : kEscape1 < c := by
      rw [← UInt8.toNat_inj] at hNotZero
      exact pos_of_ne_zero hNotZero
    split
    · rename_i hLast
      rw [← hLast]
      exact .head _ _ hPos
    · exact .head _ _ hPos

theorem encodedString_cons (c : UInt8) (s : List UInt8) :
    encodedString (c :: s) = escape c ++ encodedString s := by
  rw [encodedString, flatMap_cons, append_assoc]
  rfl

theorem encodedString_below {t : List UInt8} (h : s < t) :
    Below (encodedString s) (encodedString t) := by
  induction h with
  | nil =>
    rw [encodedString_cons]
    exact separator_below _ _
  | cons h ih =>
    rw [encodedString_cons, encodedString_cons]
    exact ih.prepend _
  | rel h =>
    rw [encodedString_cons, encodedString_cons]
    exact escape_below h _ _

theorem string_trichotomous (s t : List UInt8) : s < t ∨ s = t ∨ t < s := by
  induction s generalizing t with
  | nil =>
    cases t with
    | nil => exact .inr (.inl rfl)
    | cons d t => exact .inl .nil
  | cons c s ih =>
    cases t with
    | nil => exact .inr (.inr .nil)
    | cons d t =>
      rcases lt_trichotomy c.toNat d.toNat with hLess | hSame | hGreater
      · exact .inl (.rel (UInt8.lt_iff_toNat_lt.mpr hLess))
      · cases UInt8.toNat_inj.mp hSame
        exact (ih t).imp .cons (.imp (congrArg _) .cons)
      · exact .inr (.inr (.rel (UInt8.lt_iff_toNat_lt.mpr hGreater)))

def stringCode : Code (List UInt8) UInt8 where
  lt s t := s < t
  write := encodedString
  read := readString
  trichotomous := string_trichotomous
  read_write s rest := readStringInternal_write [] s rest
  below _ _ := encodedString_below

end Strings

section Numbers

theorem shiftIn_toNat (x : BitVec 64) (b : UInt8) :
    (shiftIn x b).toNat = (256 * x.toNat + b.toNat) % 2 ^ 64 := by
  have hByte : b.toNat < 2 ^ 8 := b.toNat_lt
  have hLow : x.toNat <<< 8 % 2 ^ 64 = 2 ^ 8 * (x.toNat % 2 ^ 56) := by
    rw [shiftLeft_eq, mul_comm]
    exact mul_mod_mul_left (2 ^ 8) x.toNat (2 ^ 56)
  rw [shiftIn, BitVec.toNat_or, BitVec.toNat_shiftLeft, hLow, BitVec.toNat_ofNat,
    mod_eq_of_lt (by omega : b.toNat < 2 ^ 64), ← two_pow_add_eq_or_of_lt hByte]
  omega

theorem foldl_shiftIn_toNat (bytes : List UInt8) (x : BitVec 64) :
    (bytes.foldl shiftIn x).toNat =
      bytes.foldl (fun n b => 256 * n + b.toNat) x.toNat % 2 ^ 64 := by
  induction bytes generalizing x with
  | nil => exact (mod_eq_of_lt x.isLt).symm
  | cons b bytes ih =>
    have hMod : ∀ (bytes : List UInt8) (n : Nat),
        bytes.foldl (fun n b => 256 * n + b.toNat) (n % 2 ^ 64) % 2 ^ 64 =
          bytes.foldl (fun n b => 256 * n + b.toNat) n % 2 ^ 64 := by
      intro bytes
      induction bytes with
      | nil => exact fun n => mod_mod _ _
      | cons b bytes ih =>
        intro n
        rw [foldl_cons, foldl_cons, ← ih, ← ih (256 * n + b.toNat)]
        congr 2
        omega
    rw [foldl_cons, foldl_cons, ih, shiftIn_toNat, hMod]

theorem fillPayload_eq (val : BitVec 64) (buf : List UInt8) :
    ∃ length, fillPayload val buf = bigEndian length val.toNat ++ buf ∧
      val.toNat < 256 ^ length ∧ (0 < length → 256 ^ (length - 1) ≤ val.toNat) := by
  induction val, buf using fillPayload.induct with
  | case1 buf =>
    exact ⟨0, by rw [fillPayload]; rfl, by simp, by simp⟩
  | case2 val buf hDone ih =>
    obtain ⟨length, hEq, hLt, hLe⟩ := ih
    have hShift : (val >>> 8).toNat = val.toNat / 256 := by
      rw [BitVec.toNat_ushiftRight, shiftRight_eq_div_pow]
    have hByte : lowByte (val &&& 0xff) = UInt8.ofNat val.toNat := by
      apply UInt8.toNat_inj.mp
      have hAnd : (val &&& 0xff).toNat = val.toNat % 256 :=
        (BitVec.toNat_and val 0xff).trans (and_two_pow_sub_one_eq_mod val.toNat 8)
      rw [lowByte, hAnd]
      exact mod_mod _ _
    have hPos : 0 < val.toNat := pos_of_ne_zero fun h => hDone (BitVec.eq_of_toNat_eq h)
    rw [hShift] at hEq hLt hLe
    refine ⟨length + 1, ?_, ?_, fun _ => ?_⟩
    · rw [fillPayload, dif_neg hDone, hEq, bigEndian_add length 1, hByte]
      simp [bigEndian]
    · omega
    · rw [Nat.add_sub_cancel]
      cases length with
      | zero => exact hPos
      | succ length =>
        have hLe' := hLe (succ_pos _)
        rw [Nat.add_sub_cancel] at hLe'
        omega

theorem writeNumIncreasing_eq (val : BitVec 64) :
    ∃ length ≤ 8, (∀ dest, writeNumIncreasing dest val =
        dest ++ UInt8.ofNat length :: bigEndian length val.toNat) ∧
      val.toNat < 256 ^ length ∧ (0 < length → 256 ^ (length - 1) ≤ val.toNat) := by
  obtain ⟨length, hEq, hLt, hLe⟩ := fillPayload_eq val []
  refine ⟨length, ?_, fun dest => ?_, hLt, hLe⟩
  · by_contra hLong
    have hMore : 256 ^ 8 ≤ 256 ^ (length - 1) := Nat.pow_le_pow_right (by decide) (by omega)
    omega
  · rw [writeNumIncreasing, hEq, append_nil, length_bigEndian]

def encodedNum (val : BitVec 64) : List UInt8 := writeNumIncreasing [] val

theorem readNumIncreasing_write (val : BitVec 64) (rest : List UInt8) :
    readNumIncreasing (encodedNum val ++ rest) = some (val, rest) := by
  obtain ⟨length, hShort, hEq, hLt, -⟩ := writeNumIncreasing_eq val
  have hLength : (UInt8.ofNat length).toNat = length := by
    rw [UInt8.toNat_ofNat']
    omega
  rw [encodedNum, hEq, nil_append, cons_append, readNumIncreasing]
  simp only [hLength, length_append, length_bigEndian]
  rw [if_neg (by omega), take_left' (length_bigEndian _ _),
    drop_left' (length_bigEndian _ _)]
  congr 2
  apply BitVec.eq_of_toNat_eq
  rw [foldl_shiftIn_toNat, foldl_bigEndian, mod_eq_of_lt hLt]
  simp only [BitVec.toNat_zero, BitVec.ofNat_eq_ofNat]
  omega

theorem encodedNum_below {x y : BitVec 64} (h : x.toNat < y.toNat) :
    Below (encodedNum x) (encodedNum y) := by
  obtain ⟨length, hShort, hEq, hLt, hLe⟩ := writeNumIncreasing_eq x
  obtain ⟨length', hShort', hEq', hLt', hLe'⟩ := writeNumIncreasing_eq y
  rw [encodedNum, encodedNum, hEq, hEq']
  rcases lt_trichotomy length length' with hShorter | rfl | hLonger
  · refine .head _ _ ?_
    rw [UInt8.lt_iff_toNat_lt, UInt8.toNat_ofNat', UInt8.toNat_ofNat']
    omega
  · exact .cons _ (bigEndian_below_same h hLt')
  · have hPow : 256 ^ length' ≤ 256 ^ (length - 1) :=
      Nat.pow_le_pow_right (by decide) (by omega)
    omega

def numCode : Code (BitVec 64) UInt8 where
  lt x y := x.toNat < y.toNat
  write := encodedNum
  read := readNumIncreasing
  trichotomous x y :=
    (lt_trichotomy x.toNat y.toNat).imp id (.imp BitVec.eq_of_toNat_eq id)
  read_write := readNumIncreasing_write
  below _ _ := encodedNum_below

end Numbers

end OrderedCode

end TensorFlowOnSpark.Strings
