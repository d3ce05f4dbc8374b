import TensorFlowOnSpark.Framework.Status
import TensorFlowOnSpark.Strings.SafeStrto
import TensorFlowOnSpark.Util.DeviceNameUtils

/-!
# Keys of a rendezvous

`CreateKey`, `ParseKey`, `AppendStepidToKey` and `GetKeyAndStepId` of
`framework/rendezvous.cc`.
-/

namespace TensorFlowOnSpark.Framework.Rendezvous

open Strings Numeral Util.DeviceNameUtils List

structure FrameAndIter where
  frameId : UInt64
  iterId : Int64

structure ParsedKey where
  srcDevice : String
  src : ParsedName
  srcIncarnation : UInt64
  dstDevice : String
  dst : ParsedName
  edgeName : String
deriving DecidableEq, Repr

def createKey (srcDevice : String) (srcIncarnation : UInt64) (dstDevice name : String)
    (frameIter : FrameAndIter) : String :=
  srcDevice ++ ";" ++ String.ofList (uint64ToHexString srcIncarnation) ++ ";" ++ dstDevice ++ ";" ++
    name ++ ";" ++ String.ofList (fastUInt64ToBufferLeft frameIter.frameId) ++ ":" ++
    String.ofList (fastInt64ToBufferLeft frameIter.iterId)

def consumeNextPart (delim : Char) : List Char → List Char × List Char
  | [] => ([], [])
  | c :: rest =>
    if c = delim then ([], rest)
    else
      let (part, rest) := consumeNextPart delim rest
      (c :: part, rest)

def parseKey (key : String) : Except Status ParsedKey :=
  let (part0, s) := consumeNextPart ';' key.toList
  let (part1, s) := consumeNextPart ';' s
  let (part2, s) := consumeNextPart ';' s
  let (part3, s) := consumeNextPart ';' s
  let (part4, s) := consumeNextPart ';' s
  let invalid := Errors.invalidArgument ("Invalid  rendezvous key: " ++ key)
  if s.isEmpty && !part4.isEmpty then
    match parseFullName part0, hexStringToUint64 part1, parseFullName part2 with
    | some src, some srcIncarnation, some dst =>
      if !part3.isEmpty then
        .ok ⟨String.ofList part0, src, srcIncarnation, String.ofList part2, dst,
          String.ofList part3⟩
      else .error invalid
    | _, _, _ => .error invalid
  else .error invalid

def appendStepidToKey (key : String) (stepId : Int64) : String :=
  key ++ ";" ++ String.ofList (fastInt64ToBufferLeft stepId)

/-- `GetKeyAndStepId`, with the value of `step_id` before the call; none when its check fails. -/
def getKeyAndStepId (keyWithStepId : String) (stepId : Int64) : Option (String × Int64) :=
  let parts := split keyWithStepId.toList ';'
  if parts.length = 6 then
    some (String.ofList (join parts.dropLast ";"), (safeStrto64 (parts.getD 5 [])).getD stepId)
  else none

theorem consumeNextPart_append {delim : Char} {part : List Char} (h : delim ∉ part)
    (rest : List Char) : consumeNextPart delim (part ++ delim :: rest) = (part, rest) := by
  induction part with
  | nil => rw [nil_append, consumeNextPart, if_pos rfl]
  | cons c part ih =>
    obtain ⟨hNe, hPart⟩ := not_or.mp (mt mem_cons.mpr h)
    rw [cons_append, consumeNextPart, if_neg (Ne.symm hNe), ih hPart]

theorem consumeNextPart_last {delim : Char} {part : List Char} (h : delim ∉ part) :
    consumeNextPart delim part = (part, []) := by
  induction part with
  | nil => rfl
  | cons c part ih =>
    obtain ⟨hNe, hPart⟩ := not_or.mp (mt mem_cons.mpr h)
    rw [consumeNextPart, if_neg (Ne.symm hNe), ih hPart]

theorem not_mem_fastInt64 (i : Int64) {c : Char} (hc : isDigit c = false) (hMinus : c ≠ '-') :
    c ∉ fastInt64ToBufferLeft i := by
  have hDigits (n : Nat) : c ∉ numeral 10 digitChar n := by
    intro hMem
    obtain ⟨d, hd, rfl⟩ := mem_numeral (by decide) hMem
    exact digitChar_ne hd hc rfl
  rw [fastInt64ToBufferLeft]
  split
  · rw [fastUInt64ToBufferLeft_eq]
    exact fun hMem => (mem_cons.mp hMem).elim hMinus (hDigits _)
  · rw [fastUInt64ToBufferLeft_eq]
    exact hDigits _

theorem not_mem_hexString (v : UInt64) : ';' ∉ uint64ToHexString v := by
  rw [uint64ToHexString, hexLoop_eq, append_nil]
  intro hMem
  obtain ⟨d, hd, hEq⟩ := mem_fixed (by decide) hMem
  have hNot : ∀ d < 16, ';' ≠ hexDigit d := by decide
  exact hNot d hd hEq

def frameText (frameIter : FrameAndIter) : List Char :=
  fastUInt64ToBufferLeft frameIter.frameId ++ ':' :: fastInt64ToBufferLeft frameIter.iterId

theorem not_mem_frameText (frameIter : FrameAndIter) : ';' ∉ frameText frameIter := by
  intro hMem
  rcases mem_append.mp hMem with hFrame | hIter
  · rw [fastUInt64ToBufferLeft_eq] at hFrame
    obtain ⟨d, hd, hEq⟩ := mem_numeral (by decide) hFrame
    exact digitChar_ne hd (by decide) hEq.symm
  · rcases mem_cons.mp hIter with hColon | hIter
    · exact absurd hColon (by decide)
    · exact not_mem_fastInt64 _ (by decide) (by decide) hIter

structure Parts (key : String) (src hex dst name frame : List Char) : Prop where
  key_eq : key.toList = src ++ ';' :: (hex ++ ';' :: (dst ++ ';' :: (name ++ ';' :: frame)))
  src_free : ';' ∉ src
  hex_free : ';' ∉ hex
  dst_free : ';' ∉ dst
  name_free : ';' ∉ name
  frame_free : ';' ∉ frame

theorem createKey_parts {src dst name : String} (incarnation : UInt64) (frameIter : FrameAndIter)
    (hSrc : ';' ∉ src.toList) (hDst : ';' ∉ dst.toList) (hName : ';' ∉ name.toList) :
    Parts (createKey src incarnation dst name frameIter) src.toList (uint64ToHexString incarnation)
      dst.toList name.toList (frameText frameIter) where
  key_eq := by
    simp only [createKey, String.toList_append, String.toList_ofList, append_assoc]
    rfl
  src_free := hSrc
  hex_free := not_mem_hexString incarnation
  dst_free := hDst
  name_free := hName
  frame_free := not_mem_frameText frameIter

variable {src dst name hex frame : List Char} {key : String}

section

variable (h : Parts key src hex dst name frame)

include h

theorem parseKey_eq (hName : name ≠ []) (hFrame : frame ≠ [])
    {srcParsed dstParsed : ParsedName} {incarnation : UInt64}
    (hSrc : parseFullName src = some srcParsed) (hHex : hexStringToUint64 hex = some incarnation)
    (hDst : parseFullName dst = some dstParsed) :
    parseKey key = .ok ⟨String.ofList src, srcParsed, incarnation, String.ofList dst, dstParsed,
      String.ofList name⟩ := by
  have hFrame' : frame.isEmpty = false := by simpa using hFrame
  have hName' : name.isEmpty = false := by simpa using hName
  rw [parseKey, h.key_eq, consumeNextPart_append h.src_free]
  simp only
  rw [consumeNextPart_append h.hex_free]
  rw [consumeNextPart_append h.dst_free]
  rw [consumeNextPart_append h.name_free]
  rw [consumeNextPart_last h.frame_free]
  simp only [isEmpty_nil, hFrame', hName', hSrc, hHex, hDst, Bool.not_false, Bool.and_self, if_true]

theorem Parts.splitOn :
    key.toList.splitOn ';' = [src, hex, dst, name, frame] := by
  rw [h.key_eq, splitOn_append_cons_self_of_not_mem h.src_free,
    splitOn_append_cons_self_of_not_mem h.hex_free, splitOn_append_cons_self_of_not_mem h.dst_free,
    splitOn_append_cons_self_of_not_mem h.name_free, splitOn_eq_singleton h.frame_free]

theorem getKeyAndStepId_append (stepId before : Int64) :
    getKeyAndStepId (appendStepidToKey key stepId) before = some (key, stepId) := by
  have hText : (appendStepidToKey key stepId).toList =
      key.toList ++ ';' :: fastInt64ToBufferLeft stepId := by
    simp only [appendStepidToKey, String.toList_append, String.toList_ofList, append_assoc]
    rfl
  have hStep := not_mem_fastInt64 stepId (c := ';') (by decide) (by decide)
  have hParts : split (appendStepidToKey key stepId).toList ';' =
      [src, hex, dst, name, frame, fastInt64ToBufferLeft stepId] := by
    rw [hText, split, if_neg (by simp), splitOn_append_cons_self, h.splitOn,
      splitOn_eq_singleton hStep]
    rfl
  have hJoin : join [src, hex, dst, name, frame] ";" = key.toList := by
    rw [← h.splitOn]
    exact intercalate_splitOn ';'
  rw [getKeyAndStepId, hParts]
  change some (String.ofList (join [src, hex, dst, name, frame] ";"),
    (safeStrto64 (fastInt64ToBufferLeft stepId)).getD before) = _
  rw [hJoin, safeStrto64_fastInt64, String.ofList_toList, Option.getD_some]

end

/-- A key gives back its devices, its incarnation and its edge name, and a key with a step id
gives back both. -/
theorem createKey_roundTrip (srcJob srcType src dstJob dstType dst name : String)
    (srcReplica srcTask srcId dstReplica dstTask dstId : Int32) (incarnation : UInt64)
    (frameIter : FrameAndIter) (hSrc : fullName srcJob srcReplica srcTask srcType srcId = some src)
    (hSrcType : isJobName srcType.toList)
    (hDst : fullName dstJob dstReplica dstTask dstType dstId = some dst)
    (hDstType : isJobName dstType.toList) (hName : name ≠ "") (hFree : ';' ∉ name.toList) :
    parseKey (createKey src incarnation dst name frameIter) = .ok
        ⟨src, completeName srcJob srcReplica srcTask srcType srcId, incarnation,
          dst, completeName dstJob dstReplica dstTask dstType dstId, name⟩ ∧
      ∀ stepId before : Int64,
        getKeyAndStepId (appendStepidToKey (createKey src incarnation dst name frameIter) stepId)
          before = some (createKey src incarnation dst name frameIter, stepId) := by
  have hParts := createKey_parts incarnation frameIter (not_mem_fullName hSrc hSrcType)
    (not_mem_fullName hDst hDstType) hFree
  refine ⟨?_, getKeyAndStepId_append hParts⟩
  have hKey := parseKey_eq hParts (fun hNil => hName (String.toList_eq_nil_iff.mp hNil))
    (append_ne_nil_of_right_ne_nil _ (cons_ne_nil _ _))
    (parseFullName_fullName hSrc hSrcType) (hexStringToUint64_hexString incarnation)
    (parseFullName_fullName hDst hDstType)
  rwa [String.ofList_toList, String.ofList_toList, String.ofList_toList] at hKey

theorem mnist_key_roundTrip :
    parseKey (createKey "/job:mnist/replica:1/task:2/device:CPU:0" 7890
        "/job:mnist/replica:1/task:2/device:GPU:0" "var0" ⟨0, 0⟩) = .ok
        ⟨"/job:mnist/replica:1/task:2/device:CPU:0", completeName "mnist" 1 2 "CPU" 0, 7890,
          "/job:mnist/replica:1/task:2/device:GPU:0", completeName "mnist" 1 2 "GPU" 0, "var0"⟩ ∧
      ∀ stepId before : Int64,
        getKeyAndStepId (appendStepidToKey (createKey "/job:mnist/replica:1/task:2/device:CPU:0"
          7890 "/job:mnist/replica:1/task:2/device:GPU:0" "var0" ⟨0, 0⟩) stepId) before =
        some (createKey "/job:mnist/replica:1/task:2/device:CPU:0" 7890
          "/job:mnist/replica:1/task:2/device:GPU:0" "var0" ⟨0, 0⟩, stepId) :=
  createKey_roundTrip "mnist" "CPU" _ "mnist" "GPU" _ "var0" 1 2 0 1 2 0 7890 ⟨0, 0⟩
    (by decide +kernel) (by decide) (by decide +kernel) (by decide) (by decide) (by decide)

example : createKey "/job:mnist/replica:1/task:2/CPU:0" 7890 "/job:mnist/replica:1/task:2/GPU:0"
    "var0" ⟨0, 0⟩ = "/job:mnist/replica:1/task:2/CPU:0;0000000000001ed2;" ++
      "/job:mnist/replica:1/task:2/GPU:0;var0;0:0" := by
  decide +kernel

end TensorFlowOnSpark.Framework.Rendezvous
