import TensorFlowOnSpark.Lib.CodedInputStream

/-!
# Encoding messages by hand

The varints of `lib/core/coding.cc` and `ProtoEncodeHelper` of `lib/io/proto_encode_helper.h`,
which write what a serialized message consists of.
-/

namespace TensorFlowOnSpark.Io

open Wire Nat List

def encodeVarint32 (v : UInt32) : List UInt8 :=
  if v < (1 : UInt32) <<< 7 then [v.toUInt8]
  else if v < (1 : UInt32) <<< 14 then [(v ||| 128).toUInt8, (v >>> 7).toUInt8]
  else if v < (1 : UInt32) <<< 21 then
    [(v ||| 128).toUInt8, ((v >>> 7) ||| 128).toUInt8, (v >>> 14).toUInt8]
  else if v < (1 : UInt32) <<< 28 then
    [(v ||| 128).toUInt8, ((v >>> 7) ||| 128).toUInt8, ((v >>> 14) ||| 128).toUInt8,
      (v >>> 21).toUInt8]
  else
    [(v ||| 128).toUInt8, ((v >>> 7) ||| 128).toUInt8, ((v >>> 14) ||| 128).toUInt8,
      ((v >>> 21) ||| 128).toUInt8, (v >>> 28).toUInt8]

variable {v : UInt64} {n room : Nat}

theorem shiftRight_lt (h : v ≥ 128) : (v >>> 7).toNat < v.toNat := by
  have hLess := UInt64.le_iff_toNat_le.mp h
  have h128 : (128 : UInt64).toNat = 128 := rfl
  have h7 : (7 : UInt64).toNat % 64 = 7 := rfl
  rw [UInt64.toNat_shiftRight, h7]
  omega

def encodeVarint64 (v : UInt64) : List UInt8 :=
  if _h : v ≥ 128 then ((v &&& 127) ||| 128).toUInt8 :: encodeVarint64 (v >>> 7) else [v.toUInt8]
termination_by v.toNat
decreasing_by exact shiftRight_lt _h

def varintLength (v : UInt64) : Nat :=
  if _h : v ≥ 128 then varintLength (v >>> 7) + 1 else 1
termination_by v.toNat
decreasing_by exact shiftRight_lt _h

theorem or_128_mod (n : Nat) : (n ||| 128) % 256 = n % 128 + 128 := by
  have hByte : ∀ b : Fin 256, b.val ||| 128 = b.val % 128 + 128 := by decide +kernel
  have hMod : (n ||| 128) % 256 = n % 256 ||| 128 := by
    have h := or_mod_two_pow (a := n) (b := 128) (n := 8)
    simpa using h
  rw [hMod, hByte ⟨n % 256, mod_lt n (by decide)⟩]
  simp only
  omega

theorem toUInt8_or {v : UInt32} (h : v.toNat = n) :
    (v ||| 128).toUInt8 = UInt8.ofNat (n % 128 + 128) := by
  apply UInt8.toNat_inj.mp
  have h128 : (128 : UInt32).toNat = 128 := rfl
  have hMod := or_128_mod n
  rw [UInt32.toNat_toUInt8, UInt32.toNat_or, h128, UInt8.toNat_ofNat', h]
  omega

theorem toUInt8_eq {v : UInt32} (h : v.toNat = n) : v.toUInt8 = UInt8.ofNat n := by
  apply UInt8.toNat_inj.mp
  rw [UInt32.toNat_toUInt8, UInt8.toNat_ofNat', h]

theorem toNat_shiftRight {v : UInt32} {i : UInt32} (hi : i < 32) :
    (v >>> i).toNat = v.toNat / 2 ^ i.toNat := by
  have hLess := UInt32.lt_iff_toNat_lt.mp hi
  have h32 : (32 : UInt32).toNat = 32 := rfl
  rw [UInt32.toNat_shiftRight, mod_eq_of_lt (by omega), shiftRight_eq_div_pow]

theorem varintBytes_of_lt (h : n < 128) : varintBytes (room + 1) n = [UInt8.ofNat n] := by
  rw [varintBytes, if_pos h]

theorem varintBytes_of_ge (h : 128 ≤ n) :
    varintBytes (room + 1) n = UInt8.ofNat (n % 128 + 128) :: varintBytes room (n / 128) := by
  rw [varintBytes, if_neg (not_lt.mpr h)]

theorem varintBytes_eq {room' : Nat} (h : n < 128 ^ (room + 1))
    (h' : n < 128 ^ (room' + 1)) : varintBytes (room + 1) n = varintBytes (room' + 1) n := by
  induction room generalizing room' n with
  | zero =>
    have hSmall : n < 128 := by simpa using h
    rw [varintBytes_of_lt hSmall, varintBytes_of_lt hSmall]
  | succ room ih =>
    rcases lt_or_ge n 128 with hSmall | hLarge
    · rw [varintBytes_of_lt hSmall, varintBytes_of_lt hSmall]
    · cases room' with
      | zero =>
        have hSmall : n < 128 := by simpa using h'
        exact absurd hSmall (not_lt.mpr hLarge)
      | succ room' =>
        have hDiv : n / 128 < 128 ^ (room + 1) := by
          rw [div_lt_iff_lt_mul (by decide)]
          exact h
        have hDiv' : n / 128 < 128 ^ (room' + 1) := by
          rw [div_lt_iff_lt_mul (by decide)]
          exact h'
        rw [varintBytes_of_ge hLarge, varintBytes_of_ge hLarge, ih hDiv hDiv']

theorem encodeVarint32_eq (v : UInt32) : encodeVarint32 v = writeVarint v.toNat := by
  have h7 : (v >>> 7).toNat = v.toNat / 128 := toNat_shiftRight (by decide)
  have h14 : (v >>> 14).toNat = v.toNat / 128 / 128 := by
    rw [toNat_shiftRight (by decide), Nat.div_div_eq_div_mul]
    rfl
  have h21 : (v >>> 21).toNat = v.toNat / 128 / 128 / 128 := by
    rw [toNat_shiftRight (by decide), Nat.div_div_eq_div_mul, Nat.div_div_eq_div_mul]
    rfl
  have h28 : (v >>> 28).toNat = v.toNat / 128 / 128 / 128 / 128 := by
    rw [toNat_shiftRight (by decide), Nat.div_div_eq_div_mul, Nat.div_div_eq_div_mul,
      Nat.div_div_eq_div_mul]
    rfl
  have hFits := v.toNat_lt
  have e7 : ((1 : UInt32) <<< 7).toNat = 128 := rfl
  have e14 : ((1 : UInt32) <<< 14).toNat = 128 * 128 := rfl
  have e21 : ((1 : UInt32) <<< 21).toNat = 128 * 128 * 128 := rfl
  have e28 : ((1 : UInt32) <<< 28).toNat = 128 * 128 * 128 * 128 := rfl
  simp only [encodeVarint32, writeVarint, UInt32.lt_iff_toNat_lt, toUInt8_or rfl, toUInt8_eq rfl,
    h7, h14, h21, h28]
  split
  · rename_i h
    rw [varintBytes_of_lt h]
  · rename_i h
    rw [varintBytes_of_ge (by omega)]
    split
    · rw [varintBytes_of_lt (by omega)]
    · rw [varintBytes_of_ge (by omega)]
      split
      · rw [varintBytes_of_lt (by omega)]
      · rw [varintBytes_of_ge (by omega)]
        split
        · rw [varintBytes_of_lt (by omega)]
        · rw [varintBytes_of_ge (by omega), varintBytes_of_lt (by omega)]

theorem toNat_shiftRight_7 (v : UInt64) : (v >>> 7).toNat = v.toNat / 128 := by
  have h7 : (7 : UInt64).toNat % 64 = 7 := rfl
  rw [UInt64.toNat_shiftRight, h7, shiftRight_eq_div_pow]

theorem toUInt8_and_or (v : UInt64) :
    ((v &&& 127) ||| 128).toUInt8 = UInt8.ofNat (v.toNat % 128 + 128) := by
  apply UInt8.toNat_inj.mp
  have h128 : (128 : UInt64).toNat = 128 := rfl
  have hAnd : (v &&& 127).toNat = v.toNat % 128 := by
    exact and_two_pow_sub_one_eq_mod v.toNat 7
  have hOr := or_128_mod (v.toNat % 128)
  rw [UInt64.toNat_toUInt8, UInt64.toNat_or, hAnd, h128, UInt8.toNat_ofNat']
  omega

theorem encodeVarint64_of_lt (h : v.toNat < 128) :
    encodeVarint64 v = varintBytes (room + 1) v.toNat ∧
      varintLength v = (varintBytes (room + 1) v.toNat).length := by
  have hNot : ¬ v ≥ 128 := fun hGe => not_le.mpr h (UInt64.le_iff_toNat_le.mp hGe)
  have hByte : v.toUInt8 = UInt8.ofNat v.toNat := by
    apply UInt8.toNat_inj.mp
    rw [UInt64.toNat_toUInt8, UInt8.toNat_ofNat']
  rw [encodeVarint64, dif_neg hNot, varintLength, dif_neg hNot, varintBytes_of_lt h]
  exact ⟨rfl, rfl⟩

theorem encodeVarint64_varintBytes (h : v.toNat < 128 ^ (room + 1)) :
    encodeVarint64 v = varintBytes (room + 1) v.toNat ∧
      varintLength v = (varintBytes (room + 1) v.toNat).length := by
  induction room generalizing v with
  | zero => exact encodeVarint64_of_lt (by simpa using h)
  | succ room ih =>
    rcases lt_or_ge v.toNat 128 with hSmall | hLarge
    · exact encodeVarint64_of_lt hSmall
    · have hGe : v ≥ 128 := UInt64.le_iff_toNat_le.mpr hLarge
      have hShift := toNat_shiftRight_7 v
      have hDiv : (v >>> 7).toNat < 128 ^ (room + 1) := by
        rw [hShift, div_lt_iff_lt_mul (by decide)]
        exact h
      obtain ⟨hBytes, hLength⟩ := ih hDiv
      rw [hShift] at hBytes hLength
      rw [encodeVarint64, dif_pos hGe, varintLength, dif_pos hGe, toUInt8_and_or,
        varintBytes_of_ge hLarge, hBytes, hLength]
      exact ⟨rfl, rfl⟩

theorem encodeVarint64_eq (v : UInt64) : encodeVarint64 v = writeVarint v.toNat :=
  (encodeVarint64_varintBytes (v.toNat_lt.trans (by decide))).1

theorem varintLength_eq (v : UInt64) : varintLength v = (writeVarint v.toNat).length :=
  (encodeVarint64_varintBytes (v.toNat_lt.trans (by decide))).2

/-- How encoding goes wrong: bytes are written behind a buffer, or a `CHECK` fails. -/
inductive EncodeFailure where
  | overrun
  | check
deriving DecidableEq

/-- A buffer of `capacity` bytes, of which `bytes` have been written. -/
structure ProtoEncodeHelper where
  capacity : Nat
  bytes : List UInt8

namespace ProtoEncodeHelper

def size (e : ProtoEncodeHelper) : Nat := e.bytes.length

def put (bytes : List UInt8) (e : ProtoEncodeHelper) : Except EncodeFailure ProtoEncodeHelper :=
  if e.size + bytes.length ≤ e.capacity then .ok { e with bytes := e.bytes ++ bytes }
  else .error .overrun

def combine (tag type : UInt32) : UInt32 := (tag <<< 3) ||| type

def encode32 (v : UInt32) (e : ProtoEncodeHelper) : Except EncodeFailure ProtoEncodeHelper :=
  if v < 128 then e.put [v.toUInt8] else e.put (encodeVarint32 v)

def encode64 (v : UInt64) (e : ProtoEncodeHelper) : Except EncodeFailure ProtoEncodeHelper :=
  e.put (encodeVarint64 v)

/-- `EncodeBytes`; `int N` is the number of bytes. -/
def encodeBytes (bytes : List UInt8) (e : ProtoEncodeHelper) :
    Except EncodeFailure ProtoEncodeHelper :=
  if bytes.length < 2 ^ 31 then e.put bytes else .error .overrun

def writeUint64 (tag : UInt32) (v : UInt64) (e : ProtoEncodeHelper) :
    Except EncodeFailure ProtoEncodeHelper := do
  let e ← e.encode32 (combine tag 0)
  e.encode64 v

def writeVarlengthBeginning (tag len : UInt32) (e : ProtoEncodeHelper) :
    Except EncodeFailure ProtoEncodeHelper := do
  let e ← e.encode32 (combine tag 2)
  e.encode32 len

def writeRawBytes (v : List UInt8) (e : ProtoEncodeHelper) :
    Except EncodeFailure ProtoEncodeHelper := e.encodeBytes v

def Writes (f : ProtoEncodeHelper → Except EncodeFailure ProtoEncodeHelper) (bytes : List UInt8) :
    Prop :=
  ∀ e : ProtoEncodeHelper, e.size + bytes.length ≤ e.capacity →
    f e = .ok { e with bytes := e.bytes ++ bytes }

theorem put_writes (bytes : List UInt8) : Writes (put bytes) bytes := by
  intro e hFits
  rw [put, if_pos hFits]

theorem Writes.nil : Writes .ok [] := by
  intro e _
  rw [append_nil]

theorem Writes.bind {f g : ProtoEncodeHelper → Except EncodeFailure ProtoEncodeHelper}
    {bytes bytes' : List UInt8} (hf : Writes f bytes) (hg : Writes g bytes') :
    Writes (fun e => f e >>= g) (bytes ++ bytes') := by
  intro e hFits
  rw [length_append, ← add_assoc] at hFits
  have hFirst := hf e (by omega)
  have hSecond := hg { e with bytes := e.bytes ++ bytes }
    (by simp only [size, length_append]; exact hFits)
  simp only [hFirst]
  rw [← append_assoc]
  exact hSecond

theorem encode32_writes (v : UInt32) : Writes (encode32 v) (writeVarint v.toNat) := by
  have h : encode32 v = put (writeVarint v.toNat) := by
    funext e
    rw [encode32]
    split
    · rename_i hSmall
      have hLess : v.toNat < 128 := UInt32.lt_iff_toNat_lt.mp hSmall
      rw [writeVarint, varintBytes_of_lt hLess, ← toUInt8_eq rfl]
    · rw [encodeVarint32_eq]
  rw [h]
  exact put_writes _

theorem encode64_writes (v : UInt64) : Writes (encode64 v) (writeVarint v.toNat) := by
  have h : encode64 v = put (writeVarint v.toNat) := by
    funext e
    rw [encode64, encodeVarint64_eq]
  rw [h]
  exact put_writes _

theorem encodeBytes_writes {bytes : List UInt8} (h : bytes.length < 2 ^ 31) :
    Writes (encodeBytes bytes) bytes := by
  intro e hFits
  rw [encodeBytes, if_pos h, put, if_pos hFits]

theorem toNat_combine {tag type : UInt32} (hTag : tag.toNat < 2 ^ 29) (hType : type.toNat < 8) :
    (combine tag type).toNat = 8 * tag.toNat + type.toNat := by
  have h3 : (3 : UInt32).toNat % 32 = 3 := rfl
  have hShift : tag.toNat <<< 3 % 2 ^ 32 = tag.toNat <<< 3 := by
    omega
  rw [combine, UInt32.toNat_or, UInt32.toNat_shiftLeft, h3, hShift,
    ← shiftLeft_add_eq_or_of_lt hType]
  omega

theorem writeUint64_writes (tag : UInt32) (hTag : tag.toNat < 2 ^ 29) (v : UInt64) :
    Writes (writeUint64 tag v) (Field.write ⟨tag.toNat, .varint v⟩) := by
  have hKey : (combine tag 0).toNat = 8 * tag.toNat + 0 := toNat_combine hTag (by decide)
  have h := (encode32_writes (combine tag 0)).bind (encode64_writes v)
  rw [hKey] at h
  exact h

theorem writeVarlengthBeginning_writes (tag len : UInt32) (hTag : tag.toNat < 2 ^ 29) :
    Writes (writeVarlengthBeginning tag len) (Field.delimitedHead tag.toNat len.toNat) := by
  have hKey : (combine tag 2).toNat = 8 * tag.toNat + 2 := toNat_combine hTag (by decide)
  have h := (encode32_writes (combine tag 2)).bind (encode32_writes len)
  rw [hKey] at h
  exact h

theorem writeVarlength_writes (tag : UInt32) {len : UInt32} (hTag : tag.toNat < 2 ^ 29)
    {f : ProtoEncodeHelper → Except EncodeFailure ProtoEncodeHelper} {bytes : List UInt8}
    (hLen : len.toNat = bytes.length) (hf : Writes f bytes) :
    Writes (fun e => writeVarlengthBeginning tag len e >>= f)
      (Field.write ⟨tag.toNat, .delimited bytes⟩) := by
  rw [Field.write_delimited, ← hLen]
  exact (writeVarlengthBeginning_writes tag len hTag).bind hf

end ProtoEncodeHelper

end TensorFlowOnSpark.Io
