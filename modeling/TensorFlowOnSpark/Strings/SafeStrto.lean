import Mathlib.Data.List.TakeWhile
import TensorFlowOnSpark.Strings.Numbers

/-!
# Reading integers

The integers that `safe_strto64`, `safe_strtou64`, `safe_strto32` and `safe_strtou32` of
`lib/strings/numbers.cc` accept.
-/

namespace TensorFlowOnSpark.Strings

open Numeral List Int Nat Option

variable {α γ : Type*}

/-- `Consume("-")` of the signed functions. -/
def consumeSign (signed : Bool) : List Char → Bool × List Char
  | '-' :: rest => if signed then (true, rest) else (false, '-' :: rest)
  | str => (false, str)

/-- A loop over the digits that stops when `next` fails. -/
def digitLoop (next : γ → Nat → Option γ) (result : γ) : List Char → Option (γ × List Char)
  | [] => some (result, [])
  | c :: rest =>
    if isDigit c then (next result (digitValue c)).bind fun result => digitLoop next result rest
    else some (result, c :: rest)

/-- What the functions share around the loop over the digits. -/
def safeStrto (signed : Bool) (loop : Bool → List Char → Option (γ × List Char))
    (str : List Char) : Option γ :=
  let (negative, str) := consumeSign signed (skipSpaces str)
  if !(str.head?.any isDigit) then none
  else
    match loop negative str with
    | none => none
    | some (result, rest) => if skipSpaces rest = [] then some result else none

def strtou64Loop : Int64 → List Char → Option (Int64 × List Char) :=
  digitLoop fun result digit =>
    if (0xffffffffffffffff - UInt64.ofNat digit) / 10 < result.toUInt64 then none
    else some (result * 10 + Int64.ofNat digit)

def safeStrtou64 (str : List Char) : Option UInt64 :=
  (safeStrto false (fun _ => strtou64Loop 0) str).map Int64.toUInt64

/-- The loop of `safe_strto32` and of `safe_strtou32`, in 64 bits. -/
def strto32Loop (vmax : Int) : Int → List Char → Option (Int × List Char) :=
  digitLoop fun result digit =>
    if vmax < result * 10 + digit then none else some (result * 10 + digit)

def safeStrto32 (str : List Char) : Option Int32 :=
  (safeStrto true (fun negative s =>
    (strto32Loop (2 ^ 31 - 1 + if negative then 1 else 0) 0 s).map fun (result, rest) =>
      (result * if negative then -1 else 1, rest)) str).map Int32.ofInt

def safeStrtou32 (str : List Char) : Option UInt32 :=
  (safeStrto false (fun _ => strto32Loop (2 ^ 32 - 1) 0) str).map fun result =>
    UInt32.ofNat result.toNat

theorem safeStrto64_eq (str : List Char) : safeStrto64 str =
    (safeStrto true (fun negative => if negative then strto64Negative 0 else strto64Positive 0)
      str).map Int64.ofInt := by
  grind [safeStrto64, safeStrto, consumeSign]

def valueFrom (v : Nat) (digits : List Char) : Nat :=
  digits.foldl (fun v c => v * 10 + digitValue c) v

/-- White space, a sign, digits and white space. -/
def Splits (signed : Bool) (str : List Char) (negative : Bool) (digits : List Char) : Prop :=
  ∃ before after, str = before ++ ((if negative then ['-'] else []) ++ (digits ++ after)) ∧
    before.all isSpace ∧ after.all isSpace ∧ digits.all isDigit ∧ digits ≠ [] ∧
    (negative → signed)

/-- The number of a string that splits so. -/
def Denotes (signed : Bool) (str : List Char) (x : Int) : Prop :=
  ∃ negative digits, Splits signed str negative digits ∧
    x = if negative then -(valueFrom 0 digits : Int) else (valueFrom 0 digits : Int)

/-- The digits are taken and give a value within the limit. -/
def Scans (loop : List Char → Option (γ × List Char)) (limit : Nat) (out : Nat → γ) : Prop :=
  ∀ s, loop s = if valueFrom 0 (s.takeWhile isDigit) ≤ limit then
    some (out (valueFrom 0 (s.takeWhile isDigit)), s.dropWhile isDigit) else none

theorem le_valueFrom (v : Nat) (digits : List Char) : v ≤ valueFrom v digits := by
  induction digits generalizing v with
  | nil => exact le_refl v
  | cons c digits ih => exact (show v ≤ v * 10 + digitValue c by omega).trans (ih _)

theorem digitValue_le {c : Char} (h : isDigit c) : digitValue c ≤ 9 := by
  have hNine : c ≤ '9' := (of_decide_eq_true h).2
  have hLe : c.toNat ≤ 57 := hNine
  rw [digitValue]
  omega

theorem scans_digitLoop {next : γ → Nat → Option γ} {limit : Nat} {out : Nat → γ} {start : γ}
    (hStart : out 0 = start) (hNext : ∀ v d, v ≤ limit → d ≤ 9 →
      next (out v) d = if v * 10 + d ≤ limit then some (out (v * 10 + d)) else none) :
    Scans (digitLoop next start) limit out := by
  have hLoop (v : Nat) (hv : v ≤ limit) (s : List Char) : digitLoop next (out v) s =
      if valueFrom v (s.takeWhile isDigit) ≤ limit then
        some (out (valueFrom v (s.takeWhile isDigit)), s.dropWhile isDigit) else none := by
    induction s generalizing v with
    | nil => exact (if_pos hv).symm
    | cons c s ih =>
      rw [digitLoop]
      split
      · rename_i hDigit
        rw [hNext _ _ hv (digitValue_le hDigit), takeWhile_cons_of_pos hDigit,
          dropWhile_cons_of_pos hDigit]
        by_cases hFits : v * 10 + digitValue c ≤ limit
        · rw [if_pos hFits]
          exact ih _ hFits
        · rw [if_neg hFits, if_neg]
          · rfl
          · exact fun hLe => hFits ((le_valueFrom _ _).trans hLe)
      · rename_i hDigit
        rw [takeWhile_cons_of_neg hDigit, dropWhile_cons_of_neg hDigit]
        exact (if_pos hv).symm
  rw [← hStart]
  exact hLoop 0 (zero_le _)

theorem not_isSpace_of_isDigit {c : Char} (h : isDigit c) : isSpace c = false := by
  by_contra hSpace
  simp only [isSpace, Bool.not_eq_false, decide_eq_true_eq, mem_cons, not_mem_nil,
    or_false] at hSpace
  rcases hSpace with rfl | rfl | rfl | rfl | rfl | rfl <;> exact absurd h (by decide)

theorem takeWhile_digits {digits after : List Char} (hDigits : digits.all isDigit)
    (hAfter : after.all isSpace) : (digits ++ after).takeWhile isDigit = digits ∧
      (digits ++ after).dropWhile isDigit = after := by
  have hNone : after.takeWhile isDigit = [] ∧ after.dropWhile isDigit = after := by
    cases after with
    | nil => exact ⟨rfl, rfl⟩
    | cons c after =>
      have hNot : ¬isDigit c := fun h => by
        simp [not_isSpace_of_isDigit h] at hAfter
      exact ⟨takeWhile_cons_of_neg hNot, dropWhile_cons_of_neg hNot⟩
  rw [takeWhile_append_of_pos (by simpa using hDigits),
    dropWhile_append_of_pos (by simpa using hDigits), hNone.1, hNone.2, append_nil]
  exact ⟨rfl, rfl⟩

theorem skipSpaces_eq_nil {s : List Char} : skipSpaces s = [] ↔ s.all isSpace := by
  rw [skipSpaces, dropWhile_eq_nil_iff, List.all_eq_true]

variable {signed : Bool}

theorem consumeSign_eq (signed : Bool) (s : List Char) :
    s = (if (consumeSign signed s).1 then ['-'] else []) ++ (consumeSign signed s).2 ∧
      ((consumeSign signed s).1 → signed) := by
  unfold consumeSign
  split
  · cases signed
    · exact ⟨rfl, Bool.noConfusion⟩
    · exact ⟨rfl, fun _ => rfl⟩
  · exact ⟨rfl, Bool.noConfusion⟩

theorem consumeSign_append {negative : Bool} {c : Char} {rest : List Char}
    (hDigit : isDigit c) (hSigned : negative → signed) :
    consumeSign signed ((if negative then ['-'] else []) ++ c :: rest) = (negative, c :: rest) := by
  cases negative with
  | true =>
    rw [hSigned rfl]
    rfl
  | false =>
    unfold consumeSign
    split
    · rename_i hMinus
      rw [(cons.inj hMinus).1] at hDigit
      exact absurd hDigit (by decide)
    · rfl

variable {loop : Bool → List Char → Option (γ × List Char)} {limit : Bool → Nat}
variable {out : Bool → Nat → γ} {str : List Char}

section

variable (hLoop : ∀ negative, Scans (loop negative) (limit negative) (out negative))

include hLoop

theorem Denotes.of_safeStrto {r : γ} (h : safeStrto signed loop str = some r) :
    ∃ negative digits, Splits signed str negative digits ∧
      valueFrom 0 digits ≤ limit negative ∧ r = out negative (valueFrom 0 digits) := by
  obtain ⟨hSign, hSigned⟩ := consumeSign_eq signed (skipSpaces str)
  rw [safeStrto] at h
  generalize consumeSign signed (skipSpaces str) = s at h hSign hSigned
  simp only [hLoop s.1 s.2] at h
  split at h
  · cases h
  · rename_i hHead
    by_cases hFits : valueFrom 0 (s.2.takeWhile isDigit) ≤ limit s.1
    · simp only [if_pos hFits] at h
      split at h
      · rename_i hAfter
        cases h
        refine ⟨s.1, s.2.takeWhile isDigit, ⟨str.takeWhile isSpace, s.2.dropWhile isDigit, ?_,
          all_takeWhile, skipSpaces_eq_nil.mp hAfter, all_takeWhile, ?_, hSigned⟩, hFits, rfl⟩
        · rw [takeWhile_append_dropWhile, ← hSign]
          exact takeWhile_append_dropWhile.symm
        · intro hNone
          cases hStr : s.2 with
          | nil => simp [hStr] at hHead
          | cons c rest => simp_all
      · cases h
    · simp only [if_neg hFits] at h
      cases h

theorem Splits.safeStrto {negative : Bool} {digits : List Char}
    (h : Splits signed str negative digits)
    (hFits : valueFrom 0 digits ≤ limit negative) :
    safeStrto signed loop str = some (out negative (valueFrom 0 digits)) := by
  obtain ⟨before, after, rfl, hBefore, hAfter, hDigits, hSome, hSigned⟩ := h
  obtain ⟨hTake, hDrop⟩ := takeWhile_digits hDigits hAfter
  obtain ⟨c, rest, rfl⟩ := exists_cons_of_ne_nil hSome
  have hDigit : isDigit c := all_eq_true.mp hDigits c mem_cons_self
  have hSpaces : skipSpaces (before ++ ((if negative then ['-'] else []) ++ (c :: rest ++ after))) =
      (if negative then ['-'] else []) ++ (c :: rest ++ after) := by
    rw [skipSpaces, dropWhile_append_of_pos (by simpa using hBefore)]
    cases negative
    · exact dropWhile_cons_of_neg (by simp [not_isSpace_of_isDigit hDigit])
    · exact dropWhile_cons_of_neg (by decide)
  have hRead : loop negative (c :: (rest ++ after)) =
      some (out negative (valueFrom 0 (c :: rest)), after) := by
    rw [hLoop negative, ← cons_append, hTake, hDrop, if_pos hFits]
  rw [safeStrto, hSpaces, cons_append, consumeSign_append hDigit hSigned]
  simp only [hRead, skipSpaces_eq_nil.mpr hAfter, head?_cons, any_some, hDigit]
  rfl

end

theorem safeStrto_iff (limit : Bool → Nat) (out : Bool → Nat → γ) {conv : γ → α} {x : α}
    {toInt : Int}
    (hLoop : ∀ negative, Scans (loop negative) (limit negative) (out negative))
    (hConv : ∀ (negative : Bool) (v : Nat), (negative → signed) →
      ((v ≤ limit negative ∧ conv (out negative v) = x) ↔
        toInt = if negative then -(v : Int) else (v : Int))) :
    (safeStrto signed loop str).map conv = some x ↔ Denotes signed str toInt := by
  rw [map_eq_some_iff]
  constructor
  · rintro ⟨r, hRead, hx⟩
    obtain ⟨negative, digits, hSplits, hFits, rfl⟩ := Denotes.of_safeStrto hLoop hRead
    obtain ⟨-, -, -, -, -, -, -, hSigned⟩ := id hSplits
    exact ⟨negative, digits, hSplits, (hConv negative _ hSigned).mp ⟨hFits, hx⟩⟩
  · rintro ⟨negative, digits, hSplits, hx⟩
    obtain ⟨-, -, -, -, -, -, -, hSigned⟩ := id hSplits
    obtain ⟨hFits, hx⟩ := (hConv negative _ hSigned).mpr hx
    exact ⟨_, hSplits.safeStrto hLoop hFits, hx⟩

theorem scans_strto64Positive : Scans (strto64Positive 0) (2 ^ 63 - 1) fun v => (v : Int) := by
  have hLoop (v : Int) (s : List Char) : strto64Positive v s = digitLoop (fun result digit =>
      if (kint64max - digit).tdiv 10 < result then none else some (result * 10 + digit)) v s := by
    induction s generalizing v <;> grind [strto64Positive, digitLoop]
  rw [funext (hLoop 0)]
  refine scans_digitLoop rfl fun v d hv hNine => ?_
  have hLimit : (kint64max - (d : Int)).tdiv 10 < v ↔ ¬v * 10 + d ≤ 2 ^ 63 - 1 := by
    rw [kint64max, tdiv_eq_ediv_of_nonneg (by omega)]
    omega
  simp only [hLimit, ite_not]
  rfl

theorem scans_strto64Negative : Scans (strto64Negative 0) (2 ^ 63) fun v => -(v : Int) := by
  have hLoop (v : Int) (s : List Char) : strto64Negative v s = digitLoop (fun result digit =>
      if (kint64min + digit).tdiv 10 > result then none else some (result * 10 - digit)) v s := by
    induction s generalizing v <;> grind [strto64Negative, digitLoop]
  rw [funext (hLoop 0)]
  refine scans_digitLoop rfl fun v d hv hNine => ?_
  have hNeg : kint64min + (d : Int) = -((2 ^ 63 : Int) - d) := by
    rw [kint64min]
    omega
  have hLimit : (kint64min + (d : Int)).tdiv 10 > -(v : Int) ↔ ¬v * 10 + d ≤ 2 ^ 63 := by
    rw [hNeg, Int.neg_tdiv, tdiv_eq_ediv_of_nonneg (by omega)]
    omega
  have hNext : -(v : Int) * 10 - d = -((v * 10 + d : Nat) : Int) := by
    omega
  simp only [hLimit, ite_not, hNext]

theorem scans_strtou64 : Scans (strtou64Loop 0) (2 ^ 64 - 1) Int64.ofNat := by
  refine scans_digitLoop rfl fun v d hv hNine => ?_
  have hLimit : (0xffffffffffffffff - UInt64.ofNat d) / 10 < (Int64.ofNat v).toUInt64 ↔
      ¬v * 10 + d ≤ 2 ^ 64 - 1 := by
    have hSmall : (UInt64.ofNat d).toNat = d := by
      rw [UInt64.toNat_ofNat', mod_eq_of_lt (by omega)]
    have hValue : (Int64.ofNat v).toUInt64.toNat = v := by
      change (UInt64.ofNat v).toNat = v
      rw [UInt64.toNat_ofNat', mod_eq_of_lt (by omega)]
    rw [UInt64.lt_iff_toNat_lt, UInt64.toNat_div, UInt64.toNat_sub_of_le, hSmall, hValue]
    · change (2 ^ 64 - 1 - d) / 10 < v ↔ _
      omega
    · rw [UInt64.le_iff_toNat_le, hSmall]
      exact hNine.trans (by decide)
  have hNext : Int64.ofNat v * 10 + Int64.ofNat d = Int64.ofNat (v * 10 + d) := by
    rw [Int64.ofNat_add, Int64.ofNat_mul]
    rfl
  simp only [hLimit, ite_not, hNext]

theorem scans_strto32 (vmax : Nat) : Scans (strto32Loop vmax 0) vmax fun v => (v : Int) := by
  refine scans_digitLoop rfl fun v d _ _ => ?_
  have hLimit : (vmax : Int) < v * 10 + d ↔ ¬v * 10 + d ≤ vmax := by
    omega
  simp only [hLimit, ite_not]
  rfl

theorem fits_iff {m n : Nat} {x y : Int} {p : Prop} (hn : n = 2 * m) (hLow : -m ≤ x) (hHigh : x < m)
    (hp : p ↔ -m ≤ y ∧ y < m) : (p ∧ y.bmod n = x) ↔ x = y := by
  have hSame (h : -m ≤ y ∧ y < m) : y.bmod n = y :=
    bmod_eq_of_le (by omega) (by omega)
  rw [hp]
  constructor
  · rintro ⟨h, hx⟩
    rw [← hx, hSame h]
  · rintro rfl
    exact ⟨⟨hLow, hHigh⟩, hSame ⟨hLow, hHigh⟩⟩

theorem safeStrto64_iff (str : List Char) (x : Int64) :
    safeStrto64 str = some x ↔ Denotes true str x.toInt := by
  rw [safeStrto64_eq]
  refine safeStrto_iff (fun negative => if negative then 2 ^ 63 else 2 ^ 63 - 1)
    (fun negative v => if negative then -(v : Int) else v) ?_ ?_
  · rintro (_ | _)
    · exact scans_strto64Positive
    · exact scans_strto64Negative
  · intro negative v _
    have hLow := x.le_toInt
    have hHigh := x.toInt_lt
    rw [← Int64.toInt_inj, Int64.toInt_ofInt]
    cases negative
    · simp only [Bool.false_eq_true, if_false]
      exact fits_iff (m := 2 ^ 63) (by decide) hLow hHigh (by omega)
    · simp only [if_true]
      exact fits_iff (m := 2 ^ 63) (by decide) hLow hHigh (by omega)

theorem safeStrtou64_iff (str : List Char) (x : UInt64) :
    safeStrtou64 str = some x ↔ Denotes false str x.toNat := by
  refine safeStrto_iff _ _ (fun _ => scans_strtou64) ?_
  rintro (_ | _) v hSigned
  · have hx := x.toNat_lt
    change v ≤ 2 ^ 64 - 1 ∧ UInt64.ofNat v = x ↔ (x.toNat : Int) = v
    rw [← UInt64.toNat_inj, UInt64.toNat_ofNat']
    omega
  · exact absurd (hSigned rfl) Bool.false_ne_true

theorem safeStrto32_iff (str : List Char) (x : Int32) :
    safeStrto32 str = some x ↔ Denotes true str x.toInt := by
  refine safeStrto_iff (fun negative => 2 ^ 31 - 1 + if negative then 1 else 0)
    (fun negative v => (v : Int) * if negative then -1 else 1) ?_ ?_
  · intro negative s
    have hLimit : (2 ^ 31 - 1 + if negative then 1 else 0 : Int) =
        (2 ^ 31 - 1 + if negative then 1 else 0 : Nat) := by
      cases negative <;> rfl
    simp only [hLimit, scans_strto32 _ s, apply_ite (Option.map _)]
    rfl
  · intro negative v _
    have hLow := x.le_toInt
    have hHigh := x.toInt_lt
    rw [← Int32.toInt_inj, Int32.toInt_ofInt]
    cases negative
    · simp only [Bool.false_eq_true, if_false, mul_one]
      exact fits_iff (m := 2 ^ 31) (by decide) hLow hHigh (by omega)
    · simp only [if_true, mul_neg, mul_one]
      exact fits_iff (m := 2 ^ 31) (by decide) hLow hHigh (by omega)

theorem safeStrtou32_iff (str : List Char) (x : UInt32) :
    safeStrtou32 str = some x ↔ Denotes false str x.toNat := by
  refine safeStrto_iff _ _ (fun _ => scans_strto32 (2 ^ 32 - 1)) ?_
  rintro (_ | _) v hSigned
  · have hx := x.toNat_lt
    change v ≤ 2 ^ 32 - 1 ∧ UInt32.ofNat v = x ↔ (x.toNat : Int) = v
    rw [← UInt32.toNat_inj, UInt32.toNat_ofNat']
    omega
  · exact absurd (hSigned rfl) Bool.false_ne_true

theorem takes_valueFrom (limit : Nat) : TakesDigits 10 digitChar limit valueFrom := by
  intro v d tail hd _
  rw [valueFrom, foldl_cons, digitValue_digitChar hd]
  rfl

theorem denotes_numeral (n : Nat) (negative : Bool) (hSigned : negative → signed) :
    Denotes signed ((if negative then ['-'] else []) ++ numeral 10 digitChar n)
      (if negative then -(n : Int) else n) := by
  have hRead := read_numeral (by decide) (takes_valueFrom n) (le_refl n) []
  rw [append_nil] at hRead
  refine ⟨negative, numeral 10 digitChar n, ⟨[], [], by simp, rfl, rfl, ?_,
    numeral_ne_nil 10 digitChar n, hSigned⟩, by rw [hRead]; rfl⟩
  refine all_eq_true.mpr fun c hc => ?_
  obtain ⟨d, hd, rfl⟩ := mem_numeral (by decide) hc
  exact isDigit_digitChar hd

/-- The decimal string of a number is read as the number, the least one included. -/
theorem safeStrto64_fastInt64 (i : Int64) : safeStrto64 (fastInt64ToBufferLeft i) = some i := by
  rw [safeStrto64_iff, toInt_cases, fastInt64ToBufferLeft, fastUInt64ToBufferLeft_eq,
    fastUInt64ToBufferLeft_eq]
  split
  · exact denotes_numeral _ true fun _ => rfl
  · exact denotes_numeral _ false fun _ => rfl

/-- The four functions read the number of a string of their kind, and the decimal text of each
number is read as the number. -/
theorem safeStrto_exact :
    (∀ str, (∀ x : Int32, safeStrto32 str = some x ↔ Denotes true str x.toInt) ∧
      (∀ x : Int64, safeStrto64 str = some x ↔ Denotes true str x.toInt) ∧
      (∀ x : UInt32, safeStrtou32 str = some x ↔ Denotes false str x.toNat) ∧
      (∀ x : UInt64, safeStrtou64 str = some x ↔ Denotes false str x.toNat)) ∧
    (∀ i, safeStrto64 (fastInt64ToBufferLeft i) = some i) ∧
    (∀ i, safeStrtou64 (fastUInt64ToBufferLeft i) = some i) := by
  refine ⟨fun str => ⟨safeStrto32_iff str, safeStrto64_iff str, safeStrtou32_iff str,
    safeStrtou64_iff str⟩, safeStrto64_fastInt64, fun i => ?_⟩
  rw [safeStrtou64_iff, fastUInt64ToBufferLeft_eq]
  exact denotes_numeral _ false Bool.noConfusion

end TensorFlowOnSpark.Strings
