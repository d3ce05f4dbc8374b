import Mathlib.Algebra.Group.Nat.Defs
import Mathlib.Algebra.GroupWithZero.Nat
import Mathlib.Data.List.Nodup
import Mathlib.Logic.Function.Iterate
import Mathlib.Tactic.SplitIfs

/-!
# Philox random numbers

`PhiloxRandom` of `lib/random/philox_random.h`.
-/

namespace TensorFlowOnSpark.Random

open Nat

/-- `Array<uint32, 4>`, the low word first. -/
structure ResultType where
  w0 : UInt32
  w1 : UInt32
  w2 : UInt32
  w3 : UInt32
deriving DecidableEq

structure Key where
  k0 : UInt32
  k1 : UInt32
deriving DecidableEq

structure PhiloxRandom where
  counter : ResultType
  key : Key
deriving DecidableEq

namespace PhiloxRandom

def multiplyHighLow (a b : UInt32) : UInt32 × UInt32 :=
  let product := a.toUInt64 * b.toUInt64
  (product.toUInt32, (product >>> 32).toUInt32)

def computeSingleRound (counter : ResultType) (key : Key) : ResultType :=
  let (lo0, hi0) := multiplyHighLow 0xD2511F53 counter.w0
  let (lo1, hi1) := multiplyHighLow 0xCD9E8D57 counter.w2
  ⟨hi1 ^^^ counter.w1 ^^^ key.k0, lo1, hi0 ^^^ counter.w3 ^^^ key.k1, lo0⟩

def raiseKey (key : Key) : Key := ⟨key.k0 + 0x9E3779B9, key.k1 + 0xBB67AE85⟩

def rounds : Nat → ResultType → Key → ResultType
  | 0, counter, _ => counter
  | n + 1, counter, key => rounds n (computeSingleRound counter key) (raiseKey key)

def skipOne (g : PhiloxRandom) : PhiloxRandom :=
  let c := g.counter
  let w0 := c.w0 + 1
  let w1 := if w0 = 0 then c.w1 + 1 else c.w1
  let w2 := if w0 = 0 ∧ w1 = 0 then c.w2 + 1 else c.w2
  let w3 := if w0 = 0 ∧ w1 = 0 ∧ w2 = 0 then c.w3 + 1 else c.w3
  { g with counter := ⟨w0, w1, w2, w3⟩ }

def skip (count : UInt64) (g : PhiloxRandom) : PhiloxRandom :=
  let c := g.counter
  let countLo := count.toUInt32
  let w0 := c.w0 + countLo
  let countHi := (count >>> 32).toUInt32 + if w0 < countLo then 1 else 0
  let w1 := c.w1 + countHi
  let w2 := if w1 < countHi then c.w2 + 1 else c.w2
  let w3 := if w1 < countHi ∧ w2 = 0 then c.w3 + 1 else c.w3
  { g with counter := ⟨w0, w1, w2, w3⟩ }

/-- What `operator()` returns before it skips one. -/
def sample (g : PhiloxRandom) : ResultType := rounds 10 g.counter g.key

/-- A fill of an output by calls of `operator()`. -/
def fill : Nat → PhiloxRandom → List ResultType
  | 0, _ => []
  | n + 1, g => g.sample :: fill n g.skipOne

theorem fill_append (n m : Nat) (g : PhiloxRandom) :
    fill (n + m) g = fill n g ++ fill m (skipOne^[n] g) := by
  induction n generalizing g with
  | zero => rw [zero_add]; rfl
  | succ n ih =>
    rw [Nat.add_right_comm, fill, fill, ih, Function.iterate_succ_apply, List.cons_append]

end PhiloxRandom

def ResultType.value (c : ResultType) : Nat :=
  c.w0.toNat + 2 ^ 32 * (c.w1.toNat + 2 ^ 32 * (c.w2.toNat + 2 ^ 32 * c.w3.toNat))

theorem ResultType.value_lt (c : ResultType) : c.value < 2 ^ 128 := by
  have h0 := c.w0.toNat_lt
  have h1 := c.w1.toNat_lt
  have h2 := c.w2.toNat_lt
  have h3 := c.w3.toNat_lt
  unfold value
  omega

theorem ResultType.value_inj {c c' : ResultType} (h : c.value = c'.value) : c = c' := by
  have h0 := c.w0.toNat_lt
  have h1 := c.w1.toNat_lt
  have h2 := c.w2.toNat_lt
  have h0' := c'.w0.toNat_lt
  have h1' := c'.w1.toNat_lt
  have h2' := c'.w2.toNat_lt
  unfold value at h
  cases c
  cases c'
  simp only [ResultType.mk.injEq, ← UInt32.toNat_inj] at *
  omega

namespace PhiloxRandom

theorem eq_zero_iff (w : UInt32) : w = 0 ↔ w.toNat = 0 := UInt32.toNat_inj.symm

theorem toNat_succ_if (w : UInt32) (p : Prop) [Decidable p] :
    (if p then w + 1 else w).toNat = (w.toNat + if p then 1 else 0) % 2 ^ 32 := by
  split
  · exact UInt32.toNat_add w 1
  · exact (mod_eq_of_lt w.toNat_lt).symm

theorem value_skipOne (g : PhiloxRandom) :
    g.skipOne.counter.value = (g.counter.value + 1) % 2 ^ 128 := by
  have h0 := g.counter.w0.toNat_lt
  have h1 := g.counter.w1.toNat_lt
  have h2 := g.counter.w2.toNat_lt
  simp only [skipOne, ResultType.value, eq_zero_iff, toNat_succ_if, UInt32.toNat_add]
  have hOne : (1 : UInt32).toNat = 1 := rfl
  split_ifs <;> omega

/-- The carry out of the low word is lost when it meets a high half of `n` that is all ones. -/
def LosesCarry (count : UInt64) (g : PhiloxRandom) : Prop :=
  2 ^ 64 - 2 ^ 32 ≤ count.toNat ∧ 2 ^ 32 ≤ g.counter.w0.toNat + count.toNat % 2 ^ 32

instance (count : UInt64) (g : PhiloxRandom) : Decidable (LosesCarry count g) :=
  inferInstanceAs (Decidable (_ ∧ _))

theorem value_skip (count : UInt64) (g : PhiloxRandom) :
    (g.skip count).counter.value = (g.counter.value + count.toNat +
      if LosesCarry count g then 2 ^ 128 - 2 ^ 64 else 0) % 2 ^ 128 := by
  have h0 := g.counter.w0.toNat_lt
  have h1 := g.counter.w1.toNat_lt
  have h2 := g.counter.w2.toNat_lt
  have hCount := count.toNat_lt
  have hLow : count.toUInt32.toNat = count.toNat % 2 ^ 32 := UInt64.toNat_toUInt32 count
  have hHigh : (count >>> 32).toUInt32.toNat = count.toNat / 2 ^ 32 := by
    change count.toNat >>> 32 % 2 ^ 32 = _
    rw [shiftRight_eq_div_pow, mod_eq_of_lt (by omega)]
  have hCarry (p : Prop) [Decidable p] : (if p then (1 : UInt32) else 0).toNat =
      if p then 1 else 0 := by
    split <;> rfl
  by_cases hLoses : LosesCarry count g
  · rw [if_pos hLoses]
    unfold LosesCarry at hLoses
    simp only [skip, ResultType.value, toNat_succ_if, UInt32.toNat_add, UInt32.lt_iff_toNat_lt,
      hCarry]
    split_ifs <;> omega
  · rw [if_neg hLoses]
    unfold LosesCarry at hLoses
    simp only [skip, ResultType.value, eq_zero_iff, toNat_succ_if, UInt32.toNat_add,
      UInt32.lt_iff_toNat_lt, hCarry]
    split_ifs <;> omega

theorem skipOne_iterate (n : Nat) (g : PhiloxRandom) :
    (skipOne^[n] g).counter.value = (g.counter.value + n) % 2 ^ 128 ∧
      (skipOne^[n] g).key = g.key := by
  induction n generalizing g with
  | zero => exact ⟨(mod_eq_of_lt g.counter.value_lt).symm, rfl⟩
  | succ n ih =>
    obtain ⟨hValue, hKey⟩ := ih g.skipOne
    rw [Function.iterate_succ_apply, hValue, value_skipOne]
    exact ⟨by omega, hKey⟩

/-- `Skip` counts as `SkipOne` does and fills that skip go on with one stream, except for a carry
that is lost. -/
theorem skip_eq_iterate_iff (count : UInt64) (g : PhiloxRandom) :
    (g.skip count = skipOne^[count.toNat] g ↔ ¬LosesCarry count g) ∧
      (¬LosesCarry count g → ∀ m,
        fill (count.toNat + m) g = fill count.toNat g ++ fill m (g.skip count)) := by
  obtain ⟨hValue, hKey⟩ := skipOne_iterate count.toNat g
  have hSkip := value_skip count g
  have hSame (hKeeps : ¬LosesCarry count g) : g.skip count = skipOne^[count.toNat] g := by
    rw [if_neg hKeeps, add_zero, ← hValue] at hSkip
    exact congrArg₂ mk (ResultType.value_inj hSkip) hKey.symm
  refine ⟨⟨fun hEq hLoses => ?_, hSame⟩, fun hKeeps m => ?_⟩
  · rw [if_pos hLoses, hEq] at hSkip
    omega
  · rw [fill_append, hSame hKeeps]

/-- A counter of 1 becomes 0 when all but one of `2 ^ 64` samples are skipped. -/
theorem skip_ne_iterate : skip 0xffffffffffffffff ⟨⟨1, 0, 0, 0⟩, ⟨0, 0⟩⟩ = ⟨⟨0, 0, 0, 0⟩, ⟨0, 0⟩⟩ ∧
    skip 0xffffffffffffffff ⟨⟨1, 0, 0, 0⟩, ⟨0, 0⟩⟩ ≠
      skipOne^[0xffffffffffffffff] ⟨⟨1, 0, 0, 0⟩, ⟨0, 0⟩⟩ := by
  have hZero : skip 0xffffffffffffffff ⟨⟨1, 0, 0, 0⟩, ⟨0, 0⟩⟩ = ⟨⟨0, 0, 0, 0⟩, ⟨0, 0⟩⟩ := by decide
  refine ⟨hZero, fun hEq => ?_⟩
  have hValue := (skipOne_iterate 0xffffffffffffffff ⟨⟨1, 0, 0, 0⟩, ⟨0, 0⟩⟩).1
  rw [← hEq] at hValue
  exact absurd hValue (by decide)

open List Function

variable {counter counter' : ResultType}

/-- The multipliers are odd, so they have inverses. -/
theorem computeSingleRound_inj {key : Key}
    (h : computeSingleRound counter key = computeSingleRound counter' key) :
    counter = counter' := by
  have hCancel (a' : UInt32) {a w w' : UInt32} (hInverse : a' * a = 1) (hEq : a * w = a * w') :
      w = w' := by
    rw [← UInt32.one_mul w, ← hInverse, UInt32.mul_assoc, hEq, ← UInt32.mul_assoc, hInverse,
      UInt32.one_mul]
  simp only [computeSingleRound, multiplyHighLow, ResultType.mk.injEq, UInt64.toUInt32_mul,
    UInt32.toUInt32_toUInt64] at h
  obtain ⟨h1, hLo1, h3, hLo0⟩ := h
  cases counter
  cases counter'
  obtain rfl := hCancel 0x991a7cdb (by decide) hLo0
  obtain rfl := hCancel 0x6d7cae67 (by decide) hLo1
  simp_all

theorem rounds_succ (n : Nat) :
    rounds (n + 1) = fun counter key => rounds n (computeSingleRound counter key) (raiseKey key) :=
  rfl

theorem rounds_inj {n : Nat} {key : Key}
    (h : rounds n counter key = rounds n counter' key) : counter = counter' := by
  induction n generalizing counter counter' key with
  | zero => exact h
  | succ n ih =>
    rw [rounds_succ] at h
    exact computeSingleRound_inj (ih h)

theorem sample_iterate_inj {i j : Nat} {g : PhiloxRandom} :
    (skipOne^[i] g).sample = (skipOne^[j] g).sample ↔ i % 2 ^ 128 = j % 2 ^ 128 := by
  obtain ⟨hi, hKey⟩ := skipOne_iterate i g
  obtain ⟨hj, hKey'⟩ := skipOne_iterate j g
  have hCounter : (skipOne^[i] g).counter = (skipOne^[j] g).counter ↔
      i % 2 ^ 128 = j % 2 ^ 128 := by
    refine Iff.trans ⟨congrArg ResultType.value, ResultType.value_inj⟩ ?_
    omega
  rw [sample, sample, hKey, hKey', ← hCounter]
  exact ⟨rounds_inj, fun h => by rw [h]⟩

theorem fill_eq_map (n : Nat) (g : PhiloxRandom) :
    fill n g = (range n).map fun i => (skipOne^[i] g).sample := by
  induction n with
  | zero => rfl
  | succ n ih =>
    rw [fill_append, ih, range_succ, map_append]
    rfl

theorem nodup_fill (n : Nat) (g : PhiloxRandom) : (fill n g).Nodup ↔ n ≤ 2 ^ 128 := by
  rw [fill_eq_map, nodup_map_iff_inj_on nodup_range]
  simp only [sample_iterate_inj, mem_range]
  refine ⟨fun h => ?_, fun h i hi j hj hEq => by omega⟩
  by_contra hMany
  have hZero := h 0 (by omega) (2 ^ 128) (by omega) (by decide)
  omega

end PhiloxRandom

end TensorFlowOnSpark.Random
