import Mathlib.Tactic.Ring
import TensorFlowOnSpark.Lib.WhileLoop
import TensorFlowOnSpark.CommonRuntime.BfcLayout
import TensorFlowOnSpark.CommonRuntime.BfcSteps

/-!
# When the loops of `Extend` end

The doubling loop works modulo `2 ^ 64`, so it ends only if some multiple by a power of
two reaches the request.
-/

namespace TensorFlowOnSpark.CommonRuntime

open Transition WhileLoop BFCAllocator Nat RoundToEven

section Doubling

variable {rounded curr : Nat} {increased : Bool}

/-- The first loop, on `curr_region_allocation_bytes_` and `increased_allocation`. -/
def doubling (rounded : Nat) : Loop (Nat × Bool) where
  guard state := state.1 < rounded
  body state := (sizeT (state.1 * 2), true)

theorem sizeT_mul (n k : Nat) : sizeT (sizeT n * k) = sizeT (n * k) := mod_mul_mod _ _ _

theorem doubling_iterate (hCurr : curr < 2 ^ 64) (n : Nat) :
    ((doubling rounded).body^[n] (curr, increased)).1 = sizeT (curr * 2 ^ n) := by
  induction n with
  | zero =>
    rw [pow_zero, mul_one, sizeT_of_lt hCurr]
    rfl
  | succ n ih =>
    rw [Function.iterate_succ_apply', pow_succ, ← mul_assoc, ← sizeT_mul, ← ih]
    rfl

theorem doubling_ends (increased : Bool) (hCurr : curr < 2 ^ 64) :
    Ends (doubling rounded) (curr, increased) ↔ ∃ n, rounded ≤ sizeT (curr * 2 ^ n) := by
  rw [ends_iff]
  refine exists_congr fun n => ?_
  rw [← doubling_iterate hCurr n]
  exact not_lt

theorem increase_leaves (turns : Nat) {curr' : Nat} {increased' : Bool}
    (hOk : increase rounded turns curr increased = .ok (curr', increased')) :
    Leaves (doubling rounded) (curr, increased) (curr', increased') := by
  induction turns generalizing curr increased with
  | zero => cases hOk
  | succ turns ih =>
    rw [increase] at hOk
    split at hOk
    · rename_i hGuard
      exact .turn hGuard (ih hOk)
    · rename_i hGuard
      cases hOk
      exact .stop hGuard

/-- When the doubling reaches a request: up to half of the address space it is enough that the
region size is not zero. -/
def Doubles (curr rounded : Nat) : Prop :=
  if rounded ≤ 2 ^ 63 then rounded = 0 ∨ curr ≠ 0
  else ∃ n < 56, rounded ≤ sizeT (curr * 2 ^ n)

theorem exists_top_bit (hPos : curr ≠ 0) (hCurr : curr < 2 ^ 64) :
    ∃ n < 64, 2 ^ 63 ≤ sizeT (curr * 2 ^ n) := by
  have hLow := log2_self_le hPos
  have hLog : curr.log2 < 64 := (log2_lt hPos).mpr hCurr
  have hHigh : curr < 2 ^ (curr.log2 + 1) := (log2_lt hPos).mp (lt_succ_self _)
  refine ⟨63 - curr.log2, by omega, ?_⟩
  have hScaled : 2 ^ 63 ≤ curr * 2 ^ (63 - curr.log2) := by
    calc 2 ^ 63 = 2 ^ curr.log2 * 2 ^ (63 - curr.log2) := by
          rw [← pow_add]
          congr 1
          omega
      _ ≤ curr * 2 ^ (63 - curr.log2) := mul_le_mul_right _ hLow
  have hFits : curr * 2 ^ (63 - curr.log2) < 2 ^ 64 := by
    calc curr * 2 ^ (63 - curr.log2) < 2 ^ (curr.log2 + 1) * 2 ^ (63 - curr.log2) :=
          mul_lt_mul_of_pos_right hHigh (Nat.two_pow_pos _)
      _ = 2 ^ 64 := by
          rw [← pow_add]
          congr 1
          omega
  rw [sizeT_of_lt hFits]
  exact hScaled

theorem Doubles.within (h : Doubles curr rounded) (hCurr : curr < 2 ^ 64) :
    ∃ n < 65, rounded ≤ sizeT (curr * 2 ^ n) := by
  rw [Doubles] at h
  split at h
  · rename_i hHalf
    rcases h with rfl | hPos
    · exact ⟨0, by omega, zero_le _⟩
    · obtain ⟨n, hn, hTop⟩ := exists_top_bit hPos hCurr
      exact ⟨n, by omega, le_trans hHalf hTop⟩
  · obtain ⟨n, hn, hReached⟩ := h
    exact ⟨n, by omega, hReached⟩

theorem doubles_iff (hCurr : curr < 2 ^ 64) (hUnit : 256 ∣ curr) :
    Doubles curr rounded ↔ ∃ n, rounded ≤ sizeT (curr * 2 ^ n) := by
  rw [Doubles]
  split
  · rename_i hHalf
    constructor
    · rintro (rfl | hPos)
      · exact ⟨0, zero_le _⟩
      · obtain ⟨n, _, hTop⟩ := exists_top_bit hPos hCurr
        exact ⟨n, le_trans hHalf hTop⟩
    · rintro ⟨n, hn⟩
      by_contra hNot
      obtain ⟨hRounded, rfl⟩ : rounded ≠ 0 ∧ curr = 0 := by simpa using hNot
      rw [sizeT] at hn
      omega
  · rename_i hHalf
    constructor
    · rintro ⟨n, _, hn⟩
      exact ⟨n, hn⟩
    · rintro ⟨n, hn⟩
      refine ⟨n, ?_, hn⟩
      by_contra hLarge
      obtain ⟨k, rfl⟩ := hUnit
      have hPow : 2 ^ n = 2 ^ (n - 56) * 2 ^ 56 := by
        rw [← pow_add]
        congr 1
        omega
      have hZero : sizeT (256 * k * 2 ^ n) = 0 := by
        rw [hPow, show 256 * k * (2 ^ (n - 56) * 2 ^ 56) = k * 2 ^ (n - 56) * 2 ^ 64 by ring]
        exact mul_mod_left _ _
      omega

end Doubling

section Shrinking

variable {bytes rounded : Nat}

def smaller (bytes : Nat) : Nat := roundedBytes (timesBackpedalFactor bytes)

/-- The product is 0.9 of the size up to one unit of the last bit of a `float`. -/
theorem timesBackpedalFactor_bounds (bytes : Nat) :
    timesBackpedalFactor bytes * 1000000 ≤ bytes * 900001 ∧
      bytes * 899999 ≤ (timesBackpedalFactor bytes + 1) * 1000000 := by
  have hBits : 24 ≠ 0 := by decide
  obtain ⟨hHigh, hLow⟩ := roundToEven_bounds hBits bytes
  obtain ⟨hHigh', hLow'⟩ := roundToEven_bounds hBits (roundToEven 24 bytes * kBackpedalFactor)
  rw [timesBackpedalFactor]
  rw [kBackpedalFactor] at hHigh' hLow' ⊢
  omega

theorem smaller_eq (hBytes : bytes < 2 ^ 64) :
    smaller bytes = (timesBackpedalFactor bytes + 255) / 256 * 256 := by
  have hBounds := timesBackpedalFactor_bounds bytes
  rw [smaller]
  generalize timesBackpedalFactor bytes = product at hBounds ⊢
  exact roundedBytes_eq (by omega)

/-- Up to ten units the loop is evaluated. -/
theorem smaller_units : ∀ k ≤ 10, smaller (256 * k) = 256 * min k 9 := by
  decide +kernel

section

variable (hUnit : 256 ∣ bytes)

include hUnit

theorem smaller_lt (hBytes : bytes < 2 ^ 64) (hLarge : 2304 < bytes) :
    smaller bytes < bytes ∧ 2304 ≤ smaller bytes := by
  obtain ⟨k, rfl⟩ := hUnit
  by_cases hTen : k = 10
  · rw [hTen, smaller_units 10 (le_refl _)]
    decide
  · have hBounds := timesBackpedalFactor_bounds (256 * k)
    rw [smaller_eq hBytes]
    omega

theorem smaller_fixed (hBytes : bytes ≤ 2304) : smaller bytes = bytes := by
  obtain ⟨k, rfl⟩ := hUnit
  rw [smaller_units k (by omega), min_eq_left (by omega)]

theorem smaller_unit (hBytes : bytes < 2 ^ 64) :
    256 ∣ smaller bytes ∧ smaller bytes ≤ bytes := by
  refine ⟨?_, ?_⟩
  · rw [smaller_eq hBytes]
    exact dvd_mul_left _ _
  · rcases le_or_gt bytes 2304 with hSmall | hLarge
    · exact le_of_eq (smaller_fixed hUnit hSmall)
    · exact le_of_lt (smaller_lt hUnit hBytes hLarge).1

end

/-- The variables of the second loop; `calls` counts the calls of `Alloc`. -/
structure Backpedal where
  memAddr : Option Nat
  bytes : Nat
  calls : Nat

/-- The second loop of `Extend`, with the answers that the sub-allocator gives. -/
def backpedalling (rounded : Nat) (alloc : Nat → Option Nat) : Loop Backpedal where
  guard state := state.memAddr = none ∧ rounded < state.bytes
  body state := ⟨alloc state.calls, smaller state.bytes, state.calls + 1⟩

variable {alloc : Nat → Option Nat} {calls : Nat}

/-- The second loop ends if the request has at least nine units, if the first size is not larger
than the request, or if one of the calls of `Alloc` succeeds. -/
theorem backpedalling_ends (hUnit : 256 ∣ bytes) (hBytes : bytes < 2 ^ 64) :
    Ends (backpedalling rounded alloc) ⟨none, bytes, calls⟩ ↔
      bytes ≤ rounded ∨ 2304 ≤ rounded ∨ ∃ i, calls ≤ i ∧ alloc i ≠ none := by
  constructor
  · intro hEnds
    by_contra hNot
    simp only [not_or, not_le, not_exists, not_and, not_not] at hNot
    obtain ⟨hFirst, hSmall, hRefused⟩ := hNot
    refine not_ends (fun state : Backpedal => state.memAddr = none ∧ rounded < state.bytes ∧
      256 ∣ state.bytes ∧ state.bytes < 2 ^ 64 ∧ calls ≤ state.calls) ?_ ?_
      ⟨rfl, hFirst, hUnit, hBytes, le_refl _⟩ hEnds
    · rintro state ⟨hNone, hGuard, _⟩
      exact ⟨hNone, hGuard⟩
    · rintro state ⟨_, hGuard, hUnit, hBytes, hCalls⟩
      have hNext := smaller_unit hUnit hBytes
      refine ⟨hRefused _ hCalls, ?_, hNext.1, ?_, le_succ_of_le hCalls⟩
      · change rounded < smaller state.bytes
        by_cases hLarge : 2304 < state.bytes
        · have hLess := smaller_lt hUnit hBytes hLarge
          omega
        · rw [smaller_fixed hUnit (by omega)]
          exact hGuard
      · change smaller state.bytes < 2 ^ 64
        omega
  · rintro (hSmall | hLarge | ⟨i, hCalls, hGranted⟩)
    · exact ⟨_, .stop fun h => not_lt.mpr hSmall h.2⟩
    · refine ends_of_measure (fun state : Backpedal => 256 ∣ state.bytes ∧ state.bytes < 2 ^ 64)
        Backpedal.bytes ?_ ⟨hUnit, hBytes⟩
      rintro state ⟨hUnit, hBytes⟩ ⟨_, hGuard⟩
      have hNext := smaller_unit hUnit hBytes
      have hLess := smaller_lt hUnit hBytes (by omega)
      exact ⟨⟨hNext.1, lt_of_le_of_lt hNext.2 hBytes⟩, hLess.1⟩
    · refine ends_of_measure (fun state : Backpedal => state.memAddr = none → state.calls ≤ i)
        (fun state => i + 1 - state.calls) ?_ fun _ => hCalls
      rintro state hInv ⟨hNone, _⟩
      have hLe := hInv hNone
      refine ⟨?_, ?_⟩
      · intro hRefused
        by_contra hLast
        obtain rfl : state.calls = i := by
          change ¬state.calls + 1 ≤ i at hLast
          omega
        exact hGranted hRefused
      · change i + 1 - (state.calls + 1) < i + 1 - state.calls
        omega

end Shrinking

section Extend

variable {s : BFCAllocator} {rounded : Nat} {alloc : Nat → Option Nat}

/-- Both loops of `Extend` end; the sub-allocator gives the answers `alloc` to the calls of
`Alloc`. -/
def ExtendEnds (s : BFCAllocator) (rounded : Nat) (alloc : Nat → Option Nat) : Prop :=
  s.availableBytes < rounded ∨ ∃ curr increased,
    Leaves (doubling rounded) (s.currRegionAllocationBytes, false) (curr, increased) ∧
      (alloc 0 = none → s.startedBackpedal = false →
        Ends (backpedalling rounded alloc) ⟨none, smaller (min curr s.availableBytes), 1⟩)

structure WholeUnits (curr : Nat) : Prop where
  unit : 256 ∣ curr
  fits : curr < 2 ^ 64

theorem WholeUnits.double {curr : Nat} (h : WholeUnits curr) : WholeUnits (sizeT (curr * 2)) := by
  have hUnit := h.unit
  rw [sizeT]
  constructor <;> omega

theorem wholeUnits_rounded (bytes : Nat) : WholeUnits (roundedBytes bytes) := by
  rw [roundedBytes, kMinAllocationSize, sizeT]
  constructor <;> omega

theorem WholeUnits.doubled {curr curr' : Nat} {increased increased' : Bool} (h : WholeUnits curr)
    (hLeaves : Leaves (doubling rounded) (curr, increased) (curr', increased')) :
    WholeUnits curr' ∧ rounded ≤ curr' :=
  ⟨hLeaves.invariant (fun state : Nat × Bool => WholeUnits state.1)
    (fun _ hInv _ => hInv.double) h, not_lt.mp hLeaves.out⟩

/-- A request of less than nine units is met exactly after at most three turns, or never. -/
theorem doubled_eq_iff {curr curr' : Nat} {increased increased' : Bool} (h : WholeUnits curr)
    (hSmall : rounded < 2304)
    (hLeaves : Leaves (doubling rounded) (curr, increased) (curr', increased')) :
    curr' = rounded ↔ ∃ n < 4, curr * 2 ^ n = rounded := by
  constructor
  · rintro rfl
    obtain ⟨n, hn⟩ := hLeaves.invariant (fun state : Nat × Bool => ∃ n, state.1 = curr * 2 ^ n)
      (by
        rintro ⟨curr₁, _⟩ ⟨n, hn⟩ hGuard
        change curr₁ = curr * 2 ^ n at hn
        change curr₁ < curr' at hGuard
        refine ⟨n + 1, ?_⟩
        change sizeT (curr₁ * 2) = curr * 2 ^ (n + 1)
        rw [sizeT_of_lt (by omega), hn, pow_succ, mul_assoc])
      ⟨0, (mul_one curr).symm⟩
    change curr' = curr * 2 ^ n at hn
    by_cases hZero : curr = 0
    · refine ⟨0, by omega, ?_⟩
      rw [hn, hZero, zero_mul, zero_mul]
    · refine ⟨n, ?_, hn.symm⟩
      by_contra hLarge
      have hPow : 2 ^ 4 ≤ 2 ^ n := Nat.pow_le_pow_right (by omega) (by omega)
      have hUnit := le_of_dvd (pos_of_ne_zero hZero) h.unit
      have hProduct := mul_le_mul hUnit hPow
      omega
  · rintro ⟨n, _, rfl⟩
    have hExact := hLeaves.invariant
      (fun state : Nat × Bool => ∃ m ≤ n, state.1 = curr * 2 ^ m)
      (by
        rintro ⟨curr₁, _⟩ ⟨m, hm, hState⟩ hGuard
        change curr₁ = curr * 2 ^ m at hState
        change curr₁ < curr * 2 ^ n at hGuard
        have hLess : m < n := by
          by_contra hNot
          obtain rfl : m = n := by omega
          omega
        refine ⟨m + 1, hLess, ?_⟩
        change sizeT (curr₁ * 2) = curr * 2 ^ (m + 1)
        rw [sizeT_of_lt (by omega), hState, pow_succ, mul_assoc])
      ⟨0, zero_le n, (mul_one curr).symm⟩
    obtain ⟨m, hm, hState⟩ := hExact
    have hOut := (h.doubled hLeaves).2
    have hPow : curr * 2 ^ m ≤ curr * 2 ^ n :=
      mul_le_mul_left _ (Nat.pow_le_pow_right (by omega) hm)
    omega

theorem availableBytes_units (s : BFCAllocator) : WholeUnits s.availableBytes := by
  rw [availableBytes, kMinAllocationSize, sizeT]
  constructor <;> omega

/-- When the loops of `Extend` end: the request is refused at once, or some doubling reaches it and
the second loop does not start, is stopped by a grant or has nothing to do at nine units. -/
def GrowthEnds (s : BFCAllocator) (rounded : Nat) (alloc : Nat → Option Nat) : Prop :=
  s.availableBytes < rounded ∨ Doubles s.currRegionAllocationBytes rounded ∧
    (s.startedBackpedal ∨ (∃ i, alloc i ≠ none) ∨ 2304 ≤ rounded ∨
      s.availableBytes = rounded ∨ ∃ n < 4, s.currRegionAllocationBytes * 2 ^ n = rounded)

theorem backpedalling_from {bytes : Nat} (h : WholeUnits bytes) (hEnough : rounded ≤ bytes) :
    Ends (backpedalling rounded alloc) ⟨none, smaller bytes, 1⟩ ↔
      bytes = rounded ∨ 2304 ≤ rounded ∨ ∃ i, 1 ≤ i ∧ alloc i ≠ none := by
  have hNext := smaller_unit h.unit h.fits
  rw [backpedalling_ends hNext.1 (lt_of_le_of_lt hNext.2 h.fits)]
  constructor
  · rintro (hSmall | hRest)
    · by_cases hLarge : 2304 < bytes
      · have hLess := smaller_lt h.unit h.fits hLarge
        exact .inr (.inl (hLess.2.trans hSmall))
      · rw [smaller_fixed h.unit (by omega)] at hSmall
        exact .inl (le_antisymm hSmall hEnough)
    · exact .inr hRest
  · rintro (rfl | hRest)
    · exact .inl hNext.2
    · exact .inr hRest

theorem WholeUnits.min {a b : Nat} (h : WholeUnits a) (h' : WholeUnits b) :
    WholeUnits (min a b) := by
  rcases le_total a b with hLe | hLe
  · rwa [min_eq_left hLe]
  · rwa [min_eq_right hLe]

theorem extendEnds_iff_growthEnds (h : WholeUnits s.currRegionAllocationBytes) :
    ExtendEnds s rounded alloc ↔ GrowthEnds s rounded alloc := by
  refine or_congr_right' fun hAvailable => ?_
  rw [doubles_iff h.fits h.unit, ← doubling_ends false h.fits]
  have hFrom {curr : Nat} {increased : Bool} (hLeaves : Leaves (doubling rounded)
      (s.currRegionAllocationBytes, false) (curr, increased)) :
      Ends (backpedalling rounded alloc) ⟨none, smaller (min curr s.availableBytes), 1⟩ ↔
        min curr s.availableBytes = rounded ∨ 2304 ≤ rounded ∨ ∃ i, 1 ≤ i ∧ alloc i ≠ none := by
    obtain ⟨hUnits, hEnough⟩ := h.doubled hLeaves
    exact backpedalling_from (hUnits.min (availableBytes_units s)) (by omega)
  constructor
  · rintro ⟨curr, increased, hLeaves, hSecond⟩
    refine ⟨⟨_, hLeaves⟩, ?_⟩
    cases hFirst : s.startedBackpedal with
    | true => exact .inl rfl
    | false =>
      right
      by_cases hRefused : alloc 0 = none
      · rcases (hFrom hLeaves).mp (hSecond hRefused hFirst) with hEq | hLarge | ⟨i, _, hGranted⟩
        · by_cases hLarge : 2304 ≤ rounded
          · exact .inr (.inl hLarge)
          · have hCurr := doubled_eq_iff h (not_le.mp hLarge) hLeaves
            refine .inr (.inr ?_)
            rw [← hCurr]
            omega
        · exact .inr (.inl hLarge)
        · exact .inl ⟨i, hGranted⟩
      · exact .inl ⟨0, hRefused⟩
  · rintro ⟨⟨⟨curr, increased⟩, hLeaves⟩, hSecond⟩
    refine ⟨curr, increased, hLeaves, fun hRefused hFirst => (hFrom hLeaves).mpr ?_⟩
    have hEnough := (h.doubled hLeaves).2
    rcases hSecond with hStarted | ⟨i, hGranted⟩ | hLarge | hAll | hExact
    · cases hStarted.symm.trans hFirst
    · refine .inr (.inr ⟨i, ?_, hGranted⟩)
      by_contra hZero
      obtain rfl : i = 0 := by omega
      exact hGranted hRefused
    · exact .inr (.inl hLarge)
    · left
      omega
    · by_cases hLarge : 2304 ≤ rounded
      · exact .inr (.inl hLarge)
      · have hCurr := (doubled_eq_iff h (not_le.mp hLarge) hLeaves).mpr hExact
        left
        omega

end Extend

section Answers

variable {s : BFCAllocator} {rounded bytes calls curr : Nat} {increased : Bool}
  {alloc : Nat → Option Nat}

theorem increase_reaches {turns n : Nat} (increased : Bool) (hCurr : curr < 2 ^ 64)
    (hTurns : n < turns) (hReached : rounded ≤ sizeT (curr * 2 ^ n)) :
    ∃ result, increase rounded turns curr increased = .ok result := by
  induction turns generalizing n curr increased with
  | zero => exact absurd hTurns (not_lt_zero n)
  | succ turns ih =>
    rw [increase]
    split
    · rename_i hGuard
      cases n with
      | zero =>
        rw [pow_zero, mul_one, sizeT_of_lt hCurr] at hReached
        exact absurd hGuard (not_lt.mpr hReached)
      | succ n =>
        refine ih true (mod_lt _ (Nat.two_pow_pos _)) (Nat.lt_of_succ_lt_succ hTurns) ?_
        rwa [sizeT_mul, mul_assoc, ← Nat.pow_succ']
    · exact ⟨_, rfl⟩

/-- 65 turns of the model are enough for the doubling loop, if it ends at all. -/
theorem WholeUnits.increase (h : WholeUnits curr) {curr' : Nat} {increased' : Bool}
    (hLeaves : Leaves (doubling rounded) (curr, increased) (curr', increased')) :
    BFCAllocator.increase rounded 65 curr increased = .ok (curr', increased') := by
  have hDoubles := (doubles_iff h.fits h.unit).mpr ((doubling_ends _ h.fits).mp ⟨_, hLeaves⟩)
  obtain ⟨n, hn, hReached⟩ := hDoubles.within h.fits
  obtain ⟨⟨curr₁, increased₁⟩, hOk⟩ := increase_reaches increased h.fits hn hReached
  cases (increase_leaves 65 hOk).unique hLeaves
  exact hOk

/-- The second loop is the model's `backpedal`, given as many answers as it asks for. -/
theorem backpedalling_ends_iff :
    Ends (backpedalling rounded alloc) ⟨none, bytes, calls⟩ ↔
      ∃ n result, backpedal rounded bytes ((List.range' calls n).map alloc) = .ok result := by
  constructor
  · rintro ⟨last, h⟩
    generalize hStart : (⟨none, bytes, calls⟩ : Backpedal) = start at h
    induction h generalizing bytes calls with
    | stop out =>
      subst hStart
      refine ⟨0, (none, bytes, []), ?_⟩
      exact if_neg fun hLess => out ⟨rfl, hLess⟩
    | turn inside rest ih =>
      subst hStart
      cases hAnswer : alloc calls with
      | none =>
        obtain ⟨n, result, hOk⟩ := ih (congrArg (Backpedal.mk · _ _) hAnswer.symm)
        refine ⟨n + 1, result, ?_⟩
        rw [List.range'_succ, List.map_cons, hAnswer]
        exact (if_pos inside.2).trans hOk
      | some p =>
        refine ⟨1, (some p, smaller bytes, []), ?_⟩
        rw [List.range'_one, List.map_singleton, hAnswer]
        exact if_pos inside.2
  · rintro ⟨n, result, hOk⟩
    induction n generalizing bytes calls with
    | zero =>
      refine ⟨_, .stop fun hGuard => ?_⟩
      cases hOk.symm.trans (if_pos hGuard.2)
    | succ n ih =>
      by_cases hGuard : rounded < bytes
      · rw [List.range'_succ, List.map_cons] at hOk
        cases hAnswer : alloc calls with
        | none =>
          rw [hAnswer] at hOk
          obtain ⟨last, h⟩ := ih ((if_pos hGuard).symm.trans hOk)
          refine ⟨last, .turn ⟨rfl, hGuard⟩ ?_⟩
          change Leaves _ (Backpedal.mk (alloc calls) _ _) _
          rwa [hAnswer]
        | some p =>
          refine ⟨(backpedalling rounded alloc).body ⟨none, bytes, calls⟩,
            .turn ⟨rfl, hGuard⟩ (.stop fun h => ?_)⟩
          cases hAnswer.symm.trans h.1
      · exact ⟨_, .stop fun h => hGuard h.2⟩

/-- Both loops of the model's `extend` come to an end on the answers `alloc`, of which it takes as
many as it asks for. -/
def Answered (s : BFCAllocator) (rounded : Nat) (alloc : Nat → Option Nat) : Prop :=
  s.regionRequest rounded = .ok none ∨
    ∃ curr increased bytes n result,
      s.regionRequest rounded = .ok (some (curr, increased, bytes)) ∧
        requestRegion { s with currRegionAllocationBytes := curr } rounded bytes
          ((List.range n).map alloc) = .ok result

theorem extendEnds_iff_answered (h : WholeUnits s.currRegionAllocationBytes) :
    ExtendEnds s rounded alloc ↔ Answered s rounded alloc := by
  by_cases hFull : s.availableBytes < rounded
  · exact iff_of_true (.inl hFull) (.inl (if_pos hFull))
  rw [ExtendEnds, Answered, or_iff_right hFull]
  have hRequest : s.regionRequest rounded = _ := if_neg hFull
  constructor
  · rintro ⟨curr, increased, hLeaves, hSecond⟩
    rw [h.increase hLeaves] at hRequest
    refine .inr ⟨curr, increased, min curr s.availableBytes, ?_⟩
    by_cases hStarts : alloc 0 = none ∧ s.startedBackpedal = false
    · obtain ⟨n, ⟨memAddr, last, rest⟩, hOk⟩ :=
        backpedalling_ends_iff.mp (hSecond hStarts.1 hStarts.2)
      refine ⟨n + 1, (memAddr, last, rest,
        { s with currRegionAllocationBytes := curr, startedBackpedal := true }), hRequest, ?_⟩
      rw [List.range_eq_range', List.range'_succ, List.map_cons, requestRegion, if_pos
        (by rw [hStarts.1, hStarts.2]; rfl)]
      exact congrArg (fun answer => answer >>= _) hOk
    · refine ⟨1, (alloc 0, min curr s.availableBytes, [],
        { s with currRegionAllocationBytes := curr }), hRequest, if_neg fun hStart => hStarts ?_⟩
      simpa using hStart
  · rintro (hNone | ⟨curr, increased, bytes, n, result, hSome, hOk⟩)
    · obtain ⟨_, _, hEnd⟩ := Fallible.bind_eq_ok.mp (hRequest.symm.trans hNone)
      cases hEnd
    · obtain ⟨⟨curr', increased'⟩, hIncrease, hEnd⟩ :=
        Fallible.bind_eq_ok.mp (hRequest.symm.trans hSome)
      cases hEnd
      refine ⟨curr, increased, increase_leaves 65 hIncrease, fun hRefused hFirst => ?_⟩
      cases n with
      | zero => cases hOk
      | succ n =>
        rw [List.range_eq_range', List.range'_succ, List.map_cons, requestRegion, if_pos
          (by rw [hRefused, hFirst]; rfl)] at hOk
        obtain ⟨result', hLoop, _⟩ := Fallible.bind_eq_ok.mp hOk
        exact backpedalling_ends_iff.mpr ⟨n, result', hLoop⟩

end Answers

section Runs

variable {s s' : BFCAllocator} {rounded : Nat} {answers rest : List (Option Nat)}

theorem WholeUnits.extend (h : WholeUnits s.currRegionAllocationBytes) {extended : Bool}
    (hOk : s.extend rounded answers = .ok (extended, rest, s')) :
    WholeUnits s'.currRegionAllocationBytes := by
  rcases extend_eq_ok hOk with ⟨_, _, _, rfl⟩ |
    ⟨curr, increased, bytes, memAddr, recorded, started, hRequest, _, hEnd⟩
  · exact h
  · rw [regionRequest] at hRequest
    split at hRequest
    · cases hRequest
    · obtain ⟨⟨curr', increased'⟩, hIncrease, hEq⟩ := Fallible.bind_eq_ok.mp hRequest
      cases hEq
      have hCurr := (h.doubled (increase_leaves 65 hIncrease)).1
      cases memAddr with
      | none =>
        obtain ⟨_, rfl⟩ := hEnd
        exact hCurr
      | some p =>
        rw [(addRegion_policy hEnd.2).2.2]
        cases increased with
        | true => exact hCurr
        | false => exact hCurr.double

theorem WholeUnits.step {state state' : BfcState} {action : BfcAction}
    (h : WholeUnits state.allocator.currRegionAllocationBytes)
    (hNext : state.step action = .next state') :
    WholeUnits state'.allocator.currRegionAllocationBytes := by
  cases action with
  | allocateRaw numBytes answers =>
    obtain ⟨found, hAllocate, _⟩ := step_allocateRaw hNext
    have hAttempt := allocateRaw_eq_ok hAllocate
    generalize state'.allocator = s' at hAttempt ⊢
    cases hAttempt with
    | nothing _ => exact h
    | found _ hFind =>
      rw [(SamePolicy.findChunkPtr hFind).curr]
      exact h
    | refused _ _ hExtend => exact h.extend hExtend
    | extended _ _ hExtend hAgain =>
      rw [(SamePolicy.findChunkPtr hAgain).curr]
      exact h.extend hExtend
  | deallocateRaw ptr =>
    rcases deallocateRaw_eq_ok (step_deallocateRaw hNext).1 with ⟨_, hSame⟩ | ⟨x, _, hFree⟩
    · rw [hSame]
      exact h
    · rw [(SamePolicy.freeAndMaybeCoalesce hFree).curr]
      exact h

theorem wholeUnits_of_reach {totalMemory : Nat} {allowGrowth : Bool} {state : BfcState}
    (hRun : Reach BfcState.step anyStep (BfcState.init totalMemory allowGrowth) state) :
    WholeUnits state.allocator.currRegionAllocationBytes := by
  refine hRun.invariant (fun state => WholeUnits state.allocator.currRegionAllocationBytes) ?_
    fun _ _ _ hInv _ hNext => hInv.step hNext
  change WholeUnits (if allowGrowth then _ else _)
  split
  · exact wholeUnits_rounded _
  · exact wholeUnits_rounded _

/-- In every state and for every request and sub-allocator, the exact condition under which both
loops of `Extend` end; the loops are those of the model's `extend`. -/
theorem extend_ends_iff {totalMemory : Nat} {allowGrowth : Bool} {state : BfcState}
    (hRun : Reach BfcState.step anyStep (BfcState.init totalMemory allowGrowth) state)
    (numBytes : Nat) (alloc : Nat → Option Nat) :
    (ExtendEnds state.allocator (roundedBytes numBytes) alloc ↔
      GrowthEnds state.allocator (roundedBytes numBytes) alloc) ∧
    (ExtendEnds state.allocator (roundedBytes numBytes) alloc ↔
      Answered state.allocator (roundedBytes numBytes) alloc) :=
  ⟨extendEnds_iff_growthEnds (wholeUnits_of_reach hRun),
    extendEnds_iff_answered (wholeUnits_of_reach hRun)⟩

/-- A sub-allocator that refuses twice and then has memory. -/
def thirdGranted (call : Nat) : Option Nat := if call = 2 then some 16777216 else none

/-- All answers are used, a smaller region was granted, and the region size is 4 MiB. -/
def turnedBoth : Except Stop (Bool × List (Option Nat) × BFCAllocator) → Bool
  | .ok (extended, rest, s) =>
    extended && rest.isEmpty && s.startedBackpedal && s.currRegionAllocationBytes = 4194304
  | .error _ => false

/-- With 2 MiB as the region size, 3 MiB are asked for: the first loop doubles it, the second one
tries 0.9 of 4 MiB and 0.9 of that. -/
theorem both_loops_end :
    ∃ state, Reach BfcState.step anyStep (BfcState.init 16777216 true) state ∧
      state.allocator.currRegionAllocationBytes = 2097152 ∧
      turnedBoth (state.allocator.extend 3145728 ((List.range 3).map thirdGranted)) ∧
      ExtendEnds state.allocator (roundedBytes 3145728) thirdGranted := by
  obtain ⟨state, hRun, hTest⟩ := exists_reach_of_exec BfcState.step (BfcState.init 16777216 true)
    always anyStep_of_always [.allocateRaw 512 [some 65536]]
    (fun state => state.allocator.currRegionAllocationBytes = 2097152 &&
      turnedBoth (state.allocator.extend 3145728 ((List.range 3).map thirdGranted)))
    (by decide +kernel)
  obtain ⟨hCurr, hTurned⟩ := (Bool.and_eq_true ..).mp hTest
  have hCurr := of_decide_eq_true hCurr
  have hDoubles : Doubles state.allocator.currRegionAllocationBytes (roundedBytes 3145728) := by
    rw [hCurr]
    exact .inr (by decide)
  exact ⟨state, hRun, hCurr, hTurned, (extend_ends_iff hRun 3145728 thirdGranted).1.mpr
    (.inr ⟨hDoubles, .inr (.inl ⟨2, by decide⟩)⟩)⟩

/-- One byte is asked for, and the sub-allocator has no memory: the loop that tries smaller regions
stays at nine units. -/
theorem no_memory_endless :
    ¬∀ (totalMemory : Nat) (allowGrowth : Bool) (state : BfcState) (numBytes : Nat)
      (alloc : Nat → Option Nat), totalMemory < 2 ^ 64 → numBytes < 2 ^ 64 →
      Reach BfcState.step anyStep (BfcState.init totalMemory allowGrowth) state →
      ExtendEnds state.allocator (roundedBytes numBytes) alloc := by
  intro hAlways
  have hEnds := hAlways 1048576 true (BfcState.init 1048576 true) 1 (fun _ => none) (by decide)
    (by decide) .refl
  rw [extendEnds_iff_growthEnds (wholeUnits_of_reach .refl)] at hEnds
  rcases hEnds with hFull | ⟨_, hStarted | ⟨i, hGranted⟩ | hLarge | hAll | ⟨n, _, hExact⟩⟩
  · exact absurd hFull (by decide)
  · cases hStarted
  · exact hGranted rfl
  · exact absurd hLarge (by decide)
  · exact absurd hAll (by decide)
  · change 1048576 * 2 ^ n = 256 at hExact
    omega

end Runs

end TensorFlowOnSpark.CommonRuntime
