import Mathlib.Algebra.Group.Nat.Defs
import Mathlib.Algebra.Order.Group.Unbundled.Int

/-!
# Sharding

`Shard` of `util/work_sharder.cc`, with the calls of `work` by their start and limit.
-/

namespace TensorFlowOnSpark.Util.WorkSharder

open List Int

def kMinCostPerShard : Int := 10000

def numShards (maxParallelism total costPerUnit : Int) : Int :=
  max 1 ((min maxParallelism
    (((total * max 1 costPerUnit).bmod (2 ^ 64)).tdiv kMinCostPerShard)).bmod (2 ^ 32))

/-- The calls that the loop over `start` schedules. -/
def scheduleLoop (blockSize total start : Int) : List (Int × Int) :=
  if 0 < blockSize ∧ start < total then
    (start, min (start + blockSize) total) :: scheduleLoop blockSize total (start + blockSize)
  else []
termination_by (total - start).toNat
decreasing_by omega

/-- The calls, and the start of the counter when there is one. -/
structure Run where
  counter : Option Int := none
  scheduled : List (Int × Int) := []
  inlined : List (Int × Int) := []
deriving DecidableEq

/-- There is no run of its own when `ParallelFor` is called. -/
def shard (maxParallelism numThreads total costPerUnit : Int) : Option Run :=
  if total = 0 then some {}
  else if maxParallelism ≤ 1 then some { inlined := [(0, total)] }
  else if numThreads ≤ maxParallelism then none
  else
    let numShards := numShards maxParallelism total costPerUnit
    let blockSize := (total + numShards - 1).tdiv numShards
    if total ≤ blockSize then some { inlined := [(0, total)] }
    else
      let numShardsUsed := ((total + blockSize - 1).tdiv blockSize).bmod (2 ^ 32)
      some
        { counter := some (numShardsUsed - 1)
          scheduled := scheduleLoop blockSize total blockSize
          inlined := [(0, min blockSize total)] }

def Run.calls (r : Run) : List (Int × Int) := r.inlined ++ r.scheduled

/-- Non-empty and disjoint calls that cover `[low, high)`. -/
structure Covers (calls : List (Int × Int)) (low high : Int) : Prop where
  nonempty : ∀ c ∈ calls, c.1 < c.2
  disjoint : calls.Pairwise fun c c' => c.2 ≤ c'.1 ∨ c'.2 ≤ c.1
  covers : ∀ x, (∃ c ∈ calls, c.1 ≤ x ∧ x < c.2) ↔ low ≤ x ∧ x < high

theorem Covers.single {low high : Int} (h : low < high) : Covers [(low, high)] low high where
  nonempty := by simpa using h
  disjoint := pairwise_singleton _ _
  covers x := by simp

theorem Covers.append {calls calls' : List (Int × Int)} {low mid high : Int}
    (h : Covers calls low mid) (h' : Covers calls' mid high) (hLow : low ≤ mid)
    (hHigh : mid ≤ high) : Covers (calls ++ calls') low high where
  nonempty c hc := (mem_append.mp hc).elim (h.nonempty c) (h'.nonempty c)
  disjoint := by
    refine pairwise_append.mpr ⟨h.disjoint, h'.disjoint, fun c hc c' hc' => .inl ?_⟩
    have hNonempty := h.nonempty c hc
    have hNonempty' := h'.nonempty c' hc'
    have hLast := (h.covers (c.2 - 1)).mp ⟨c, hc, by omega, by omega⟩
    have hFirst := (h'.covers c'.1).mp ⟨c', hc', le_refl _, hNonempty'⟩
    omega
  covers x := by
    have hLower := h.covers x
    have hUpper := h'.covers x
    simp only [mem_append, or_and_right, exists_or, hUpper, hLower]
    omega

variable {blockSize total start : Int}

theorem scheduleLoop_done (h : total ≤ start) : scheduleLoop blockSize total start = [] := by
  rw [scheduleLoop, if_neg (by omega)]

theorem covers_scheduleLoop (hBlock : 0 < blockSize) (hStart : start ≤ total) :
    Covers (scheduleLoop blockSize total start) start total ∧
      ((scheduleLoop blockSize total start).length : Int) =
        (total - start + blockSize - 1) / blockSize := by
  induction hTurns : (total - start).toNat using Nat.strong_induction_on generalizing start with
  | _ turns ih =>
    by_cases hMore : start < total
    · rw [scheduleLoop, if_pos ⟨hBlock, hMore⟩]
      have hSum : total - start + blockSize - 1 =
          total - (start + blockSize) + blockSize - 1 + blockSize * 1 := by omega
      rw [hSum, add_mul_ediv_left _ _ (by omega)]
      by_cases hFits : start + blockSize ≤ total
      · obtain ⟨hCovers, hLength⟩ := ih _ (by omega) hFits rfl
        rw [min_eq_left hFits]
        exact ⟨(Covers.single (by omega)).append hCovers (by omega) hFits, congrArg (· + 1) hLength⟩
      · rw [scheduleLoop_done (by omega), min_eq_right (by omega),
          ediv_eq_zero_of_lt (by omega) (by omega)]
        exact ⟨Covers.single hMore, rfl⟩
    · obtain rfl : start = total := by omega
      rw [scheduleLoop_done (le_refl _), ediv_eq_zero_of_lt (by omega) (by omega)]
      exact ⟨⟨fun c hc => absurd hc not_mem_nil, .nil, fun x => by simp⟩, rfl⟩

theorem numShards_bounds (maxParallelism total costPerUnit : Int) :
    1 ≤ numShards maxParallelism total costPerUnit ∧
      numShards maxParallelism total costPerUnit < 2 ^ 31 := by
  have hLess := bmod_lt (x := min maxParallelism
    (((total * max 1 costPerUnit).bmod (2 ^ 64)).tdiv kMinCostPerShard)) (m := 2 ^ 32) (by decide)
  unfold numShards
  omega

theorem numShards_le {maxParallelism costPerUnit : Int} (hTotal : 0 ≤ total)
    (hMany : 1 < maxParallelism) (hInt : maxParallelism < 2 ^ 31)
    (hProduct : total * max 1 costPerUnit < 2 ^ 63) :
    numShards maxParallelism total costPerUnit ≤ maxParallelism := by
  have hPositive : 0 ≤ total * max 1 costPerUnit := Int.mul_nonneg hTotal (by omega)
  rw [numShards, bmod_eq_of_le (n := total * max 1 costPerUnit) (by omega) (by omega)]
  have hShards : 0 ≤ (total * max 1 costPerUnit).tdiv kMinCostPerShard :=
    Int.tdiv_nonneg hPositive (by decide)
  rw [bmod_eq_of_le (by omega) (by omega)]
  omega

structure Run.Sound (maxParallelism total costPerUnit : Int) (r : Run) : Prop where
  covers : Covers r.calls 0 total
  counter : ∀ n ∈ r.counter, n = r.scheduled.length
  alone : r.counter = none → r.scheduled = []
  few : total * max 1 costPerUnit < 2 ^ 63 → (r.calls.length : Int) ≤ max 1 maxParallelism

theorem shard_sound {maxParallelism numThreads costPerUnit : Int} (hTotal : 0 ≤ total)
    (hInt : maxParallelism < 2 ^ 31) {r : Run}
    (h : shard maxParallelism numThreads total costPerUnit = some r) :
    r.Sound maxParallelism total costPerUnit := by
  rw [shard] at h
  split at h
  · rename_i hNone
    cases h
    exact ⟨⟨fun c hc => absurd hc not_mem_nil, .nil, fun x => by simp [Run.calls]; omega⟩, by simp,
      fun _ => rfl, fun _ => by simp [Run.calls]⟩
  · have hAlone : Covers (Run.calls { inlined := [(0, total)] }) 0 total :=
      Covers.single (by omega)
    split at h
    · cases h
      exact ⟨hAlone, by simp, fun _ => rfl, fun _ => le_max_left _ _⟩
    · rename_i hMany
      split at h
      · cases h
      · simp only at h
        obtain ⟨hOne, hFew⟩ := numShards_bounds maxParallelism total costPerUnit
        have hLe (hProduct : total * max 1 costPerUnit < 2 ^ 63) :=
          numShards_le hTotal (by omega) hInt hProduct
        generalize numShards maxParallelism total costPerUnit = n at h hOne hFew hLe
        rw [tdiv_eq_ediv_of_nonneg (by omega)] at h
        have hFirst : total ≤ n * ((total + n - 1) / n) := by
          have hMod := emod_add_mul_ediv (total + n - 1) n
          have hLess := emod_lt_of_pos (total + n - 1) (show 0 < n by omega)
          omega
        have hPos : 0 < (total + n - 1) / n := Int.le_ediv_of_mul_le (by omega) (by omega)
        generalize (total + n - 1) / n = blockSize at h hFirst hPos
        split at h
        · cases h
          exact ⟨hAlone, by simp, fun _ => rfl, fun _ => le_max_left _ _⟩
        · rename_i hBlocks
          cases h
          obtain ⟨hCovers, hLength⟩ := covers_scheduleLoop hPos (not_le.mp hBlocks).le
          have hSum : total + blockSize - 1 =
              total - blockSize + blockSize - 1 + blockSize * 1 := by omega
          have hUsed : (total + blockSize - 1) / blockSize =
              (scheduleLoop blockSize total blockSize).length + 1 := by
            rw [hSum, add_mul_ediv_left _ _ (by omega), hLength]
          have hBound : (total + blockSize - 1) / blockSize < n + 1 :=
            Int.ediv_lt_of_lt_mul hPos (by rw [Int.add_mul]; omega)
          rw [tdiv_eq_ediv_of_nonneg (by omega), hUsed, bmod_eq_of_le (by omega) (by omega),
            min_eq_left (by omega)]
          refine ⟨(Covers.single hPos).append hCovers (by omega) (by omega), ?_, by simp, ?_⟩
          · rintro _ ⟨⟩
            exact Int.add_sub_cancel _ _
          · intro hProduct
            simp only [Run.calls, length_append, length_singleton]
            omega

theorem shard_sound_two : Run.Sound 2 20000 1 ⟨some 1, [(10000, 20000)], [(0, 10000)]⟩ := by
  have hLoop : scheduleLoop 10000 20000 10000 = [(10000, 20000)] := by
    rw [scheduleLoop, scheduleLoop_done (by decide)]
    rfl
  have hRun : shard 2 3 20000 1 = some ⟨some 1, scheduleLoop 10000 20000 10000, [(0, 10000)]⟩ := rfl
  rw [hLoop] at hRun
  exact shard_sound (by decide) (by decide) hRun

/-- A call for a parallelism of 0, and three calls for one of 2: the product wraps to a negative
number, of which the narrowing to `int` makes a 3. -/
theorem shard_calls_exceed :
    shard 0 3 1 1 = some ⟨none, [], [(0, 1)]⟩ ∧
      shard 2 3 3 6148900374678873872 = some ⟨some 2, [(1, 2), (2, 3)], [(0, 1)]⟩ := by
  have hLoop : scheduleLoop 1 3 1 = [(1, 2), (2, 3)] := by
    rw [scheduleLoop, scheduleLoop, scheduleLoop_done (by decide)]
    rfl
  refine ⟨by decide, ?_⟩
  change (some ⟨some 2, scheduleLoop 1 3 1, [(0, 1)]⟩ : Option Run) = _
  rw [hLoop]

end TensorFlowOnSpark.Util.WorkSharder
