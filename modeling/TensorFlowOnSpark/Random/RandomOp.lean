import TensorFlowOnSpark.Random.PhiloxRandom
import TensorFlowOnSpark.Util.WorkSharder

/-!
# Filling a tensor with random numbers

`GuardedPhiloxRandom` of `util/guarded_philox_random.cc` and `FillPhiloxRandom` of
`kernels/random_op.cc`.
-/

namespace TensorFlowOnSpark.Random

open PhiloxRandom Util.WorkSharder List Function

theorem PhiloxRandom.skip_ofInt (gen : PhiloxRandom) {n : Int} (h : 0 ≤ n) (hFits : n < 2 ^ 63) :
    gen.skip (UInt64.ofInt n) = skipOne^[n.toNat] gen := by
  obtain ⟨hValue, hKey⟩ := skipOne_iterate n.toNat gen
  have hCount : (UInt64.ofInt n).toNat = n.toNat := by
    change (UInt64.ofNat (n % 2 ^ 64).toNat).toNat = _
    rw [UInt64.toNat_ofNat']
    omega
  have hSkip := value_skip (UInt64.ofInt n) gen
  rw [if_neg (by rw [LosesCarry]; omega), hCount, Nat.add_zero, ← hValue] at hSkip
  exact congrArg₂ mk (ResultType.value_inj hSkip) hKey.symm

/-- The local generator, and what becomes of `generator_`. -/
def reserveSamples128 (generator : PhiloxRandom) (samples : Int) : PhiloxRandom × PhiloxRandom :=
  (generator, generator.skip (UInt64.ofInt samples))

/-- The samples that the local generators of successive calls give. -/
def reservedSamples : PhiloxRandom → List Int → List ResultType
  | _, [] => []
  | generator, samples :: later =>
    let (localGenerator, generator) := reserveSamples128 generator samples
    fill samples.toNat localGenerator ++ reservedSamples generator later

/-- The samples of all calls are one stream, without a repetition up to `2 ^ 128` of them. -/
theorem reservedSamples_eq_fill (generator : PhiloxRandom) {calls : List Int}
    (hCalls : ∀ n ∈ calls, 0 ≤ n ∧ n < 2 ^ 63) :
    reservedSamples generator calls = fill (calls.map Int.toNat).sum generator ∧
      ((reservedSamples generator calls).Nodup ↔ (calls.map Int.toNat).sum ≤ 2 ^ 128) := by
  rw [← nodup_fill _ generator]
  suffices h : reservedSamples generator calls = fill (calls.map Int.toNat).sum generator from
    ⟨h, by rw [h]⟩
  induction calls generalizing generator with
  | nil => rfl
  | cons n calls ih =>
    obtain ⟨⟨hNonneg, hFits⟩, hRest⟩ := forall_mem_cons.mp hCalls
    rw [reservedSamples, reserveSamples128, skip_ofInt generator hNonneg hFits, map_cons, sum_cons,
      fill_append, ← ih _ hRest]

theorem reservedSamples_two :
    reservedSamples ⟨⟨0, 0, 0, 0⟩, ⟨1, 2⟩⟩ [1, 2] = fill 3 ⟨⟨0, 0, 0, 0⟩, ⟨1, 2⟩⟩ ∧
      ((reservedSamples ⟨⟨0, 0, 0, 0⟩, ⟨1, 2⟩⟩ [1, 2]).Nodup ↔ 3 ≤ 2 ^ 128) :=
  reservedSamples_eq_fill _ (by decide)

variable {T : Type*}

/-- The outputs that are made of a sample, by their number in the group. -/
structure Distribution (T : Type*) where
  kGroupSize : Int
  pos : 0 < kGroupSize
  outputs : ResultType → Nat → T

/-- `std::copy` of `n` outputs to the place `offset` of the tensor. -/
def copy (outputs : Nat → T) (n offset : Int) (data : Int → T) : Int → T :=
  fun x => if offset ≤ x ∧ x < offset + n then outputs (x - offset).toNat else data x

namespace Distribution

variable (dist : Distribution T)

/-- The loop over the full groups. -/
def fillGroups : Nat → PhiloxRandom → Int → (Int → T) → PhiloxRandom × Int × (Int → T)
  | 0, gen, offset, data => (gen, offset, data)
  | n + 1, gen, offset, data =>
    fillGroups n gen.skipOne (offset + dist.kGroupSize)
      (copy (dist.outputs gen.sample) dist.kGroupSize offset data)

/-- `FillPhiloxRandomTask::Run` from a start group to a limit group. -/
def run (gen : PhiloxRandom) (size : Int) (data : Int → T) (groups : Int × Int) : Int → T :=
  let gen := gen.skip (UInt64.ofInt groups.1)
  let limitGroupFull := min groups.2 (size.tdiv dist.kGroupSize)
  let (gen, offset, data) := dist.fillGroups (limitGroupFull - groups.1).toNat gen
    (groups.1 * dist.kGroupSize) data
  if limitGroupFull < groups.2 then
    copy (dist.outputs gen.sample) (size - limitGroupFull * dist.kGroupSize) offset data
  else data

def totalGroupCount (size : Int) : Int := (size + dist.kGroupSize - 1).tdiv dist.kGroupSize

/-- The output at `x` of the stream that begins with `gen`. -/
def stream (gen : PhiloxRandom) (x : Int) : T :=
  dist.outputs (skipOne^[(x / dist.kGroupSize).toNat] gen).sample (x % dist.kGroupSize).toNat

variable {dist} {gen : PhiloxRandom} {data : Int → T} {size x : Int}

theorem totalGroupCount_eq (hSize : 0 ≤ size) :
    dist.totalGroupCount size = (size - 1) / dist.kGroupSize + 1 := by
  have hPos := dist.pos
  rw [totalGroupCount, Int.tdiv_eq_ediv_of_nonneg (by omega),
    show size + dist.kGroupSize - 1 = size - 1 + 1 * dist.kGroupSize by omega,
    Int.add_mul_ediv_right _ _ hPos.ne']

theorem copy_group {n : Int} {g : Nat} (hn : n ≤ dist.kGroupSize) :
    copy (dist.outputs (skipOne^[g] gen).sample) n (g * dist.kGroupSize) data x =
      if x / dist.kGroupSize = g ∧ x < g * dist.kGroupSize + n then dist.stream gen x
      else data x := by
  have hPos := dist.pos
  have hMod := Int.emod_add_ediv_mul x dist.kGroupSize
  have hLow := Int.emod_nonneg x hPos.ne'
  have hGroup : g * dist.kGroupSize ≤ x ∧ x < g * dist.kGroupSize + n ↔
      x / dist.kGroupSize = g ∧ x < g * dist.kGroupSize + n := by
    refine and_congr_left fun hLess => ⟨fun hLe => ?_, fun hEq => ?_⟩
    · have hLower := (Int.le_ediv_iff_mul_le hPos).mpr hLe
      have hUpper := (Int.ediv_lt_iff_lt_mul (a := x) (b := g + 1) hPos).mpr
        (by rw [Int.add_mul]; omega)
      omega
    · rw [← hEq]
      omega
  rw [copy]
  simp only [hGroup]
  split
  · rename_i hHere
    rw [hHere.1] at hMod
    rw [stream, hHere.1, Int.toNat_natCast, show x - g * dist.kGroupSize = x % dist.kGroupSize by
      omega]
  · rfl

theorem fillGroups_eq (n g : Nat) :
    dist.fillGroups n (skipOne^[g] gen) (g * dist.kGroupSize) data =
      (skipOne^[g + n] gen, ((g + n : Nat) : Int) * dist.kGroupSize, fun x =>
        if g ≤ x / dist.kGroupSize ∧ x / dist.kGroupSize < (g + n : Nat) then dist.stream gen x
        else data x) := by
  induction n generalizing g data with
  | zero =>
    refine congrArg₂ Prod.mk rfl (congrArg₂ Prod.mk rfl (funext fun x => (if_neg ?_).symm))
    omega
  | succ n ih =>
    have hNext : g * dist.kGroupSize + dist.kGroupSize =
      ((g + 1 : Nat) : Int) * dist.kGroupSize := by
      rw [Int.natCast_succ, Int.add_mul, Int.one_mul]
    rw [fillGroups, hNext, ← iterate_succ_apply' skipOne, ih, Nat.succ_add_eq_add_succ]
    refine congrArg₂ _ rfl (congrArg₂ _ rfl (funext fun x => ?_))
    rw [copy_group (Int.le_refl _), ← ite_or]
    have hSmall (hHere : x / dist.kGroupSize = g) : x < g * dist.kGroupSize + dist.kGroupSize := by
      rw [← hHere, Int.mul_comm]
      exact Int.lt_mul_ediv_self_add dist.pos
    exact if_congr (by omega) rfl rfl

theorem run_eq {groups : Int × Int} (hSize : 0 ≤ size) (hFits : size < 2 ^ 63)
    (hGroups : 0 ≤ groups.1 ∧ groups.1 < groups.2 ∧ groups.2 ≤ dist.totalGroupCount size) :
    dist.run gen size data groups x =
      if (groups.1 ≤ x / dist.kGroupSize ∧ x / dist.kGroupSize < groups.2) ∧ x < size then
        dist.stream gen x
      else data x := by
  have hPos := dist.pos
  have hMod := Int.emod_add_ediv_mul size dist.kGroupSize
  have hLow := Int.emod_nonneg size hPos.ne'
  have hHigh := Int.emod_lt_of_pos size hPos
  have hBelow := Int.ediv_lt_iff_lt_mul (a := x) (b := size / dist.kGroupSize) hPos
  have hSmall := Int.ediv_le_self dist.kGroupSize hSize
  have hTotal := Int.ediv_le_ediv hPos (show size - 1 ≤ size by omega)
  obtain ⟨hFrom, hSome, hTo⟩ := hGroups
  rw [totalGroupCount_eq hSize] at hTo
  obtain ⟨g, hg⟩ := Int.eq_ofNat_of_zero_le hFrom
  have hFull := Int.ediv_nonneg hSize hPos.le
  rw [run, Int.tdiv_eq_ediv_of_nonneg hSize, skip_ofInt gen hFrom (by omega)]
  generalize size / dist.kGroupSize = full at *
  obtain ⟨full, rfl⟩ := Int.eq_ofNat_of_zero_le hFull
  rw [hg, Int.toNat_natCast, fillGroups_eq]
  simp only
  by_cases hRest : full < groups.2
  · rw [min_eq_right hRest.le, if_pos hRest, show g + ((full : Int) - g).toNat = full by omega,
      copy_group (by omega), ← ite_or]
    exact if_congr (by omega) rfl rfl
  · rw [if_neg (by omega)]
    exact if_congr (by omega) rfl rfl

theorem foldl_run {calls : List (Int × Int)} (hSize : 0 ≤ size) (hFits : size < 2 ^ 63)
    (hCalls : ∀ c ∈ calls, 0 ≤ c.1 ∧ c.1 < c.2 ∧ c.2 ≤ dist.totalGroupCount size) :
    calls.foldl (dist.run gen size) data x =
      if (∃ c ∈ calls, c.1 ≤ x / dist.kGroupSize ∧ x / dist.kGroupSize < c.2) ∧ x < size then
        dist.stream gen x
      else data x := by
  induction calls generalizing data with
  | nil => simp
  | cons c calls ih =>
    obtain ⟨hGroups, hRest⟩ := forall_mem_cons.mp hCalls
    rw [foldl_cons, ih hRest, run_eq hSize hFits hGroups, ← ite_or]
    refine if_congr ?_ rfl rfl
    simp only [mem_cons, exists_eq_or_imp]
    rw [or_comm, ← or_and_right]

/-- However the groups are divided over calls and in whatever order these run, the tensor holds one
sequential stream. -/
theorem fill_eq_sequential {calls : List (Int × Int)} (hSize : 0 ≤ size)
    (hFits : size + dist.kGroupSize ≤ 2 ^ 63)
    (hCalls : Covers calls 0 (dist.totalGroupCount size)) :
    calls.foldl (dist.run gen size) data =
      fun x => if 0 ≤ x ∧ x < size then dist.stream gen x else data x := by
  have hPos := dist.pos
  funext x
  rw [foldl_run hSize (by omega) fun c hc => ?_]
  · have hTotal : x / dist.kGroupSize < dist.totalGroupCount size ↔ _ :=
      Int.ediv_lt_iff_lt_mul hPos
    have hEnough := Int.lt_ediv_add_one_mul_self (size - 1) hPos
    rw [← totalGroupCount_eq hSize] at hEnough
    have hStart := Int.ediv_nonneg_iff_of_pos (a := x) hPos
    refine if_congr ?_ rfl rfl
    rw [hCalls.covers]
    omega
  · have hSome := hCalls.nonempty c hc
    have hFirst := (hCalls.covers c.1).mp ⟨c, hc, by omega, hSome⟩
    have hLast := (hCalls.covers (c.2 - 1)).mp ⟨c, hc, by omega, by omega⟩
    omega

/-- The four words of a sample as they are. -/
def words : Distribution UInt32 where
  kGroupSize := 4
  pos := by decide
  outputs r i := [r.w0, r.w1, r.w2, r.w3].getD i 0

theorem fill_last_group_first :
    [(1, 2), (0, 1)].foldl (words.run ⟨⟨0, 0, 0, 0⟩, ⟨1, 2⟩⟩ 6) (fun _ => 0) =
      fun x => if 0 ≤ x ∧ x < 6 then words.stream ⟨⟨0, 0, 0, 0⟩, ⟨1, 2⟩⟩ x else 0 :=
  fill_eq_sequential (by decide) (by decide)
    ⟨by decide, by decide, fun x => by simp [show words.totalGroupCount 6 = 2 from rfl]; omega⟩

end Distribution

end TensorFlowOnSpark.Random
