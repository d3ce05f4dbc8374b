import TensorFlowOnSpark.Lib.Fallible
import TensorFlowOnSpark.CommonRuntime.BfcAllocator

/-!
# What the steps of the best-fit allocator do when they succeed

Nothing is assumed about the allocator here. Only `Extend` changes its limits, the size
of its next region and the extents of its regions.
-/

namespace TensorFlowOnSpark.CommonRuntime

open Fallible BFCAllocator AllocationRegion List

variable {s s' : BFCAllocator} {h h1 h2 : ChunkHandle} {c : Chunk} {p : Nat}

theorem chunkFromHandle_eq_ok : s.chunkFromHandle h = .ok c ↔ s.chunks[h]? = some c := by
  rw [chunkFromHandle]
  cases s.chunks[h]? with
  | none => simp
  | some d => simp

theorem require_eq_ok {condition : Bool} {check : Check} {u : Unit} :
    require condition check = .ok u ↔ condition := by
  rw [require]
  cases condition with
  | false => simp
  | true => simp

section Handles

variable {regions regions' : List AllocationRegion} {value : Option ChunkHandle}

def AllocationRegion.extent (r : AllocationRegion) : Nat × Nat := (r.ptr, r.memorySize)

section

variable (hSet : RegionManager.setHandle p value regions = .ok regions')

include hSet

theorem setHandle_eq_ok :
    ∃ before r after, regions = before ++ r :: after ∧ (∀ x ∈ before, x.endPtr ≤ p) ∧
      p < r.endPtr ∧ 0 ≤ r.indexFor p ∧ r.indexFor p < r.nHandles ∧
      regions' = before ++
        { r with handles := Function.update r.handles (r.indexFor p).toNat value } :: after := by
  induction regions generalizing regions' with
  | nil => cases hSet
  | cons first rest ih =>
    rw [RegionManager.setHandle] at hSet
    split at hSet
    · rename_i hInside
      obtain ⟨r', hFirst, hEnd⟩ := bind_eq_ok.mp hSet
      cases hEnd
      rw [AllocationRegion.setHandle] at hFirst
      split at hFirst
      · rename_i hIndex
        cases hFirst
        exact ⟨[], first, rest, rfl, nofun, hInside, hIndex.1, hIndex.2, rfl⟩
      · cases hFirst
    · rename_i hOutside
      obtain ⟨rest', hRest, hEnd⟩ := bind_eq_ok.mp hSet
      cases hEnd
      obtain ⟨before, r, after, rfl, hBefore, hInside, hLow, hHigh, rfl⟩ := ih hRest
      refine ⟨first :: before, r, after, rfl, ?_, hInside, hLow, hHigh, rfl⟩
      exact forall_mem_cons.mpr ⟨Nat.not_lt.mp hOutside, hBefore⟩

theorem setHandle_extents :
    regions'.map extent = regions.map extent := by
  obtain ⟨before, r, after, rfl, _, _, _, _, rfl⟩ := setHandle_eq_ok hSet
  rw [map_append, map_append]
  rfl

end

end Handles

/-- What only `Extend` writes. -/
structure SamePolicy (s s' : BFCAllocator) : Prop where
  limit : s'.memoryLimit = s.memoryLimit
  curr : s'.currRegionAllocationBytes = s.currRegionAllocationBytes
  total : s'.totalRegionAllocatedBytes = s.totalRegionAllocatedBytes
  started : s'.startedBackpedal = s.startedBackpedal
  extents : s'.regions.map extent = s.regions.map extent

namespace SamePolicy

variable {s'' : BFCAllocator} {b : BinNum}

theorem refl (s : BFCAllocator) : SamePolicy s s := ⟨rfl, rfl, rfl, rfl, rfl⟩

theorem trans (h : SamePolicy s s') (h' : SamePolicy s' s'') : SamePolicy s s'' :=
  ⟨h'.limit.trans h.limit, h'.curr.trans h.curr, h'.total.trans h.total,
    h'.started.trans h.started, h'.extents.trans h.extents⟩

theorem setChunk (s : BFCAllocator) (h : ChunkHandle) (c : Chunk) :
    SamePolicy s (s.setChunk h c) := ⟨rfl, rfl, rfl, rfl, rfl⟩

theorem setHandle {value : Option ChunkHandle} (hOk : s.setHandle p value = .ok s') :
    SamePolicy s s' := by
  obtain ⟨regions, hSet, hEnd⟩ := bind_eq_ok.mp hOk
  cases hEnd
  exact ⟨rfl, rfl, rfl, rfl, setHandle_extents hSet⟩

theorem allocateChunk (hOk : s.allocateChunk = .ok (h, s')) : SamePolicy s s' := by
  rw [BFCAllocator.allocateChunk] at hOk
  split at hOk
  · obtain ⟨c, _, hEnd⟩ := bind_eq_ok.mp hOk
    cases hEnd
    exact ⟨rfl, rfl, rfl, rfl, rfl⟩
  · split at hOk
    · cases hOk
      exact ⟨rfl, rfl, rfl, rfl, rfl⟩
    · cases hOk

theorem relink {follows : Option ChunkHandle} (hOk : s.relink follows h = .ok s') :
    SamePolicy s s' := by
  cases follows with
  | none =>
    cases hOk
    exact refl s
  | some n =>
    obtain ⟨c, _, hEnd⟩ := bind_eq_ok.mp hOk
    cases hEnd
    exact ⟨rfl, rfl, rfl, rfl, rfl⟩

theorem insertFreeChunkIntoBin (hOk : s.insertFreeChunkIntoBin h = .ok s') : SamePolicy s s' := by
  obtain ⟨c, _, hOk⟩ := bind_eq_ok.mp hOk
  obtain ⟨_, _, hEnd⟩ := bind_eq_ok.mp hOk
  cases hEnd
  exact ⟨rfl, rfl, rfl, rfl, rfl⟩

theorem removeFreeChunkIterFromBin (hOk : s.removeFreeChunkIterFromBin b h = .ok s') :
    SamePolicy s s' := by
  obtain ⟨c, _, hOk⟩ := bind_eq_ok.mp hOk
  obtain ⟨_, _, hEnd⟩ := bind_eq_ok.mp hOk
  cases hEnd
  exact ⟨rfl, rfl, rfl, rfl, rfl⟩

theorem removeFreeChunkFromBin (hOk : s.removeFreeChunkFromBin h = .ok s') : SamePolicy s s' := by
  obtain ⟨c, _, hOk⟩ := bind_eq_ok.mp hOk
  split at hOk
  · cases hOk
  · obtain ⟨_, _, hOk⟩ := bind_eq_ok.mp hOk
    obtain ⟨_, _, hEnd⟩ := bind_eq_ok.mp hOk
    cases hEnd
    exact ⟨rfl, rfl, rfl, rfl, rfl⟩

theorem deleteChunk (hOk : s.deleteChunk h = .ok s') : SamePolicy s s' := by
  obtain ⟨c, _, hOk⟩ := bind_eq_ok.mp hOk
  obtain ⟨s₁, hSet, hOk⟩ := bind_eq_ok.mp hOk
  obtain ⟨d, _, hEnd⟩ := bind_eq_ok.mp hOk
  cases hEnd
  refine (setHandle hSet).trans ⟨rfl, rfl, rfl, rfl, rfl⟩

theorem splitChunk {numBytes : Nat} (hOk : s.splitChunk h numBytes = .ok s') : SamePolicy s s' := by
  obtain ⟨⟨hNewChunk, s₁⟩, hAllocate, hOk⟩ := bind_eq_ok.mp hOk
  obtain ⟨c, _, hOk⟩ := bind_eq_ok.mp hOk
  obtain ⟨_, _, hOk⟩ := bind_eq_ok.mp hOk
  obtain ⟨newChunk, _, hOk⟩ := bind_eq_ok.mp hOk
  obtain ⟨s₂, hSet, hOk⟩ := bind_eq_ok.mp hOk
  obtain ⟨s₃, hRelink, hInsert⟩ := bind_eq_ok.mp hOk
  refine (allocateChunk hAllocate).trans ((setHandle hSet).trans ?_)
  exact ((setChunk _ _ _).trans (setChunk _ _ _)).trans
    ((relink hRelink).trans (insertFreeChunkIntoBin hInsert))

theorem merge (hOk : s.merge h1 h2 = .ok s') : SamePolicy s s' := by
  obtain ⟨c1, _, hOk⟩ := bind_eq_ok.mp hOk
  obtain ⟨c2, _, hOk⟩ := bind_eq_ok.mp hOk
  obtain ⟨_, _, hOk⟩ := bind_eq_ok.mp hOk
  obtain ⟨_, _, hOk⟩ := bind_eq_ok.mp hOk
  obtain ⟨s₁, hRelink, hDelete⟩ := bind_eq_ok.mp hOk
  exact (setChunk _ _ _).trans ((relink hRelink).trans (deleteChunk hDelete))

theorem coalesceNext (hOk : s.coalesceNext h = .ok s') : SamePolicy s s' := by
  obtain ⟨c, _, hOk⟩ := bind_eq_ok.mp hOk
  split at hOk
  · cases hOk
    exact refl s
  · obtain ⟨cnext, _, hOk⟩ := bind_eq_ok.mp hOk
    split at hOk
    · cases hOk
      exact refl s
    · obtain ⟨s₁, hRemove, hMerge⟩ := bind_eq_ok.mp hOk
      exact (removeFreeChunkFromBin hRemove).trans (merge hMerge)

theorem coalescePrev (hOk : s.coalescePrev h = .ok (h1, s')) : SamePolicy s s' := by
  obtain ⟨c, _, hOk⟩ := bind_eq_ok.mp hOk
  split at hOk
  · cases hOk
    exact refl s
  · obtain ⟨cprev, _, hOk⟩ := bind_eq_ok.mp hOk
    split at hOk
    · cases hOk
      exact refl s
    · obtain ⟨s₁, hRemove, hOk⟩ := bind_eq_ok.mp hOk
      obtain ⟨s₂, hMerge, hEnd⟩ := bind_eq_ok.mp hOk
      cases hEnd
      exact (removeFreeChunkFromBin hRemove).trans (merge hMerge)

theorem freeAndMaybeCoalesce (hOk : s.freeAndMaybeCoalesce h = .ok s') : SamePolicy s s' := by
  obtain ⟨c, _, hOk⟩ := bind_eq_ok.mp hOk
  obtain ⟨_, _, hOk⟩ := bind_eq_ok.mp hOk
  obtain ⟨s₁, hNext, hOk⟩ := bind_eq_ok.mp hOk
  obtain ⟨⟨h', s₂⟩, hPrev, hInsert⟩ := bind_eq_ok.mp hOk
  have hLast := (coalescePrev hPrev).trans (insertFreeChunkIntoBin hInsert)
  refine trans ?_ ((coalesceNext hNext).trans hLast)
  exact ⟨rfl, rfl, rfl, rfl, rfl⟩

theorem markInUse {numBytes : Nat} (hOk : s.markInUse h numBytes = .ok (p, s')) :
    SamePolicy s s' := by
  obtain ⟨c, _, hEnd⟩ := bind_eq_ok.mp hOk
  cases hEnd
  exact ⟨rfl, rfl, rfl, rfl, rfl⟩

theorem findChunkPtr {binNum : BinNum} {rounded numBytes : Nat} {ptr : Option Nat}
    (hOk : s.findChunkPtr binNum rounded numBytes = .ok (ptr, s')) : SamePolicy s s' := by
  obtain ⟨found, _, hOk⟩ := bind_eq_ok.mp hOk
  split at hOk
  · cases hOk
    exact refl s
  · obtain ⟨s₁, hRemove, hOk⟩ := bind_eq_ok.mp hOk
    obtain ⟨c, _, hOk⟩ := bind_eq_ok.mp hOk
    have hFirst := removeFreeChunkIterFromBin hRemove
    split at hOk
    · obtain ⟨s₂, hSplit, hOk⟩ := bind_eq_ok.mp hOk
      obtain ⟨⟨p, s₃⟩, hMark, hEnd⟩ := bind_eq_ok.mp hOk
      cases hEnd
      exact hFirst.trans ((splitChunk hSplit).trans (markInUse hMark))
    · obtain ⟨s₂, hSame, hOk⟩ := bind_eq_ok.mp hOk
      cases hSame
      obtain ⟨⟨p, s₃⟩, hMark, hEnd⟩ := bind_eq_ok.mp hOk
      cases hEnd
      exact hFirst.trans (markInUse hMark)

end SamePolicy

section Extend

variable {rounded bytes : Nat} {answers rest : List (Option Nat)} {extended : Bool}
  {memAddr : Option Nat}

theorem requestRegion_eq_ok
    (hOk : s.requestRegion rounded bytes answers = .ok (memAddr, p, rest, s')) :
    ∃ started, s' = { s with startedBackpedal := started } := by
  cases answers with
  | nil => cases hOk
  | cons first rest =>
    rw [requestRegion] at hOk
    split at hOk
    · obtain ⟨result, _, hEnd⟩ := bind_eq_ok.mp hOk
      cases hEnd
      exact ⟨true, rfl⟩
    · cases hOk
      exact ⟨s.startedBackpedal, rfl⟩

theorem addRegion_policy (hOk : s.addRegion p bytes = .ok s') :
    s'.memoryLimit = s.memoryLimit ∧ s'.startedBackpedal = s.startedBackpedal ∧
      s'.currRegionAllocationBytes = s.currRegionAllocationBytes := by
  obtain ⟨regions, _, hOk⟩ := bind_eq_ok.mp hOk
  obtain ⟨⟨h, s₁⟩, hAllocate, hOk⟩ := bind_eq_ok.mp hOk
  obtain ⟨c, _, hOk⟩ := bind_eq_ok.mp hOk
  obtain ⟨s₂, hSet, hInsert⟩ := bind_eq_ok.mp hOk
  have hSame := (SamePolicy.allocateChunk hAllocate).trans ((SamePolicy.setChunk s₁ h _).trans
    ((SamePolicy.setHandle hSet).trans (SamePolicy.insertFreeChunkIntoBin hInsert)))
  exact ⟨hSame.limit, hSame.started, hSame.curr⟩

theorem extend_eq_ok (hOk : s.extend rounded answers = .ok (extended, rest, s')) :
    (s.regionRequest rounded = .ok none ∧ extended = false ∧ rest = answers ∧ s' = s) ∨
      ∃ curr increased bytes memAddr recorded started,
        s.regionRequest rounded = .ok (some (curr, increased, bytes)) ∧
        requestRegion { s with currRegionAllocationBytes := curr } rounded bytes answers =
          .ok (memAddr, recorded, rest,
            { s with currRegionAllocationBytes := curr, startedBackpedal := started }) ∧
        match memAddr with
        | none => extended = false ∧
          s' = { s with currRegionAllocationBytes := curr, startedBackpedal := started }
        | some p => extended ∧ addRegion
            { s with
              currRegionAllocationBytes := if increased then curr else sizeT (curr * 2)
              startedBackpedal := started } p recorded = .ok s' := by
  obtain ⟨request, hRequest, hOk⟩ := bind_eq_ok.mp hOk
  cases request with
  | none =>
    cases hOk
    exact .inl ⟨hRequest, rfl, rfl, rfl⟩
  | some request =>
    obtain ⟨curr, increased, bytes⟩ := request
    obtain ⟨⟨memAddr, recorded, rest', s₁⟩, hRegion, hOk⟩ := bind_eq_ok.mp hOk
    obtain ⟨started, rfl⟩ := requestRegion_eq_ok hRegion
    right
    cases memAddr with
    | none =>
      cases hOk
      exact ⟨curr, increased, bytes, none, recorded, started, hRequest, hRegion, rfl, rfl⟩
    | some p =>
      obtain ⟨s₂, hAdd, hEnd⟩ := bind_eq_ok.mp hOk
      cases hEnd
      refine ⟨curr, increased, bytes, some p, recorded, started, hRequest, hRegion, rfl, ?_⟩
      cases increased with
      | true => exact hAdd
      | false => exact hAdd

end Extend

section Calls

variable {binNum : BinNum} {rounded numBytes ptr : Nat} {answers rest : List (Option Nat)}
  {found : Option Nat}

theorem findChunkPtr_none (hOk : s.findChunkPtr binNum rounded numBytes = .ok (none, s')) :
    s' = s ∧ s.findChunk rounded ((range kNumBins).drop binNum) = .ok none := by
  obtain ⟨place, hFound, hOk⟩ := bind_eq_ok.mp hOk
  cases place with
  | none =>
    cases hOk
    exact ⟨rfl, hFound⟩
  | some place =>
    obtain ⟨s₁, _, hOk⟩ := bind_eq_ok.mp hOk
    obtain ⟨c, _, hOk⟩ := bind_eq_ok.mp hOk
    split at hOk
    · obtain ⟨s₂, _, hOk⟩ := bind_eq_ok.mp hOk
      obtain ⟨result, _, hEnd⟩ := bind_eq_ok.mp hOk
      cases hEnd
    · obtain ⟨s₂, _, hOk⟩ := bind_eq_ok.mp hOk
      obtain ⟨result, _, hEnd⟩ := bind_eq_ok.mp hOk
      cases hEnd

/-- The ways in which an attempt to allocate returns. -/
inductive Attempt (s : BFCAllocator) (numBytes : Nat) (answers : List (Option Nat)) :
    Option Nat → List (Option Nat) → BFCAllocator → Prop where
  | nothing (zero : numBytes = 0) : Attempt s numBytes answers none answers s
  | found {p : Nat} {s' : BFCAllocator} (positive : numBytes ≠ 0)
    (find : s.findChunkPtr (binNumForSize (roundedBytes numBytes))
      (roundedBytes numBytes) numBytes =
      .ok (some p, s')) : Attempt s numBytes answers (some p) answers s'
  | refused {rest : List (Option Nat)} {s' : BFCAllocator} (positive : numBytes ≠ 0)
    (find : s.findChunkPtr (binNumForSize (roundedBytes numBytes))
      (roundedBytes numBytes) numBytes =
      .ok (none, s))
    (extend : s.extend (roundedBytes numBytes) answers = .ok (false, rest, s')) :
    Attempt s numBytes answers none rest s'
  | extended {rest : List (Option Nat)} {s₁ s' : BFCAllocator} {ptr : Option Nat}
    (positive : numBytes ≠ 0)
    (find : s.findChunkPtr (binNumForSize (roundedBytes numBytes))
      (roundedBytes numBytes) numBytes =
      .ok (none, s))
    (extend : s.extend (roundedBytes numBytes) answers = .ok (true, rest, s₁))
    (again : s₁.findChunkPtr (binNumForSize (roundedBytes numBytes)) (roundedBytes numBytes)
      numBytes = .ok (ptr, s')) : Attempt s numBytes answers ptr rest s'

theorem allocateRaw_eq_ok (hOk : s.allocateRawInternal numBytes answers = .ok (found, rest, s')) :
    Attempt s numBytes answers found rest s' := by
  rw [allocateRawInternal] at hOk
  split at hOk
  · rename_i hZero
    cases hOk
    exact .nothing hZero
  · rename_i hPos
    obtain ⟨⟨ptr, s₁⟩, hFind, hRest⟩ := bind_eq_ok.mp hOk
    cases ptr with
    | some p =>
      cases hRest
      exact .found hPos hFind
    | none =>
      obtain ⟨rfl, _⟩ := findChunkPtr_none hFind
      obtain ⟨⟨extended, rest', s₂⟩, hExtend, hRest⟩ := bind_eq_ok.mp hRest
      cases extended with
      | false =>
        cases hRest
        exact .refused hPos hFind hExtend
      | true =>
        obtain ⟨⟨ptr, s₃⟩, hAgain, hEnd⟩ := bind_eq_ok.mp hRest
        cases hEnd
        exact .extended hPos hFind hExtend hAgain

theorem deallocateRaw_eq_ok (hOk : s.deallocateRawInternal ptr = .ok s') :
    ptr = 0 ∧ s' = s ∨ ∃ h, RegionManager.getHandle ptr s.regions = .ok (some h) ∧
      s.freeAndMaybeCoalesce h = .ok s' := by
  rw [deallocateRawInternal] at hOk
  split at hOk
  · rename_i hNull
    cases hOk
    exact .inl ⟨hNull, rfl⟩
  · obtain ⟨found, hFound, hOk⟩ := bind_eq_ok.mp hOk
    cases found with
    | none => cases hOk
    | some h => exact .inr ⟨h, hFound, hOk⟩

def handedOut (live : List (Nat × Nat)) (numBytes : Nat) : Option Nat → List (Nat × Nat)
  | some p => (p, numBytes) :: live
  | none => live

variable {state state' : BfcState}

theorem step_allocateRaw (hNext : state.step (.allocateRaw numBytes answers) = .next state') :
    ∃ found, state.allocator.allocateRawInternal numBytes answers =
        .ok (found, [], state'.allocator) ∧
      state'.live = handedOut state.live numBytes found := by
  rw [BfcState.step] at hNext
  split at hNext
  · cases hNext
  · cases hNext
  · rename_i p allocator hAllocate
    cases hNext
    exact ⟨some p, hAllocate, rfl⟩
  · rename_i allocator hAllocate
    cases hNext
    exact ⟨none, hAllocate, rfl⟩
  · cases hNext

theorem step_deallocateRaw (hNext : state.step (.deallocateRaw ptr) = .next state') :
    state.allocator.deallocateRawInternal ptr = .ok state'.allocator ∧
      state'.live = state.live.filter fun a => a.1 ≠ ptr := by
  rw [BfcState.step] at hNext
  split at hNext
  · cases hNext
  · cases hNext
  · rename_i allocator hFree
    cases hNext
    exact ⟨hFree, rfl⟩

end Calls

end TensorFlowOnSpark.CommonRuntime
