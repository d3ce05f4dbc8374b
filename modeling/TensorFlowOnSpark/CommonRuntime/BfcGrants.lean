import TensorFlowOnSpark.CommonRuntime.BfcBestFit
import TensorFlowOnSpark.CommonRuntime.BfcTermination

/-!
# What the sub-allocator grants and what is recorded

The sub-allocator may refuse and grant as it likes, also while `Extend` tries smaller
regions.
-/

namespace TensorFlowOnSpark.CommonRuntime

open Linked Transition Fallible BFCAllocator Nat Bool

variable {extended : Bool}

section Grants

/-- The grant while `Extend` tries smaller regions: the address, and the size that was asked for. -/
def backpedalGrant (rounded : Nat) : Nat → List (Option Nat) → Option (Nat × Nat)
  | _, [] => none
  | bytes, answer :: rest =>
    if rounded < bytes then
      match answer with
      | none => backpedalGrant rounded (smaller bytes) rest
      | some p => some (p, bytes)
    else none

/-- The first answer is a refusal, and it makes `Extend` try smaller regions. -/
def backpedals (s : BFCAllocator) (first : Option Nat) : Bool :=
  first.isNone && !s.startedBackpedal

/-- The grant when `bytes` are asked for first. -/
def grantFrom (s : BFCAllocator) (rounded bytes : Nat) : List (Option Nat) → Option (Nat × Nat)
  | [] => none
  | first :: rest =>
    if backpedals s first then backpedalGrant rounded (smaller bytes) rest
    else first.map fun p => (p, bytes)

def grantOf (s : BFCAllocator) (rounded : Nat) (answers : List (Option Nat)) :
    Except Stop (Option (Nat × Bool × Nat)) → Option (Nat × Nat)
  | .ok (some request) => grantFrom s rounded request.2.2 answers
  | .ok none => none
  | .error _ => none

/-- The address that `Alloc` returns in a call of `Extend`, and the size for which it returns it. -/
def grant (s : BFCAllocator) (rounded : Nat) (answers : List (Option Nat)) : Option (Nat × Nat) :=
  grantOf s rounded answers (s.regionRequest rounded)

theorem grant_eq {s : BFCAllocator} {rounded bytes curr : Nat} {increased : Bool}
    {answers : List (Option Nat)}
    (hRequest : s.regionRequest rounded = .ok (some (curr, increased, bytes))) :
    grant s rounded answers = grantFrom s rounded bytes answers :=
  congrArg (grantOf s rounded answers) hRequest

def firstGranted : List (Option Nat) → Bool
  | some _ :: _ => true
  | _ => false

variable {s s' : BFCAllocator} {rounded bytes : Nat} {answers rest : List (Option Nat)}
  {p recorded : Nat}

theorem backpedal_grant (hOk : backpedal rounded bytes answers = .ok (some p, recorded, rest))
    (hUnits : WholeUnits bytes) :
    ∃ asked, backpedalGrant rounded bytes answers = some (p, asked) ∧ recorded = smaller asked ∧
      rounded < asked ∧ asked ≤ bytes ∧ WholeUnits asked := by
  induction answers generalizing bytes with
  | nil =>
    rw [backpedal.eq_def] at hOk
    simp only at hOk
    split at hOk <;> cases hOk
  | cons answer answers ih =>
    rw [backpedal.eq_def] at hOk
    simp only at hOk
    rw [backpedalGrant.eq_def]
    simp only
    split at hOk
    · rename_i hGuard
      rw [if_pos hGuard]
      split at hOk
      · have hNext := smaller_unit hUnits.unit hUnits.fits
        obtain ⟨asked, hGrant, hRecorded, hLess, hLe, hUnits'⟩ :=
          ih hOk ⟨hNext.1, lt_of_le_of_lt hNext.2 hUnits.fits⟩
        exact ⟨asked, hGrant, hRecorded, hLess, le_trans hLe hNext.2, hUnits'⟩
      · cases hOk
        exact ⟨bytes, rfl, rfl, hGuard, le_refl _, hUnits⟩
    · cases hOk

/-- A granted region: what is recorded is what was asked for, or one step less if it was granted
while `Extend` tried smaller regions. -/
theorem requestRegion_grant {curr : Nat} {increased : Bool}
    (hRequest : s.regionRequest rounded = .ok (some (curr, increased, bytes)))
    (hUnits : WholeUnits bytes) (hEnough : rounded ≤ bytes)
    (hOk : requestRegion { s with currRegionAllocationBytes := curr } rounded bytes answers =
      .ok (some p, recorded, rest, s')) :
    ∃ asked, grant s rounded answers = some (p, asked) ∧ rounded ≤ asked ∧ WholeUnits asked ∧
      recorded = if firstGranted answers then asked else smaller asked := by
  cases answers with
  | nil => cases hOk
  | cons first rest' =>
    rw [grant_eq hRequest, grantFrom]
    rw [requestRegion] at hOk
    split at hOk
    · rename_i hBackpedal
      have hSame : backpedals s first := hBackpedal
      rw [if_pos hSame]
      obtain ⟨⟨memAddr, recorded', rest₁⟩, hLoop, hEnd⟩ := bind_eq_ok.mp hOk
      cases hEnd
      have hNext := smaller_unit hUnits.unit hUnits.fits
      obtain ⟨asked, hGrant, hRecorded, hLess, _, hUnits'⟩ :=
        backpedal_grant hLoop ⟨hNext.1, lt_of_le_of_lt hNext.2 hUnits.fits⟩
      refine ⟨asked, hGrant, le_of_lt hLess, hUnits', ?_⟩
      rw [and_eq_true, Option.isNone_iff_eq_none] at hBackpedal
      rw [hBackpedal.1]
      exact hRecorded.trans (if_neg Bool.false_ne_true).symm
    · rename_i hBackpedal
      cases hOk
      exact ⟨bytes, rfl, hEnough, hUnits, rfl⟩

theorem regionRequest_units {curr : Nat} {increased : Bool}
    (hUnits : WholeUnits s.currRegionAllocationBytes)
    (hRequest : s.regionRequest rounded = .ok (some (curr, increased, bytes))) :
    WholeUnits bytes ∧ rounded ≤ bytes := by
  rw [regionRequest] at hRequest
  split at hRequest
  · cases hRequest
  · rename_i hAvailable
    obtain ⟨⟨curr', increased'⟩, hIncrease, hEq⟩ := bind_eq_ok.mp hRequest
    cases hEq
    obtain ⟨hUnits', hEnough⟩ := hUnits.doubled (increase_leaves 65 hIncrease)
    exact ⟨hUnits'.min (availableBytes_units s), le_min hEnough (not_lt.mp hAvailable)⟩

theorem extend_grant (hUnits : WholeUnits s.currRegionAllocationBytes)
    (hOk : s.extend rounded answers = .ok (extended, rest, s')) :
    (extended = false ∧ ∃ curr started,
        s' = { s with currRegionAllocationBytes := curr, startedBackpedal := started }) ∨
      extended ∧ ∃ p asked recorded curr started,
        grant s rounded answers = some (p, asked) ∧ rounded ≤ asked ∧ WholeUnits asked ∧
        recorded = (if firstGranted answers then asked else smaller asked) ∧
        addRegion { s with currRegionAllocationBytes := curr, startedBackpedal := started } p
          recorded = .ok s' := by
  rcases extend_eq_ok hOk with ⟨_, hFalse, _, rfl⟩ |
    ⟨curr, increased, bytes, memAddr, recorded, started, hRequest, hRegion, hEnd⟩
  · exact .inl ⟨hFalse, s'.currRegionAllocationBytes, s'.startedBackpedal, rfl⟩
  · cases memAddr with
    | none => exact .inl ⟨hEnd.1, curr, started, hEnd.2⟩
    | some p =>
      obtain ⟨hUnits', hEnough⟩ := regionRequest_units hUnits hRequest
      obtain ⟨asked, hGrant, hAsked, hWhole, hRecorded⟩ :=
        requestRegion_grant hRequest hUnits' hEnough hRegion
      exact .inr ⟨hEnd.1, p, asked, recorded, _, started, hGrant, hAsked, hWhole, hRecorded,
        hEnd.2⟩

/-- `Extend` needs more answers, or its first loop does not end. -/
def Hangs (stop : Stop) : Prop := stop = .unanswered ∨ stop = .check .endlessDoubling

theorem increase_hangs (turns curr : Nat) (increased : Bool) :
    Ends (fun _ => True) Hangs (increase rounded turns curr increased) := by
  induction turns generalizing curr increased with
  | zero => exact .inr rfl
  | succ turns ih =>
    rw [increase]
    split
    · exact ih _ _
    · trivial

theorem backpedal_hangs (bytes : Nat) (answers : List (Option Nat)) :
    Ends (fun _ => True) Hangs (backpedal rounded bytes answers) := by
  induction answers generalizing bytes with
  | nil =>
    rw [backpedal.eq_def]
    simp only
    split
    · exact .inl rfl
    · trivial
  | cons answer rest ih =>
    rw [backpedal.eq_def]
    simp only
    split
    · cases answer with
      | none => exact ih _
      | some p => trivial
    · trivial

theorem requestRegion_hangs (s : BFCAllocator) (bytes : Nat) (answers : List (Option Nat)) :
    Ends (fun _ => True) Hangs (s.requestRegion rounded bytes answers) := by
  cases answers with
  | nil => exact .inl rfl
  | cons first rest =>
    rw [requestRegion]
    split
    · exact .bind (backpedal_hangs _ rest) fun _ _ _ => trivial
    · trivial

theorem regionRequest_hangs (s : BFCAllocator) (rounded : Nat) :
    Ends (fun _ => True) Hangs (s.regionRequest rounded) := by
  rw [regionRequest]
  split
  · trivial
  · exact .bind (increase_hangs 65 _ false) fun _ _ _ => trivial

theorem recorded_le {asked : Nat} (hUnits : WholeUnits asked) (hPos : 0 < asked)
    (hRecorded : recorded = if firstGranted answers then asked else smaller asked) :
    0 < recorded ∧ 256 ∣ recorded ∧ recorded ≤ asked ∧
      (recorded = asked ↔ firstGranted answers ∨ asked ≤ 2304) := by
  rw [hRecorded]
  split
  · rename_i hFirst
    exact ⟨hPos, hUnits.unit, le_refl _, iff_of_true rfl (.inl hFirst)⟩
  · rename_i hFirst
    have hUnit := le_of_dvd hPos hUnits.unit
    obtain ⟨hUnit', hLe⟩ := smaller_unit hUnits.unit hUnits.fits
    refine ⟨?_, hUnit', hLe, ?_⟩
    · rcases le_or_gt asked 2304 with hSmall | hLarge
      · rwa [smaller_fixed hUnits.unit hSmall]
      · exact lt_of_lt_of_le (by decide) (smaller_lt hUnits.unit hUnits.fits hLarge).2
    · rw [or_iff_right hFirst]
      constructor
      · intro hEq
        by_contra hLarge
        have hLess := smaller_lt hUnits.unit hUnits.fits (not_le.mp hLarge)
        omega
      · exact smaller_fixed hUnits.unit

end Grants

section Regions

namespace Arranged

variable {L : Layout} {recycled : List ChunkHandle} {s s' : BFCAllocator} {p bytes : Nat}

/-- A new region is one free chunk. -/
structure AddsRegion (s s' : BFCAllocator) (p bytes : Nat) (y : ChunkHandle) (c : Chunk) :
    Prop where
  chunk : s'.chunks[y]? = some c
  free : c.inUse = false
  ptr : c.ptr = p
  size : c.size = bytes
  alone : c.prev = none ∧ c.next = none
  filed : c.binNum = some (binNumForSize bytes)
  others : ∀ z, z ≠ y → s'.chunks[z]? = s.chunks[z]?
  unused : ∀ d, s.chunks[y]? = some d → d.inUse = false ∧ d.binNum = none
  region : ∃ r ∈ s'.regions, r.ptr = p ∧ r.memorySize = bytes
  regions : ∀ r' ∈ s'.regions, (r'.ptr = p ∧ r'.memorySize = bytes) ∨
    ∃ r ∈ s.regions, r'.ptr = r.ptr ∧ r'.memorySize = r.memorySize
  nextId : s'.nextAllocationId = s.nextAllocationId
  usage : usage s'.chunks = usage s.chunks
  grows : s'.chunks.length ≤ s.chunks.length + 1

theorem addRegion (A : Arranged L recycled [] [] s)
    (hOrdinary : AllocationRegion.Ordinary ⟨p, bytes, fun _ => none⟩)
    (hApart : ∀ r ∈ s.regions, p + bytes ≤ r.ptr ∨ r.ptr + r.memorySize ≤ p)
    (hUnit : 256 ∣ bytes) (hBound : bytes ≤ 2 ^ 39)
    (hGoes : (∃ s', s.addRegion p bytes = .ok s') ∨ s.chunks.length < 2 ^ 31) :
    ∃ s' L' recycled' y c, s.addRegion p bytes = .ok s' ∧ Arranged L' recycled' [] [] s' ∧
      Live L' s'.regions y ∧ AddsRegion s s' p bytes y c := by
  have hPos : 0 < bytes := hOrdinary.nonEmpty
  let region : AllocationRegion := ⟨p, bytes, fun _ => none⟩
  let added : BFCAllocator :=
    { s with
      totalRegionAllocatedBytes := sizeT (s.totalRegionAllocatedBytes + bytes)
      regions := RegionManager.insertRegion region s.regions }
  have hAdd : RegionManager.addAllocationRegion s.regions p bytes = .ok added.regions :=
    if_pos (mod_eq_zero_of_dvd hUnit)
  obtain ⟨y, c₀, chunks₁, head', recycled', hAllocate, F⟩ := A.allocateChunk added rfl rfl
    (hGoes.imp_left fun ⟨_, hOk⟩ => by
      rw [BFCAllocator.addRegion, hAdd, ok_bind] at hOk
      exact (bind_eq_ok.mp hOk).imp fun _ h => h.1)
  let new : Chunk :=
    { c₀ with ptr := p, size := bytes, allocationId := -1, prev := none, next := none }
  have hSorted := sorted_insertRegion (r := region) (fun r hr => (A.placement.ordinary r hr).ends)
    A.placement.sorted hApart
  have hAll : ∀ r ∈ RegionManager.insertRegion region s.regions, r.Ordinary := fun r hr =>
    (mem_insertRegion.mp hr).elim (fun hEq => hEq ▸ hOrdinary) (A.placement.ordinary r)
  have hSlot : region.HasSlot p :=
    hOrdinary.hasSlot hBound (le_refl _) (Nat.lt_add_of_pos_right hPos)
  have hSet := setHandle_slot hAll hSorted (r := region) (mem_insertRegion.mpr (.inl rfl))
    (le_refl _) (Nat.lt_add_of_pos_right hPos) hSlot (some y)
  let regions := (RegionManager.insertRegion region s.regions).map
    (putHandle p (region.slot p) (some y))
  let s₂ : BFCAllocator :=
    { added with regions := regions, chunks := chunks₁.set y new, freeChunksList := head' }
  have hy₂ : s₂.chunks[y]? = some new := getElem?_set_self F.chunk
  have hSame : ∀ z, z ≠ y → s₂.chunks[z]? = s.chunks[z]? := fun z hz =>
    (getElem?_set_ne hz).trans (F.same z hz)
  have hCells : ∀ z, z ≠ y → cellsOf s₂.chunks z = cellsOf s.chunks z := fun z hz => by
    rw [cellsOf, cellsOf, hSame z hz]
  have P := A.placement.extend hOrdinary hApart F.dead hCells (cellsOf_eq hy₂) rfl hSlot
    F.freeList F.nodup F.rest
  have hLives : ∀ z, Live (Function.update L p [y]) s₂.regions z ↔ Live L s.regions z ∨ z = y :=
    fun z => Placement.live_extend hApart hPos A.placement.ordinary _
  have M := A.marks.extend hLives F.rest F.dead F.old
    (fun z d n hz hd hn => (A.next_ne hz hd hn).2.1) hSame hy₂ rfl F.unbinned rfl
  have A₂ : Arranged (Function.update L p [y]) recycled' [y] [] s₂ := by
    refine ⟨P, M, ?_⟩
    intro z d hz hd hFree hHeld
    have hzy : z ≠ y := by simpa using hHeld
    exact A.positive z d (((hLives z).mp hz).resolve_right hzy) ((hSame z hzy).symm.trans hd)
      hFree List.not_mem_nil
  obtain ⟨s', hInsert, A', hFrame, hRegions, hChunks⟩ :=
    A₂.insertFreeChunk List.not_mem_nil hy₂ hPos
  refine ⟨s', _, _, y, { new with binNum := some (binNumForSize bytes) }, ?_, A', ?_, ?_, rfl, rfl,
    rfl, ⟨rfl, rfl⟩, rfl, ?_, ?_, ?_, ?_, hFrame.nextId, hFrame.usage.trans ?_, ?_⟩
  · rw [BFCAllocator.addRegion, hAdd, ok_bind, hAllocate]
    simp only [ok_bind, chunkFromHandle, F.chunk, BFCAllocator.setHandle]
    exact (congrArg (fun result => (result >>= _) >>= _) hSet).trans hInsert
  · rw [hRegions]
    exact (hLives y).mpr (.inr rfl)
  · rw [hChunks]
    exact getElem?_set_self hy₂
  · intro z hz
    rw [hChunks, getElem?_set_ne hz, hSame z hz]
  · intro d hd
    rcases A.live_or_recycled hd with hMem | hLive
    · obtain ⟨d', hd', hFree, hNone⟩ := A.marks.idle y hMem
      cases hd.symm.trans hd'
      exact ⟨hFree, hNone⟩
    · exact absurd hLive F.dead
  · rw [hRegions]
    refine ⟨_, List.mem_map_of_mem (mem_insertRegion.mpr (.inl rfl)), ?_, ?_⟩
    · exact putHandle_ptr _ _ _ _
    · exact putHandle_memorySize _ _ _ _
  · rw [hRegions]
    intro r' hr'
    obtain ⟨r, hr, rfl⟩ := List.mem_map.mp hr'
    rw [putHandle_ptr, putHandle_memorySize]
    rcases mem_insertRegion.mp hr with rfl | hr
    · exact .inl ⟨rfl, rfl⟩
    · exact .inr ⟨r, hr, rfl, rfl⟩
  · refine Eq.trans ?_ F.usage
    exact usage_set F.chunk F.free.symm fun hUse =>
      absurd (F.free.symm.trans hUse) false_ne_true
  · rw [hChunks, List.length_set, List.length_set]
    exact F.grows

/-- The region that the sub-allocator grants is added, as it is recorded. -/
theorem addGranted (A : Arranged L recycled [] [] s) {asked recorded : Nat} (curr : Nat)
    (started : Bool) {answers : List (Option Nat)}
    (hPromise : 0 < asked ∧ asked ≤ 2 ^ 39 ∧ Granted s p asked)
    (hWhole : WholeUnits asked)
    (hRecorded : recorded = if firstGranted answers then asked else smaller asked)
    (hGoes : (∃ s', BFCAllocator.addRegion
        { s with currRegionAllocationBytes := curr, startedBackpedal := started } p recorded =
          .ok s') ∨ s.chunks.length < 2 ^ 31) :
    ∃ s' L' recycled' y c, BFCAllocator.addRegion
        { s with currRegionAllocationBytes := curr, startedBackpedal := started } p recorded =
          .ok s' ∧ Arranged L' recycled' [] [] s' ∧ Live L' s'.regions y ∧
      AddsRegion s s' p recorded y c := by
  obtain ⟨hPos, hBound, hNonNull, hFits, hApart⟩ := hPromise
  obtain ⟨hPos', hUnit, hLe, _⟩ := recorded_le hWhole hPos hRecorded
  have hOrdinary : AllocationRegion.Ordinary ⟨p, recorded, fun _ => none⟩ :=
    ⟨hNonNull, hPos', by change recorded < _; omega, by change p + recorded < _; omega⟩
  have A₁ : Arranged L recycled [] []
      { s with currRegionAllocationBytes := curr, startedBackpedal := started } :=
    ⟨A.placement, A.marks, A.positive⟩
  obtain ⟨s', L', recycled', y, c, hAdd, A', hLive, hAdds⟩ := A₁.addRegion hOrdinary
    (fun r hr => (hApart r hr).imp_left (le_trans (Nat.add_le_add_left hLe p))) hUnit
    (le_trans hLe hBound) hGoes
  exact ⟨s', L', recycled', y, c, hAdd, A', hLive, { hAdds with }⟩

theorem extend (A : Arranged L recycled [] [] s) {rounded : Nat} {answers rest : List (Option Nat)}
    (hUnits : WholeUnits s.currRegionAllocationBytes)
    (hPromise : ∀ p asked, grant s rounded answers = some (p, asked) →
      0 < asked ∧ asked ≤ 2 ^ 39 ∧ Granted s p asked)
    (hOk : s.extend rounded answers = .ok (extended, rest, s')) :
    (extended = false ∧ Arranged L recycled [] [] s' ∧ s'.chunks = s.chunks ∧ s'.bins = s.bins ∧
        s'.regions = s.regions ∧ s'.nextAllocationId = s.nextAllocationId) ∨
      extended ∧ ∃ L' recycled' p asked recorded y c, Arranged L' recycled' [] [] s' ∧
        grant s rounded answers = some (p, asked) ∧ rounded ≤ asked ∧ 0 < recorded ∧
        recorded ≤ asked ∧ (recorded = asked ↔ firstGranted answers ∨ asked ≤ 2304) ∧
        Live L' s'.regions y ∧ AddsRegion s s' p recorded y c := by
  rcases extend_grant hUnits hOk with ⟨hFalse, curr, started, rfl⟩ |
    ⟨hTrue, p, asked, recorded, curr, started, hGrant, hEnough, hWhole, hRecorded, hAdd⟩
  · exact .inl ⟨hFalse, ⟨A.placement, A.marks, A.positive⟩, rfl, rfl, rfl, rfl⟩
  · have hPromise := hPromise p asked hGrant
    obtain ⟨hPos', _, hLe, hExact⟩ := recorded_le hWhole hPromise.1 hRecorded
    obtain ⟨s₁, L', recycled', y, c, hAdd', A', hLive, hAdds⟩ :=
      A.addGranted curr started hPromise hWhole hRecorded (.inl ⟨s', hAdd⟩)
    obtain rfl : s₁ = s' := Except.ok.inj (hAdd'.symm.trans hAdd)
    exact .inr ⟨hTrue, L', recycled', p, asked, recorded, y, c, A', hGrant, hEnough, hPos', hLe,
      hExact, hLive, hAdds⟩

/-- If there is room, `Extend` returns as soon as it has its answers. -/
theorem extend_goes (A : Arranged L recycled [] [] s) {rounded : Nat} {answers : List (Option Nat)}
    (hUnits : WholeUnits s.currRegionAllocationBytes)
    (hPromise : ∀ p asked, grant s rounded answers = some (p, asked) →
      0 < asked ∧ asked ≤ 2 ^ 39 ∧ Granted s p asked) (hRoom : s.chunks.length < 2 ^ 31) :
    Ends (fun _ => True) Hangs (s.extend rounded answers) := by
  refine .bind (regionRequest_hangs s rounded) fun request hRequest _ => ?_
  cases request with
  | none => trivial
  | some request =>
    obtain ⟨curr, increased, bytes⟩ := request
    refine .bind (requestRegion_hangs _ bytes answers) fun region hRegion _ => ?_
    obtain ⟨memAddr, recorded, rest, s₁⟩ := region
    cases memAddr with
    | none => trivial
    | some p =>
      obtain ⟨started, rfl⟩ := requestRegion_eq_ok hRegion
      obtain ⟨hUnits', hEnough⟩ := regionRequest_units hUnits hRequest
      obtain ⟨asked, hGrant, _, hWhole, hRecorded⟩ :=
        requestRegion_grant hRequest hUnits' hEnough hRegion
      have hAdds := fun curr => A.addGranted curr started (hPromise p asked hGrant) hWhole hRecorded
        (.inr hRoom)
      refine .bind (Q := fun _ => True) ?_ fun _ _ _ => trivial
      cases increased with
      | true =>
        obtain ⟨_, _, _, _, _, hAdd, _⟩ := hAdds curr
        exact hAdd ▸ trivial
      | false =>
        obtain ⟨_, _, _, _, _, hAdd, _⟩ := hAdds (sizeT (curr * 2))
        exact hAdd ▸ trivial

end Arranged

end Regions

section Runs

/-- The sub-allocator grants memory, in regions of at most `limit` bytes. -/
def Promised (limit : Nat) (s : BfcState) : BfcAction → Prop
  | .allocateRaw numBytes answers => ∀ p asked,
      grant s.allocator (roundedBytes numBytes) answers = some (p, asked) →
      0 < asked ∧ asked ≤ limit ∧ Granted s.allocator p asked
  | .deallocateRaw _ => True

structure Filed (L : Layout) (recycled : List ChunkHandle) (s : BFCAllocator) : Prop where
  arranged : Arranged L recycled [] [] s
  ids : 0 < s.nextAllocationId
  units : WholeUnits s.currRegionAllocationBytes
  bounded : ∀ r ∈ s.regions, r.memorySize ≤ 2 ^ 39

variable {L : Layout} {recycled : List ChunkHandle} {s s' : BFCAllocator}

theorem roundedBytes_unit (n : Nat) : 256 ∣ roundedBytes n := (wholeUnits_rounded n).unit

theorem SamePolicy.bounded (hSame : SamePolicy s s') {bound : Nat}
    (hBounded : ∀ r ∈ s.regions, r.memorySize ≤ bound) :
    ∀ r ∈ s'.regions, r.memorySize ≤ bound := by
  intro r' hr'
  have hMem : r'.extent ∈ s.regions.map AllocationRegion.extent := by
    rw [← hSame.extents]
    exact List.mem_map_of_mem hr'
  obtain ⟨r, hr, hEq⟩ := List.mem_map.mp hMem
  have hSize : r.memorySize = r'.memorySize := congrArg Prod.snd hEq
  rw [← hSize]
  exact hBounded r hr

theorem Filed.findChunkPtr (h : Filed L recycled s) {numBytes : Nat} {found : Option Nat}
    (hOk : s.findChunkPtr (binNumForSize (roundedBytes numBytes)) (roundedBytes numBytes)
      numBytes = .ok (found, s')) : ∃ L' recycled', Filed L' recycled' s' := by
  have hSame := SamePolicy.findChunkPtr hOk
  rcases h.arranged.findChunkPtr h.ids (roundedBytes_unit numBytes) hOk with
    ⟨_, rfl, _⟩ | ⟨_, _, _, _, _, L', recycled', _, _, _, _, _, _, A', hTaken, _⟩
  · exact ⟨L, recycled, h⟩
  · have hIds := h.ids
    refine ⟨L', recycled', A', ?_, hSame.curr ▸ h.units, hSame.bounded h.bounded⟩
    rw [hTaken.nextId]
    omega

theorem Filed.extend (h : Filed L recycled s) {rounded : Nat} {answers rest : List (Option Nat)}
    (hPromise : ∀ p asked, grant s rounded answers = some (p, asked) →
      0 < asked ∧ asked ≤ 2 ^ 39 ∧ Granted s p asked)
    (hOk : s.extend rounded answers = .ok (extended, rest, s')) :
    ∃ L' recycled', Filed L' recycled' s' := by
  have hUnits := h.units.extend hOk
  rcases h.arranged.extend h.units hPromise hOk with ⟨_, A', _, _, hRegions, hId⟩ |
    ⟨_, L', recycled', p, asked, _, _, _, A', hGrant, _, _, hLe, _, _, hAdds⟩
  · exact ⟨L, recycled, A', hId ▸ h.ids, hUnits, hRegions ▸ h.bounded⟩
  · refine ⟨L', recycled', A', hAdds.nextId ▸ h.ids, hUnits, ?_⟩
    intro r' hr'
    rcases hAdds.regions r' hr' with ⟨_, hSize⟩ | ⟨r, hr, _, hSize⟩
    · rw [hSize]
      exact le_trans hLe (hPromise p asked hGrant).2.1
    · rw [hSize]
      exact h.bounded r hr

theorem Arranged.getHandle {held loose : List ChunkHandle} (A : Arranged L recycled held loose s)
    {p : Nat} {x : ChunkHandle} (hGet : RegionManager.getHandle p s.regions = .ok (some x)) :
    Live L s.regions x ∧ ∃ c, s.chunks[x]? = some c ∧ 0 < c.size := by
  obtain ⟨r, hr, i, hi⟩ := getHandle_mem hGet
  obtain ⟨hx, cell, hCell, hPos, _⟩ := A.placement.stored r hr i x hi
  obtain ⟨c, hc, rfl⟩ := Option.map_eq_some_iff.mp hCell
  exact ⟨⟨r, hr, hx⟩, c, hc, hPos⟩

theorem Filed.deallocateRaw (h : Filed L recycled s) {ptr : Nat}
    (hOk : s.deallocateRawInternal ptr = .ok s') : ∃ L' recycled', Filed L' recycled' s' := by
  rcases deallocateRaw_eq_ok hOk with ⟨_, rfl⟩ | ⟨x, hGet, hFree⟩
  · exact ⟨L, recycled, h⟩
  · obtain ⟨hLive, c, hc, hPos⟩ := h.arranged.getHandle hGet
    obtain ⟨_, L', recycled', A', hFrame⟩ := h.arranged.freeAndMaybeCoalesce hLive hc hPos hFree
    have hSame := SamePolicy.freeAndMaybeCoalesce hFree
    refine ⟨L', recycled', A', ?_, hSame.curr ▸ h.units, hSame.bounded h.bounded⟩
    rw [hFrame.nextId]
    exact h.ids

theorem Filed.step {state state' : BfcState} {action : BfcAction}
    (h : Filed L recycled state.allocator) (hPromised : Promised (2 ^ 39) state action)
    (hNext : state.step action = .next state') :
    ∃ L' recycled', Filed L' recycled' state'.allocator := by
  cases action with
  | allocateRaw numBytes answers =>
    obtain ⟨found, hAllocate, _⟩ := step_allocateRaw hNext
    have hAttempt := allocateRaw_eq_ok hAllocate
    generalize state'.allocator = s' at hAttempt ⊢
    cases hAttempt with
    | nothing _ => exact ⟨L, recycled, h⟩
    | found _ hFind => exact h.findChunkPtr hFind
    | refused _ _ hExtend => exact h.extend hPromised hExtend
    | extended _ _ hExtend hAgain =>
      obtain ⟨L₁, recycled₁, h₁⟩ := h.extend hPromised hExtend
      exact h₁.findChunkPtr hAgain
  | deallocateRaw ptr => exact h.deallocateRaw (step_deallocateRaw hNext).1

theorem filed_init (totalMemory : Nat) (allowGrowth : Bool) :
    Filed (fun _ => []) [] (BfcState.init totalMemory allowGrowth).allocator where
  arranged :=
    { placement :=
        { ordinary := nofun
          sorted := .nil
          unique := nofun
          inside := nofun
          disjoint := by rintro x y cx cy ⟨r, hr, _⟩; cases hr
          next := nofun
          prev := nofun
          stored := nofun
          indexed := nofun
          freeList := rfl
          nodup := .nil
          apart := nofun
          covered := nofun }
      marks :=
        { idle := nofun
          filed := nofun
          unfiled := nofun
          binned := by simp [BfcState.init, init]
          sorted := fun _ => .nil
          coalesced := by simp [BfcState.init, init] }
      positive := nofun }
  ids := Int.one_pos
  units := wholeUnits_of_reach .refl
  bounded := nofun

theorem filed_of_reach {totalMemory : Nat} {allowGrowth : Bool} {state : BfcState}
    (hRun : Reach BfcState.step (Promised (2 ^ 39)) (BfcState.init totalMemory allowGrowth) state) :
    ∃ L recycled, Filed L recycled state.allocator := by
  refine hRun.invariant (fun state => ∃ L recycled, Filed L recycled state.allocator)
    ⟨_, _, filed_init totalMemory allowGrowth⟩ ?_
  rintro state action state' ⟨L, recycled, h⟩ hPromised hNext
  exact h.step hPromised hNext

end Runs

open List

/-- The handles that were given back, from `free_chunks_list_` on. -/
inductive Recycled (s : BFCAllocator) : ChunkHandle → Prop where
  | head {h : ChunkHandle} (first : s.freeChunksList = some h) : Recycled s h
  | next {h n : ChunkHandle} {c : Chunk} (before : Recycled s h) (chunk : s.chunks[h]? = some c)
      (follows : c.next = some n) : Recycled s n

def FreeChunk (s : BFCAllocator) (h : ChunkHandle) (c : Chunk) : Prop :=
  s.chunks[h]? = some c ∧ c.inUse = false ∧ ¬Recycled s h

section FreeChunks

variable {L : Layout} {recycled : List ChunkHandle} {s s' : BFCAllocator} {h n : ChunkHandle}
  {c : Chunk}

variable {first : Option ChunkHandle}

theorem FreeList.next_mem {cells : Nat → Option Cell} {cell : Cell}
    (hList : FreeList cells first recycled) (hMem : h ∈ recycled) (hCell : cells h = some cell)
    (hNext : cell.next = some n) : n ∈ recycled := by
  induction recycled generalizing first with
  | nil => cases hMem
  | cons x rest ih =>
    obtain ⟨_, cell', hCell', hRest⟩ := hList
    rcases mem_cons.mp hMem with rfl | hMem
    · cases hCell.symm.trans hCell'
      rw [hNext] at hRest
      cases rest with
      | nil => cases hRest
      | cons y rest =>
        obtain rfl : n = y := Option.some.inj hRest.1
        exact mem_cons_of_mem _ mem_cons_self
    · exact mem_cons_of_mem _ (ih hRest hMem)

theorem FreeList.recycled_of_mem (hList : FreeList (cellsOf s.chunks) first recycled)
    (hFirst : ∀ h, first = some h → Recycled s h) (hMem : h ∈ recycled) : Recycled s h := by
  induction recycled generalizing first with
  | nil => cases hMem
  | cons x rest ih =>
    obtain ⟨hHead, cell, hCell, hRest⟩ := hList
    rcases mem_cons.mp hMem with rfl | hMem
    · exact hFirst h hHead
    · obtain ⟨c, hc, rfl⟩ := Option.map_eq_some_iff.mp hCell
      exact ih hRest (fun n hn => .next (hFirst x hHead) hc hn) hMem

theorem recycled_iff (hList : FreeList (cellsOf s.chunks) s.freeChunksList recycled) :
    Recycled s h ↔ h ∈ recycled := by
  constructor
  · intro hRecycled
    induction hRecycled with
    | head first =>
      rw [first] at hList
      cases recycled with
      | nil => cases hList
      | cons x rest =>
        rw [Option.some.inj hList.1]
        exact mem_cons_self
    | next before chunk follows ih => exact hList.next_mem ih (cellsOf_eq chunk) follows
  · exact hList.recycled_of_mem fun _ hFirst => .head hFirst

theorem Arranged.free_iff (A : Arranged L recycled [] [] s) :
    FreeChunk s h c ↔ Arranged.Free L s h c := by
  rw [FreeChunk, recycled_iff A.placement.freeList]
  constructor
  · rintro ⟨hc, hFree, hNot⟩
    exact ⟨(A.live_or_recycled hc).resolve_left hNot, hc, hFree⟩
  · rintro ⟨hLive, hc, hFree⟩
    exact ⟨hc, hFree, A.not_recycled hLive⟩

end FreeChunks

def searchFrom (s : BFCAllocator) (rounded : Nat) : Except Stop (Option (BinNum × ChunkHandle)) :=
  s.findChunk rounded ((range kNumBins).drop (binNumForSize rounded))

/-- `FindChunkPtr` is a search for the best fit. -/
structure FindsBestFit (s : BFCAllocator) (rounded numBytes : Nat) : Prop where
  ends : ∃ place, searchFrom s rounded = .ok place
  finds : ∀ place, searchFrom s rounded = .ok place →
    (place.isSome ↔ ∃ h c, FreeChunk s h c ∧ rounded ≤ c.size)
  least : ∀ b h, searchFrom s rounded = .ok (some (b, h)) →
    ∃ c, FreeChunk s h c ∧ rounded ≤ c.size ∧ ∀ x d, FreeChunk s x d → rounded ≤ d.size →
      x = h ∨ c.size < d.size ∨ c.size = d.size ∧ c.ptr < d.ptr
  nothing : (∀ h c, FreeChunk s h c → c.size < rounded) →
    s.findChunkPtr (binNumForSize rounded) rounded numBytes = .ok (none, s)
  takes : ∀ b h, searchFrom s rounded = .ok (some (b, h)) →
    ∃ c c' s', s.chunks[h]? = some c ∧
      s.findChunkPtr (binNumForSize rounded) rounded numBytes = .ok (some c.ptr, s') ∧
      s'.chunks[h]? = some c' ∧ c'.inUse ∧ c'.ptr = c.ptr ∧ rounded ≤ c'.size

variable {recycled : List ChunkHandle}

theorem Filed.findsBestFit {L : Layout} {s : BFCAllocator}
    (h : Filed L recycled s) (hRoom : s.chunks.length < 2 ^ 31) (numBytes : Nat) :
    FindsBestFit s (roundedBytes numBytes) numBytes := by
  have A := h.arranged
  obtain ⟨place, hSearch, hNone, hSome⟩ := A.findChunk_best (roundedBytes numBytes)
  have hFree {x : ChunkHandle} {d : Chunk} : FreeChunk s x d ↔ Arranged.Free L s x d := A.free_iff
  refine ⟨⟨place, hSearch⟩, ?_, ?_, ?_, ?_⟩
  · intro place' hPlace
    cases hSearch.symm.trans hPlace
    cases place with
    | none =>
      refine iff_of_false false_ne_true ?_
      rintro ⟨x, d, hx, hFits⟩
      exact not_lt.mpr hFits (hNone rfl x d (hFree.mp hx))
    | some place =>
      obtain ⟨b, x⟩ := place
      obtain ⟨_, c, hc, hFits, _⟩ := hSome b x rfl
      exact iff_of_true rfl ⟨x, c, hFree.mpr hc, hFits⟩
  · intro b x hPlace
    cases hSearch.symm.trans hPlace
    obtain ⟨_, c, hc, hFits, hLeast⟩ := hSome b x rfl
    exact ⟨c, hFree.mpr hc, hFits, fun y d hy => hLeast y d (hFree.mp hy)⟩
  · intro hSmall
    cases place with
    | none => exact congrArg (fun result => result >>= _) hSearch
    | some place =>
      obtain ⟨b, x⟩ := place
      obtain ⟨_, c, hc, hFits, _⟩ := hSome b x rfl
      exact absurd hFits (not_le.mpr (hSmall x c (hFree.mpr hc)))
  · intro b x hPlace
    obtain ⟨found, s', hOk, hFound⟩ := A.findChunkPtr_goes h.ids numBytes
      (roundedBytes_unit numBytes) (.inr ⟨h.bounded, hRoom⟩)
    rcases hFound with ⟨_, _, hNone⟩ |
      ⟨b', x', c, p, size, _, _, c', rfl, hSome, hc, rfl, hFits, _, _, hc', hUse, hPtr, rfl⟩
    · cases hPlace.symm.trans hNone
    · cases hPlace.symm.trans hSome
      exact ⟨c, c', s', hc, hOk, hc', hUse, hPtr, hFits⟩

theorem Filed.last_bin {L : Layout} {s : BFCAllocator}
    (h : Filed L recycled s) (x : ChunkHandle) :
    x ∈ s.bins 20 ↔ ∃ c, FreeChunk s x c ∧ 256 * 2 ^ 20 ≤ c.size := by
  rw [h.arranged.binned_iff]
  constructor
  · rintro ⟨c, hc, hBin⟩
    exact ⟨c, h.arranged.free_iff.mpr hc, binNumForSize_eq_last.mp hBin.symm⟩
  · rintro ⟨c, hc, hLarge⟩
    exact ⟨c, h.arranged.free_iff.mp hc, (binNumForSize_eq_last.mpr hLarge).symm⟩

def keepsApart (limit : Nat) (s : BFCAllocator) : Option (Nat × Nat) → Bool
  | some (p, asked) => 0 < asked && asked ≤ limit && 0 < p && p + asked < 2 ^ 64 &&
      s.regions.all fun r => p + asked ≤ r.ptr || r.ptr + r.memorySize ≤ p
  | none => true

def promised (limit : Nat) (s : BfcState) : BfcAction → Bool
  | .allocateRaw numBytes answers =>
    keepsApart limit s.allocator (grant s.allocator (roundedBytes numBytes) answers)
  | .deallocateRaw _ => true

theorem promised_of_test (limit : Nat) (s : BfcState) (action : BfcAction)
    (h : promised limit s action) : Promised limit s action := by
  cases action with
  | allocateRaw numBytes answers =>
    intro p asked hGrant
    have hApart : keepsApart limit s.allocator (some (p, asked)) :=
      (congrArg (keepsApart limit s.allocator) hGrant).symm.trans h
    simp only [keepsApart, and_eq_true, decide_eq_true_eq, all_eq_true,
      or_eq_true] at hApart
    exact ⟨hApart.1.1.1.1, hApart.1.1.1.2, hApart.1.1.2, hApart.1.2, hApart.2⟩
  | deallocateRaw ptr => trivial

def twoFreeChunks : List BfcAction :=
  [.allocateRaw 512 [some 65536], .allocateRaw 1024 [], .deallocateRaw 65536]

def overflows (s : BFCAllocator) (rounded : Nat) : Bool :=
  match searchFrom s rounded, s.findChunkPtr (binNumForSize rounded) rounded rounded with
  | .ok (some _), .error _ => true
  | _, _ => false

/-- The region is recorded as it was granted, it is large enough, and the search that follows finds
a chunk. -/
def RecordsGrant (s s' : BFCAllocator) (rounded : Nat) (answers : List (Option Nat)) : Prop :=
  ∃ p asked, grant s rounded answers = some (p, asked) ∧
    (∃ r ∈ s'.regions, r.ptr = p ∧ r.memorySize = asked) ∧ rounded ≤ asked ∧
    ∀ numBytes, ∃ ptr s'',
      s'.findChunkPtr (binNumForSize rounded) rounded numBytes = .ok (some ptr, s'')

def GrantsLast (s : BFCAllocator) (rounded : Nat) (answers : List (Option Nat)) : Prop :=
  firstGranted answers ∨ ∃ p asked, grant s rounded answers = some (p, asked) ∧ asked ≤ 2304

section Runs

variable {L : Layout} {recycled : List ChunkHandle} {s s' : BFCAllocator}
  {answers rest : List (Option Nat)}

theorem Arranged.AddsRegion.size_unique {p bytes asked : Nat} {y : ChunkHandle} {c : Chunk}
    (A : Arranged L recycled [] [] s) (hAdds : Arranged.AddsRegion s s' p bytes y c)
    (hGranted : Granted s p asked) (hAsked : 0 < asked) {r : AllocationRegion}
    (hr : r ∈ s'.regions) (hPtr : r.ptr = p) : r.memorySize = bytes := by
  rcases hAdds.regions r hr with ⟨_, hSize⟩ | ⟨r', hr', hSame, _⟩
  · exact hSize
  · have hPos := (A.placement.ordinary r' hr').nonEmpty
    have hApart := hGranted.2.2 r' hr'
    omega

theorem Filed.recordsGrant_iff (h : Filed L recycled s) {numBytes : Nat}
    (hPromise : ∀ p asked, grant s (roundedBytes numBytes) answers = some (p, asked) →
      0 < asked ∧ asked ≤ 2 ^ 39 ∧ Granted s p asked)
    (hRoom : s.chunks.length + 2 ≤ 2 ^ 31)
    (hOk : s.extend (roundedBytes numBytes) answers = .ok (true, rest, s')) :
    RecordsGrant s s' (roundedBytes numBytes) answers ↔
      GrantsLast s (roundedBytes numBytes) answers := by
  rcases h.arranged.extend h.units hPromise hOk with ⟨hFalse, _⟩ |
    ⟨_, L', recycled', p, asked, recorded, y, c, A', hGrant, hEnough, _, _, hExact, hLive, hAdds⟩
  · cases hFalse
  · obtain ⟨hAsked, _, hGranted⟩ := hPromise p asked hGrant
    have hLast : GrantsLast s (roundedBytes numBytes) answers ↔ recorded = asked := by
      rw [hExact]
      refine or_congr_right ⟨?_, fun hSmall => ⟨p, asked, hGrant, hSmall⟩⟩
      rintro ⟨p', asked', hGrant', hSmall⟩
      cases hGrant.symm.trans hGrant'
      exact hSmall
    rw [hLast]
    constructor
    · rintro ⟨p', asked', hGrant', ⟨r, hr, hPtr, hSize⟩, _⟩
      cases hGrant.symm.trans hGrant'
      exact (hAdds.size_unique h.arranged hGranted hAsked hr hPtr).symm.trans hSize
    · rintro rfl
      obtain ⟨_, _, h'⟩ := h.extend hPromise hOk
      refine ⟨p, recorded, hGrant, hAdds.region, hEnough, ?_⟩
      intro numBytes'
      have hGrows := hAdds.grows
      have hFree : FreeChunk s' y c := A'.free_iff.mpr ⟨hLive, hAdds.chunk, hAdds.free⟩
      have hFits : roundedBytes numBytes ≤ c.size := by
        rw [hAdds.size]
        exact hEnough
      obtain ⟨found, s'', hFind, hFound⟩ := A'.findChunkPtr_goes h'.ids numBytes'
        (roundedBytes_unit numBytes) (.inr ⟨h'.bounded, by omega⟩)
      rcases hFound with ⟨_, _, hNone⟩ | ⟨_, _, _, ptr, _, _, _, _, rfl, _⟩
      · obtain ⟨place, hSearch, hEmpty, _⟩ := A'.findChunk_best (roundedBytes numBytes)
        cases hSearch.symm.trans hNone
        exact absurd hFits (Nat.not_le.mpr (hEmpty rfl y c (A'.free_iff.mp hFree)))
      · exact ⟨ptr, s'', hFind⟩

end Runs

def hasExtended : Except Stop (Bool × List (Option Nat) × BFCAllocator) → Bool
  | .ok (extended, _, _) => extended
  | .error _ => false

theorem eq_ok_of_extended {result : Except Stop (Bool × List (Option Nat) × BFCAllocator)}
    (h : hasExtended result) : ∃ rest s', result = .ok (true, rest, s') := by
  cases result with
  | error stop => cases h
  | ok value =>
    obtain ⟨extended, rest, s'⟩ := value
    cases extended with
    | false => cases h
    | true => exact ⟨rest, s', rfl⟩

/-- A sub-allocator that has 2304 bytes left, and not the larger sizes that it is asked for. -/
def refusedSizes : List (Option Nat) :=
  [none, none, none, none, none, none, none, some 4194304]

end TensorFlowOnSpark.CommonRuntime
