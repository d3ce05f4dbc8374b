import TensorFlowOnSpark.CommonRuntime.BfcCalls

/-!
# Histories of the best-fit allocator

Calls come in any order, and the sub-allocator grants regions that do not overlap.
-/

namespace TensorFlowOnSpark.CommonRuntime

open Linked Transition Fallible BFCAllocator List

variable {L : Layout} {recycled : List ChunkHandle}

def Permitted (s : BfcState) : BfcAction → Prop
  | .allocateRaw numBytes answers =>
    numBytes ≤ 2 ^ 64 - 256 ∧ (∀ answer ∈ answers.tail, answer = none) ∧
      ∀ p curr increased bytes, answers.head? = some (some p) →
        s.allocator.regionRequest (roundedBytes numBytes) = .ok (some (curr, increased, bytes)) →
        Granted s.allocator p bytes
  | .deallocateRaw ptr => ∃ numBytes, (ptr, numBytes) ∈ s.live

/-- The integers of the code hold what the call needs: the doubled size of a region does not wrap,
and no index in the handle table of a region and no handle of a chunk is negative. -/
def Indexable (s : BfcState) : BfcAction → Prop
  | .allocateRaw numBytes answers =>
    (roundedBytes numBytes ≤ s.allocator.availableBytes → roundedBytes numBytes ≤ 2 ^ 63) ∧
      HandlesFit s.allocator 0 1 ∧
      ∀ p curr increased bytes, answers.head? = some (some p) →
        s.allocator.regionRequest (roundedBytes numBytes) = .ok (some (curr, increased, bytes)) →
        bytes ≤ 2 ^ 39 ∧ HandlesFit s.allocator bytes 2
  | .deallocateRaw _ => True

structure BfcSound (totalMemory : Nat) (L : Layout) (recycled : List ChunkHandle) (s : BfcState) :
    Prop where
  consistent : Consistent L recycled [] [] s.allocator
  budget : Budget totalMemory s.allocator
  accounts : Accounts s.allocator
  live : s.live.Perm ((usage s.allocator.chunks).map fun u => (u.1, u.2.2))

variable {s : BFCAllocator}

section

variable (S : Consistent L recycled [] [] s)

include S

theorem Consistent.usage_disjoint :
    (usage s.chunks).Pairwise fun u v => u.1 + u.2.1 ≤ v.1 ∨ v.1 + v.2.1 ≤ u.1 := by
  rw [usage, pairwise_map, pairwise_filter, pairwise_iff_getElem]
  intro i j hi hj hij hUse hUse'
  have hci : s.chunks[i]? = some s.chunks[i] := getElem?_eq_getElem hi
  have hcj : s.chunks[j]? = some s.chunks[j] := getElem?_eq_getElem hj
  exact S.geometry.disjoint (S.live_of_inUse hci hUse) (S.live_of_inUse hcj hUse')
    (Nat.ne_of_lt hij) (cellsOf_eq hci) (cellsOf_eq hcj)

variable {u : Nat × Nat × Nat}

theorem Consistent.usage_size_pos
    (hu : u ∈ usage s.chunks) : 0 < u.2.1 := by
  obtain ⟨h, c, hc, hUse, rfl⟩ := mem_usage.mp hu
  exact S.size_pos (S.live_of_inUse hc hUse) hc

theorem Consistent.allocatedSize_eq
    (hu : u ∈ usage s.chunks) : s.allocatedSize u.1 = .ok u.2.1 := by
  obtain ⟨h, c, hc, hUse, rfl⟩ := mem_usage.mp hu
  obtain ⟨r, hr, hh⟩ := S.live_of_inUse hc hUse
  have hHandle : RegionManager.getHandle c.ptr s.regions = .ok (some h) :=
    S.geometry.getHandle hr hh (cellsOf_eq hc)
  rw [allocatedSize, hHandle, ok_bind]
  simp only [chunkFromHandle_eq hc]
  rfl

end

variable {totalMemory : Nat}

theorem bfcSound_init (hTotal : totalMemory ≤ 2 ^ 64 - 256) (allowGrowth : Bool) :
    BfcSound totalMemory (fun _ => []) [] (BfcState.init totalMemory allowGrowth) where
  consistent :=
    { geometry :=
        { proper := nofun
          sorted := .nil
          tiles := nofun
          indexed := nofun
          freeList := rfl
          nodup := .nil
          apart := nofun
          covered := nofun }
      marks :=
        { idle := nofun
          filed := nofun
          unfiled := nofun
          binned := by simp [BfcState.init, init]
          sorted := fun _ => .nil
          coalesced := by simp [BfcState.init, init] } }
  budget := by
    refine ⟨rfl, rfl, Nat.dvd_zero _, Nat.zero_le _, by omega, ?_⟩
    intro hSome
    change 256 ≤ totalMemory - 0 at hSome
    cases allowGrowth with
    | true =>
      obtain ⟨hLow, hUnit, _⟩ :=
        roundedBytes_spec (show min totalMemory 1048576 ≤ 2 ^ 64 - 256 by omega)
      change 0 < roundedBytes (min totalMemory 1048576) ∧ _
      exact ⟨by omega, hUnit⟩
    | false =>
      obtain ⟨hLow, hUnit, _⟩ := roundedBytes_spec hTotal
      change 0 < roundedBytes totalMemory ∧ _
      exact ⟨by omega, hUnit⟩
  accounts := ⟨rfl, Int.one_pos, nofun⟩
  live := .nil

theorem live_filter {live : List (Nat × Nat)} {entries : List (Nat × Nat × Nat)}
    {p size requested : Nat}
    (hLive : live.Perm (((p, size, requested) :: entries).map fun u => (u.1, u.2.2)))
    (hOther : ∀ u ∈ entries, u.1 ≠ p) :
    (live.filter fun a => a.1 ≠ p).Perm (entries.map fun u => (u.1, u.2.2)) := by
  refine (hLive.filter _).trans ?_
  rw [map_cons, filter_cons_of_neg (by simp), filter_eq_self.mpr]
  intro a ha
  obtain ⟨u, hu, rfl⟩ := mem_map.mp ha
  exact decide_eq_true (hOther u hu)

theorem bfcSound_step {s : BfcState} {action : BfcAction} (h : BfcSound totalMemory L recycled s)
    (hPermitted : Permitted s action) (hIndexable : Indexable s action) :
    s.step action = .blocked ∨
      ∃ L' recycled' s', s.step action = .next s' ∧ BfcSound totalMemory L' recycled' s' := by
  cases action with
  | allocateRaw numBytes answers =>
    obtain ⟨hBytes, hNone, hGranted⟩ := hPermitted
    obtain ⟨hDoubles, hFit, hIndexed⟩ := hIndexable
    have hAddable : Addable s.allocator (roundedBytes numBytes) answers :=
      fun p curr increased bytes hHead hRequest =>
        ⟨hGranted p curr increased bytes hHead hRequest,
          hIndexed p curr increased bytes hHead hRequest⟩
    rw [BfcState.step]
    rcases h.consistent.allocateRaw h.budget h.accounts hFit hBytes hDoubles hNone hAddable with
      hStop | ⟨ptr, rest, L', recycled', s', hAllocate, S', B', A', hUsage⟩
    · rw [hStop]
      exact .inl rfl
    · rw [hAllocate]
      cases rest with
      | cons answer rest =>
        left
        cases ptr <;> rfl
      | nil =>
        right
        cases ptr with
        | none =>
          refine ⟨L', recycled', _, rfl, S', B', A', ?_⟩
          rw [show usage s'.chunks = usage s.allocator.chunks from hUsage]
          exact h.live
        | some p =>
          obtain ⟨size, hPerm⟩ := hUsage
          refine ⟨L', recycled', _, rfl, S', B', A', ?_⟩
          have hMap := hPerm.map fun u : Nat × Nat × Nat => (u.1, u.2.2)
          exact (h.live.cons (p, numBytes)).trans hMap.symm
  | deallocateRaw ptr =>
    obtain ⟨numBytes, hMem⟩ := hPermitted
    obtain ⟨u, hu, hEq⟩ := mem_map.mp (h.live.mem_iff.mp hMem)
    obtain ⟨p, size, requested⟩ := u
    obtain ⟨rfl, rfl⟩ : p = ptr ∧ requested = numBytes := by simpa using hEq
    obtain ⟨L', recycled', s', hFree, S', B', A', hUsage⟩ :=
      h.consistent.deallocateRaw h.budget h.accounts hu
    right
    rw [BfcState.step, hFree]
    refine ⟨L', recycled', _, rfl, S', B', A', ?_⟩
    refine live_filter (h.live.trans (hUsage.map _)) fun v hv hEq => ?_
    have hApart := (hUsage.pairwise_iff fun h => h.symm).mp h.consistent.usage_disjoint
    have hSide := (pairwise_cons.mp hApart).1 v hv
    have hPos := h.consistent.usage_size_pos hu
    have hPos' := S'.usage_size_pos hv
    omega

theorem bfcSound_of_reach {allowGrowth : Bool} {s : BfcState} {P : BfcState → BfcAction → Prop}
    (hTotal : totalMemory ≤ 2 ^ 64 - 256)
    (hCalls : ∀ L recycled s action, BfcSound totalMemory L recycled s → P s action →
      Permitted s action ∧ Indexable s action)
    (hRun : Reach BfcState.step P (BfcState.init totalMemory allowGrowth) s) :
    ∃ L recycled, BfcSound totalMemory L recycled s := by
  refine hRun.invariant (fun s => ∃ L recycled, BfcSound totalMemory L recycled s)
    ⟨_, _, bfcSound_init hTotal allowGrowth⟩ ?_
  rintro s action s' ⟨L, recycled, hSound⟩ hCall hNext
  obtain ⟨hPermitted, hIndexable⟩ := hCalls L recycled s action hSound hCall
  rcases bfcSound_step hSound hPermitted hIndexable with
    hBlocked | ⟨L', recycled', s'', hNext', hSound'⟩
  · cases hBlocked.symm.trans hNext
  · cases hNext'.symm.trans hNext
    exact ⟨L', recycled', hSound'⟩

/-- Regions, chunks, bins and live allocations fit together. -/
structure Intact (L : Layout) (recycled : List ChunkHandle) (s : BfcState) : Prop where
  tiles : ∀ r ∈ s.allocator.regions,
    Segment 256 (cellsOf s.allocator.chunks) none r.ptr (L r.ptr) none (r.ptr + r.memorySize)
  handles : ∀ r ∈ s.allocator.regions, ∀ i < r.memorySize / 256, ∀ h, r.handles i = some h ↔
    h ∈ L r.ptr ∧ ∃ c, s.allocator.chunks[h]? = some c ∧ c.ptr = r.ptr + 256 * i
  coalesced : ∀ x y c, Live L s.allocator.regions x → s.allocator.chunks[x]? = some c →
    c.next = some y → Busy s.allocator.chunks x ∨ Busy s.allocator.chunks y
  binned : ∀ b h, h ∈ s.allocator.bins b ↔ Live L s.allocator.regions h ∧
    ∃ c, s.allocator.chunks[h]? = some c ∧ c.inUse = false ∧ b = binNumForSize c.size
  once : ∀ b, (s.allocator.bins b).Nodup
  freeList : FreeList (cellsOf s.allocator.chunks) s.allocator.freeChunksList recycled
  unreachable : ∀ h ∈ recycled, ¬Live L s.allocator.regions h ∧ ∀ b, h ∉ s.allocator.bins b
  bytes : s.allocator.stats.bytesInUse =
    (((s.allocator.chunks.filter Chunk.inUse).map Chunk.size).sum : Nat)
  enough : ∀ a ∈ s.live, ∃ size, s.allocator.allocatedSize a.1 = .ok size ∧ a.2 ≤ size
  disjoint : s.live.Pairwise fun a b => ∀ size size', s.allocator.allocatedSize a.1 = .ok size →
    s.allocator.allocatedSize b.1 = .ok size' → a.1 + size ≤ b.1 ∨ b.1 + size' ≤ a.1

theorem BfcSound.intact {s : BfcState} (h : BfcSound totalMemory L recycled s) :
    Intact L recycled s where
  tiles := h.consistent.geometry.tiles
  handles r hr i hi x := by
    rw [h.consistent.geometry.indexed r hr i hi x]
    refine and_congr_right fun _ => ?_
    simp only [cellsOf, Option.map_eq_some_iff]
    constructor
    · rintro ⟨cell, ⟨c, hc, rfl⟩, hStart⟩
      exact ⟨c, hc, hStart⟩
    · rintro ⟨c, hc, hPtr⟩
      exact ⟨c.cell, ⟨c, hc, rfl⟩, hPtr⟩
  coalesced x y c hLive hc hNext :=
    h.consistent.marks.coalesced x y c hLive hc hNext not_mem_nil not_mem_nil
  binned b x := by
    constructor
    · intro hx
      obtain ⟨c, hc, hBin⟩ := (h.consistent.marks.binned b x).mp hx
      have hLive := h.consistent.live_of_binned hx
      have hFree := h.consistent.free_of_binned hx hc
      have hSome := h.consistent.free_binNum hLive not_mem_nil hc hFree
      exact ⟨hLive, c, hc, hFree, Option.some.inj (hBin.symm.trans hSome)⟩
    · rintro ⟨hLive, c, hc, hFree, rfl⟩
      exact (h.consistent.marks.binned _ x).mpr
        ⟨c, hc, h.consistent.free_binNum hLive not_mem_nil hc hFree⟩
  once b := by
    refine (h.consistent.marks.sorted b).imp_of_mem ?_
    rintro x y hx _ hLess rfl
    obtain ⟨c, hc, _⟩ := (h.consistent.marks.binned b x).mp hx
    rw [chunkLess_iff hc hc] at hLess
    omega
  freeList := h.consistent.geometry.freeList
  unreachable x hx := ⟨h.consistent.geometry.apart x hx, fun _ hMem =>
    h.consistent.geometry.apart x hx (h.consistent.live_of_binned hMem)⟩
  bytes := by
    rw [h.accounts.bytes, usage, map_map]
    rfl
  enough a ha := by
    obtain ⟨u, hu, rfl⟩ := mem_map.mp (h.live.mem_iff.mp ha)
    exact ⟨u.2.1, h.consistent.allocatedSize_eq hu, h.accounts.enough u hu⟩
  disjoint := by
    refine (h.live.pairwise_iff ?_).mpr ?_
    · exact fun hab size size' ha hb => (hab size' size hb ha).symm
    · rw [pairwise_map]
      refine h.consistent.usage_disjoint.imp_of_mem ?_
      intro u v hu hv hApart size size' hSize hSize'
      cases (h.consistent.allocatedSize_eq hu).symm.trans hSize
      cases (h.consistent.allocatedSize_eq hv).symm.trans hSize'
      exact hApart

theorem BfcSound.not_failed {s : BfcState} (h : BfcSound totalMemory L recycled s)
    {action : BfcAction} (hPermitted : Permitted s action) (hIndexable : Indexable s action)
    (check : Check) : s.step action ≠ .failed check := by
  intro hFailed
  rcases bfcSound_step h hPermitted hIndexable with hBlocked | ⟨_, _, s', hNext, _⟩
  · cases hBlocked.symm.trans hFailed
  · cases hNext.symm.trans hFailed

theorem regionRequest_le {s : BFCAllocator} {rounded curr bytes : Nat} {increased : Bool}
    (hRequest : s.regionRequest rounded = .ok (some (curr, increased, bytes))) :
    bytes ≤ s.availableBytes := by
  rw [regionRequest] at hRequest
  split at hRequest
  · cases hRequest
  · obtain ⟨_, _, hEq⟩ := bind_eq_ok.mp hRequest
    cases hEq
    exact Nat.min_le_right _ _

theorem BfcSound.indexable {s : BfcState} (h : BfcSound totalMemory L recycled s)
    (hTotal : totalMemory < 2 ^ 39 + 256) (action : BfcAction) : Indexable s action := by
  cases action with
  | deallocateRaw ptr => trivial
  | allocateRaw numBytes answers =>
    have hWithin := h.budget.within
    have hLeft := h.budget.availableBytes_eq
    obtain ⟨k, hk⟩ := h.budget.aligned
    refine ⟨fun _ => by omega, .inl (by omega), ?_⟩
    intro p curr increased bytes _ hRequest
    have hAvailable := regionRequest_le hRequest
    exact ⟨by omega, .inl (by omega)⟩

/-- With at most 512 GiB the integers of the code are large enough for every call. -/
theorem small_memory_intact {totalMemory : Nat} {allowGrowth : Bool} {s : BfcState}
    (hTotal : totalMemory < 2 ^ 39 + 256)
    (hRun : Reach BfcState.step Permitted (BfcState.init totalMemory allowGrowth) s) :
    (∃ L recycled, Intact L recycled s) ∧
      ∀ action, Permitted s action → ∀ check, s.step action ≠ .failed check := by
  obtain ⟨L, recycled, hSound⟩ := bfcSound_of_reach (by omega)
    (fun _ _ _ action hSound hPermitted => ⟨hPermitted, hSound.indexable hTotal action⟩) hRun
  exact ⟨⟨L, recycled, hSound.intact⟩, fun action hPermitted =>
    hSound.not_failed hPermitted (hSound.indexable hTotal action)⟩

def permitted (s : BfcState) : BfcAction → Bool
  | .allocateRaw numBytes answers =>
    numBytes ≤ 2 ^ 64 - 256 && answers.tail.all (·.isNone) &&
      match answers.head?, s.allocator.regionRequest (roundedBytes numBytes) with
      | some (some p), .ok (some (_, _, bytes)) => 0 < p && p + bytes < 2 ^ 64 &&
          s.allocator.regions.all fun r => p + bytes ≤ r.ptr || r.ptr + r.memorySize ≤ p
      | _, _ => true
  | .deallocateRaw ptr => s.live.any fun a => a.1 = ptr

theorem permitted_of_test (s : BfcState) (action : BfcAction) (h : permitted s action) :
    Permitted s action := by
  cases action with
  | allocateRaw numBytes answers =>
    simp only [permitted, Bool.and_eq_true, decide_eq_true_eq, all_eq_true] at h
    obtain ⟨⟨hBytes, hNone⟩, hGranted⟩ := h
    refine ⟨hBytes, fun answer ha => Option.isNone_iff_eq_none.mp (hNone answer ha), ?_⟩
    intro p curr increased bytes hHead hRequest
    rw [hHead, hRequest] at hGranted
    simp only [Bool.and_eq_true, decide_eq_true_eq, all_eq_true, Bool.or_eq_true] at hGranted
    exact ⟨hGranted.1.1, hGranted.1.2, hGranted.2⟩
  | deallocateRaw ptr =>
    obtain ⟨a, ha, hEq⟩ := any_eq_true.mp h
    refine ⟨a.2, ?_⟩
    rw [← of_decide_eq_true hEq]
    exact ha

def indexable (s : BfcState) : BfcAction → Bool
  | .allocateRaw numBytes answers =>
    decide (roundedBytes numBytes ≤ 2 ^ 63 ∧ HandlesFit s.allocator 0 1) &&
      match answers.head?, s.allocator.regionRequest (roundedBytes numBytes) with
      | some (some _), .ok (some (_, _, bytes)) =>
        decide (bytes ≤ 2 ^ 39 ∧ HandlesFit s.allocator bytes 2)
      | _, _ => true
  | .deallocateRaw _ => true

theorem indexable_of_test (s : BfcState) (action : BfcAction) (h : indexable s action) :
    Indexable s action := by
  cases action with
  | allocateRaw numBytes answers =>
    rw [indexable, Bool.and_eq_true] at h
    obtain ⟨hTest, hGranted⟩ := h
    obtain ⟨hBytes, hFit⟩ := of_decide_eq_true hTest
    refine ⟨fun _ => hBytes, hFit, ?_⟩
    intro p curr increased bytes hHead hRequest
    rw [hHead, hRequest] at hGranted
    exact of_decide_eq_true hGranted
  | deallocateRaw ptr => trivial

/-- Of two regions one is split, and a chunk in it is given back. -/
def splitAndFree : List BfcAction :=
  [.allocateRaw 300 [some 65536], .allocateRaw (2 ^ 20) [some (2 ^ 22)], .allocateRaw 1000 [],
    .deallocateRaw 65536]

end TensorFlowOnSpark.CommonRuntime
