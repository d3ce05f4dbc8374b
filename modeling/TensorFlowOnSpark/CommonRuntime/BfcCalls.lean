import TensorFlowOnSpark.CommonRuntime.BfcSurgery
import TensorFlowOnSpark.Lib.Fallible
import Mathlib.Algebra.BigOperators.Ring.List
import Mathlib.Algebra.Order.BigOperators.Group.List
import Mathlib.Algebra.Order.Group.Nat
import Mathlib.Algebra.Ring.Nat
import Mathlib.Data.List.Perm.Subperm

/-!
# Taking and giving back a chunk

`FindChunkPtr` holds a free chunk, splits it if it is large and marks it as in use.
-/

namespace TensorFlowOnSpark.CommonRuntime

open Linked BFCAllocator List

variable {L : Layout} {recycled held loose : List ChunkHandle} {s : BFCAllocator}
  {h x y z : ChunkHandle} {c c' : Chunk} {chunks : List Chunk}
  {regions : List AllocationRegion} {bins : BinNum → FreeChunkSet}

/-- A held chunk is taken into use. -/
theorem Marks.use (M : Marks L recycled [h] loose regions chunks bins)
    (hLoose : ∀ z ∈ loose, z = h) (hApart : h ∉ recycled) (hc : chunks[h]? = some c)
    (hCell : c'.cell = c.cell) (hUse : c'.inUse) (hNone : c'.binNum = none)
    (hOld : c.binNum = none) : Marks L recycled [] [] regions (chunks.set h c') bins := by
  have hSet : (chunks.set h c')[h]? = some c' := getElem?_set_self hc
  have hSelf : Busy (chunks.set h c') h := ⟨c', hSet, hUse⟩
  have hBusy {z : ChunkHandle} (hz : Busy chunks z) : Busy (chunks.set h c') z := by
    by_cases hEq : z = h
    · rw [hEq]
      exact hSelf
    · rw [Busy, getElem?_set_ne hEq]
      exact hz
  refine ⟨?_, ?_, by simp, ?_, M.sorted_set hc hCell, ?_⟩
  · intro z hz
    rw [getElem?_set_ne (ne_of_mem_of_not_mem hz hApart)]
    exact M.idle z hz
  · intro z d hz hd
    by_cases hEq : z = h
    · subst hEq
      cases hSet.symm.trans hd
      rw [hNone, if_pos (.inl hUse)]
    · rw [getElem?_set_ne hEq] at hd
      have hFiled := M.filed z d hz hd
      simp only [mem_singleton, hEq, not_mem_nil] at hFiled ⊢
      exact hFiled
  · intro b z
    rw [M.binned]
    by_cases hEq : z = h
    · subst hEq
      rw [hSet, hc]
      simp [hNone, hOld]
    · rw [getElem?_set_ne hEq]
  · intro z n d hz hd hNext _ _
    by_cases hEq : z = h
    · rw [hEq]
      exact .inl hSelf
    · by_cases hEq' : n = h
      · rw [hEq']
        exact .inr hSelf
      · rw [getElem?_set_ne hEq] at hd
        exact (M.coalesced z n d hz hd hNext (fun hMem => hEq (hLoose z hMem))
          fun hMem => hEq' (hLoose n hMem)).imp hBusy hBusy

theorem Marks.release (M : Marks L recycled [] [] regions chunks bins) (hLive : Live L regions h)
    (hApart : h ∉ recycled) (hc : chunks[h]? = some c) (hCell : c'.cell = c.cell)
    (hFree : c'.inUse = false) (hNone : c'.binNum = none)
    (hOld : c.binNum = none) : Marks L recycled [h] [h] regions (chunks.set h c') bins := by
  have hSet : (chunks.set h c')[h]? = some c' := getElem?_set_self hc
  have hBusy {z : ChunkHandle} (hEq : z ≠ h) (hz : Busy chunks z) : Busy (chunks.set h c') z := by
    rw [Busy, getElem?_set_ne hEq]
    exact hz
  refine ⟨?_, ?_, ?_, ?_, M.sorted_set hc hCell, ?_⟩
  · intro z hz
    rw [getElem?_set_ne (ne_of_mem_of_not_mem hz hApart)]
    exact M.idle z hz
  · intro z d hz hd
    by_cases hEq : z = h
    · subst hEq
      cases hSet.symm.trans hd
      rw [hNone, if_pos (.inr mem_cons_self)]
    · rw [getElem?_set_ne hEq] at hd
      have hFiled := M.filed z d hz hd
      simp only [mem_singleton, hEq, not_mem_nil] at hFiled ⊢
      exact hFiled
  · intro z hz
    obtain rfl := mem_singleton.mp hz
    exact ⟨hLive, c', hSet, hFree⟩
  · intro b z
    rw [M.binned]
    by_cases hEq : z = h
    · subst hEq
      rw [hSet, hc]
      simp [hNone, hOld]
    · rw [getElem?_set_ne hEq]
  · intro z n d hz hd hNext hzh hnh
    rw [mem_singleton] at hzh hnh
    rw [getElem?_set_ne hzh] at hd
    exact (M.coalesced z n d hz hd hNext not_mem_nil not_mem_nil).imp (hBusy hzh)
      (hBusy hnh)

theorem Consistent.tighten (S : Consistent L recycled held [h] s) (hLive : Live L s.regions h)
    (hc : s.chunks[h]? = some c) (hNext : ∀ n, c.next = some n → Busy s.chunks n)
    (hPrev : ∀ p, c.prev = some p → Busy s.chunks p) : Consistent L recycled held [] s := by
  refine ⟨S.geometry, { S.marks with coalesced := ?_ }⟩
  intro z n d hz hd hn _ _
  by_cases hEq : z = h
  · subst hEq
    cases hc.symm.trans hd
    exact .inr (hNext n hn)
  · by_cases hEq' : n = h
    · subst hEq'
      obtain ⟨_, _, e, he, hPrev', _⟩ := S.next_ne hz hd hn
      cases hc.symm.trans he
      exact .inl (hPrev z hPrev')
    · exact S.marks.coalesced z n d hz hd hn (by simpa using hEq) (by simpa using hEq')

theorem Consistent.next_next_ne (S : Consistent L recycled held loose s)
    (hLive : Live L s.regions x) {cx cy : Chunk} (hcx : s.chunks[x]? = some cx)
    (hcy : s.chunks[y]? = some cy) (hNext : cx.next = some y) (hNext' : cy.next = some z) :
    z ≠ x := by
  obtain ⟨_, hLive', d, hd, _, hStart⟩ := S.next_ne hLive hcx hNext
  cases hcy.symm.trans hd
  obtain ⟨_, _, e, he, _, hStart'⟩ := S.next_ne hLive' hcy hNext'
  have hPos := S.size_pos hLive' hcy
  rintro rfl
  cases hcx.symm.trans he
  omega

theorem Consistent.coalesceNext (S : Consistent L recycled [h] [h] s) (hc : s.chunks[h]? = some c) :
    ∃ L' recycled' s' c', s.coalesceNext h = .ok s' ∧ Consistent L' recycled' [h] [h] s' ∧
      Frame s s' ∧ s'.chunks[h]? = some c' ∧ ∀ n, c'.next = some n → Busy s'.chunks n := by
  have hLive := (S.marks.unfiled h mem_cons_self).1
  rw [BFCAllocator.coalesceNext]
  simp only [chunkFromHandle_eq hc, bind, Except.bind]
  cases hNext : c.next with
  | none =>
    refine ⟨L, recycled, s, c, rfl, S, .refl s, hc, ?_⟩
    intro n hn
    cases hNext.symm.trans hn
  | some n =>
    obtain ⟨hne, hnLive, d, hd, _⟩ := S.next_ne hLive hc hNext
    simp only [chunkFromHandle_eq hd]
    split
    · rename_i hUse
      refine ⟨L, recycled, s, c, rfl, S, .refl s, hc, ?_⟩
      intro m hm
      cases hNext.symm.trans hm
      exact ⟨d, hd, hUse⟩
    · rename_i hUse
      have hFree : d.inUse = false := Bool.not_eq_true _ ▸ hUse
      obtain ⟨s₁, hRemove, S₁, hFrame, hChunks, hBusy₁⟩ :=
        S.removeFreeChunk hnLive (by simpa using hne) hd hFree
      have hc₁ : s₁.chunks[h]? = some c := by rw [hChunks, getElem?_set_ne (Ne.symm hne), hc]
      have hd₁ : s₁.chunks[n]? = some { d with binNum := none } := by
        rw [hChunks, getElem?_set_self hd]
      obtain ⟨L', s', hMerge, S', hFrame', hc', hBusy⟩ := S₁.merge (x := h) (y := n)
        (by simp [or_comm]) (by simp) hc₁ hd₁ hNext
      refine ⟨L', _, s', _, ?_, S', hFrame.trans hFrame', hc', ?_⟩
      · rw [hRemove]
        exact hMerge
      · intro m hm
        rw [hBusy, hBusy₁]
        have hmh : m ≠ h := S.next_next_ne hLive hc hd hNext hm
        rcases S.marks.coalesced n m d hnLive hd hm (by simpa using hne) (by simpa using hmh)
          with hB | hB
        · exact absurd hB (not_busy hd hFree)
        · exact hB

theorem Consistent.coalescePrev (S : Consistent L recycled [h] [h] s)
    (hc : s.chunks[h]? = some c) (hNext : ∀ n, c.next = some n → Busy s.chunks n) :
    ∃ q L' recycled' s', s.coalescePrev h = .ok (q, s') ∧ Consistent L' recycled' [q] [] s' ∧
      Frame s s' := by
  have hLive := (S.marks.unfiled h mem_cons_self).1
  rw [BFCAllocator.coalescePrev]
  simp only [chunkFromHandle_eq hc, bind, Except.bind]
  cases hPrev : c.prev with
  | none =>
    refine ⟨h, L, recycled, s, rfl, S.tighten hLive hc hNext ?_, .refl s⟩
    intro p hp
    cases hPrev.symm.trans hp
  | some p =>
    obtain ⟨hne, hpLive, d, hd, hdNext, _⟩ := S.prev_ne hLive hc hPrev
    simp only [chunkFromHandle_eq hd]
    split
    · rename_i hUse
      refine ⟨h, L, recycled, s, rfl, S.tighten hLive hc hNext ?_, .refl s⟩
      intro q hq
      cases hPrev.symm.trans hq
      exact ⟨d, hd, hUse⟩
    · rename_i hUse
      have hFree : d.inUse = false := Bool.not_eq_true _ ▸ hUse
      obtain ⟨s₁, hRemove, S₁, hFrame, hChunks, hBusy₁⟩ :=
        S.removeFreeChunk hpLive (by simpa using hne) hd hFree
      have hc₁ : s₁.chunks[h]? = some c := by rw [hChunks, getElem?_set_ne (Ne.symm hne), hc]
      have hd₁ : s₁.chunks[p]? = some { d with binNum := none } := by
        rw [hChunks, getElem?_set_self hd]
      obtain ⟨L', s', hMerge, S', hFrame', hd', hBusy⟩ := S₁.merge (x := p) (y := h)
        (by simp) (by simp) hd₁ hc₁ hdNext
      have hpLive' := (S'.marks.unfiled p mem_cons_self).1
      refine ⟨p, L', _, s', ?_, S'.tighten hpLive' hd' ?_ ?_, hFrame.trans hFrame'⟩
      · rw [hRemove]
        simp only [hMerge]
      · intro n hn
        rw [hBusy, hBusy₁]
        exact hNext n hn
      · intro q hq
        rw [hBusy, hBusy₁]
        obtain ⟨_, hqLive, e, he, heNext, _⟩ := S.prev_ne hpLive hd hq
        have hqh : q ≠ h := Ne.symm (S.next_next_ne hqLive he hd heNext hdNext)
        rcases S.marks.coalesced q p e hqLive he heNext (by simpa using hqh) (by simpa using hne)
          with hB | hB
        · exact hB
        · exact absurd hB (not_busy hd hFree)

theorem Consistent.freeAndMaybeCoalesce (S : Consistent L recycled [] [] s)
    (hLive : Live L s.regions h) (hc : s.chunks[h]? = some c) (hUse : c.inUse) :
    ∃ L' recycled' s', s.freeAndMaybeCoalesce h = .ok s' ∧ Consistent L' recycled' [] [] s' ∧
      Frame
        { s.setChunk h { c with allocationId := -1 } with
          stats := { s.stats with bytesInUse := s.stats.bytesInUse - c.size } } s' := by
  have hNone : c.binNum = none := by rw [S.marks.filed h c hLive hc, if_pos (.inl hUse)]
  have hc₁ : (s.chunks.set h { c with allocationId := -1 })[h]? =
      some { c with allocationId := -1 } := getElem?_set_self hc
  let s₁ : BFCAllocator :=
    { s.setChunk h { c with allocationId := -1 } with
      stats := { s.stats with bytesInUse := s.stats.bytesInUse - c.size } }
  have hCells : cellsOf (s.chunks.set h { c with allocationId := -1 }) = cellsOf s.chunks :=
    cellsOf_set hc rfl
  have S₁ : Consistent L recycled [h] [h] s₁ := by
    refine ⟨?_, S.marks.release hLive (S.not_recycled hLive) hc rfl rfl hNone hNone⟩
    change Geometry L recycled s.regions (cellsOf (s.chunks.set h _)) s.freeChunksList
    rw [hCells]
    exact S.geometry
  obtain ⟨L₂, recycled₂, s₂, c₂, hFirst, S₂, hFrame₂, hc₂, hNext⟩ := S₁.coalesceNext hc₁
  obtain ⟨q, L₃, recycled₃, s₃, hSecond, S₃, hFrame₃⟩ := S₂.coalescePrev hc₂ hNext
  obtain ⟨s', hInsert, S', hFrame', _⟩ := S₃.insertFreeChunk not_mem_nil
  refine ⟨L₃, recycled₃, s', ?_, S', (hFrame₂.trans hFrame₃).trans hFrame'⟩
  have hGuard : (c.inUse && c.binNum.isNone) := by simp [hUse, hNone]
  rw [BFCAllocator.freeAndMaybeCoalesce]
  simp only [chunkFromHandle_eq hc, bind, Except.bind, hGuard]
  change Except.bind (s₁.coalesceNext h) _ = _
  rw [hFirst]
  simp only [Except.bind, hSecond]
  exact hInsert

open Transition Fallible Nat

structure Budget (totalMemory : Nat) (s : BFCAllocator) : Prop where
  limit : s.memoryLimit = totalMemory
  sizes : (s.regions.map AllocationRegion.memorySize).sum = s.totalRegionAllocatedBytes
  aligned : 256 ∣ s.totalRegionAllocatedBytes
  within : s.totalRegionAllocatedBytes ≤ totalMemory
  small : totalMemory < 2 ^ 64
  growth : 256 ≤ totalMemory - s.totalRegionAllocatedBytes →
    0 < s.currRegionAllocationBytes ∧ 256 ∣ s.currRegionAllocationBytes

/-- The handles of `records` more chunks fit in an `int`: the regions, with `bytes` more, are too
small for so many chunks, or there are few records yet. -/
def HandlesFit (s : BFCAllocator) (bytes records : Nat) : Prop :=
  s.totalRegionAllocatedBytes + bytes ≤ 2 ^ 39 ∨ s.chunks.length + records ≤ 2 ^ 31

instance (s : BFCAllocator) (bytes records : Nat) : Decidable (HandlesFit s bytes records) :=
  inferInstanceAs (Decidable (_ ∨ _))

structure Accounts (s : BFCAllocator) : Prop where
  bytes : s.stats.bytesInUse = (((usage s.chunks).map fun u => u.2.1).sum : Nat)
  ids : 0 < s.nextAllocationId
  enough : ∀ u ∈ usage s.chunks, u.2.2 ≤ u.2.1

variable {L : Layout} {recycled held loose : List ChunkHandle} {s s' : BFCAllocator}
  {h : ChunkHandle} {c : Chunk} {totalMemory : Nat}

theorem SameMemory.budget (h : SameMemory s s') (B : Budget totalMemory s) :
    Budget totalMemory s' := by
  refine ⟨h.limit.trans B.limit, ?_, ?_, ?_, B.small, ?_⟩
  · rw [h.sizes, h.total, B.sizes]
  · rw [h.total]
    exact B.aligned
  · rw [h.total]
    exact B.within
  · rw [h.total, h.curr]
    exact B.growth

section Room

theorem Consistent.length_le (S : Consistent L [] held loose s) :
    s.chunks.length ≤ (s.regions.map fun r => (L r.ptr).length).sum := by
  have hSubset : range s.chunks.length ⊆ s.regions.flatMap fun r => L r.ptr := by
    intro h hh
    obtain ⟨c, hc⟩ : ∃ c, s.chunks[h]? = some c :=
      ⟨_, getElem?_eq_getElem (mem_range.mp hh)⟩
    rcases S.geometry.covered h c.cell (cellsOf_eq hc) with hNone | ⟨r, hr, hLive⟩
    · cases hNone
    · exact mem_flatMap.mpr ⟨r, hr, hLive⟩
  have hLength := (Nodup.subperm nodup_range hSubset).length_le
  rwa [length_range, length_flatMap] at hLength

theorem Consistent.room (S : Consistent L recycled held loose s) (B : Budget totalMemory s)
    {bytes : Nat} (hPos : 0 < bytes) (hFit : HandlesFit s bytes 2) :
    recycled = [] → s.chunks.length < 2 ^ 31 := by
  rintro rfl
  rcases hFit with hFit | hFit
  · have hLength := S.length_le
    have hSum : (s.regions.map fun r => (L r.ptr).length * 256).sum ≤
        (s.regions.map AllocationRegion.memorySize).sum := by
      refine sum_le_sum fun r hr => ?_
      have hTiles := (S.geometry.tiles r hr).length
      omega
    rw [sum_map_mul_right, B.sizes] at hSum
    omega
  · omega

theorem Consistent.room_split (S : Consistent L recycled held loose s) (B : Budget totalMemory s)
    (hFit : HandlesFit s 0 1) (hLive : Live L s.regions h) (hc : s.chunks[h]? = some c)
    (hSize : 512 ≤ c.size) : recycled = [] → s.chunks.length < 2 ^ 31 := by
  rintro rfl
  rcases hFit with hFit | hFit
  · have hLength := S.length_le
    obtain ⟨r, hr, hh⟩ := hLive
    have hSum : (s.regions.map fun r => (L r.ptr).length * 256).sum <
        (s.regions.map AllocationRegion.memorySize).sum := by
      refine sum_lt_sum _ _ (fun r hr => ?_) ⟨r, hr, ?_⟩
      · have hTiles := (S.geometry.tiles r hr).length
        omega
      · have hTiles := (S.geometry.tiles r hr).length_lt hh (cellsOf_eq hc) hSize
        omega
    rw [sum_map_mul_right, B.sizes] at hSum
    omega
  · omega

end Room

section Find

variable {rounded numBytes : Nat}

theorem findInBin_ok (rounded : Nat) {l : FreeChunkSet}
    (hChunks : ∀ h ∈ l, ∃ c, s.chunks[h]? = some c) :
    ∃ found, s.findInBin rounded l = .ok found ∧ ∀ h, found = some h →
      h ∈ l ∧ ∃ c, s.chunks[h]? = some c ∧ rounded ≤ c.size := by
  induction l with
  | nil => exact ⟨none, rfl, nofun⟩
  | cons x rest ih =>
    obtain ⟨c, hc⟩ := hChunks x mem_cons_self
    simp only [findInBin, chunkFromHandle_eq hc, bind, Except.bind]
    split
    · rename_i hFits
      refine ⟨some x, rfl, ?_⟩
      rintro h ⟨⟩
      exact ⟨mem_cons_self, c, hc, hFits⟩
    · obtain ⟨found, hFound, hSpec⟩ := ih fun h hh => hChunks h (mem_cons_of_mem _ hh)
      refine ⟨found, hFound, fun h hh => ?_⟩
      exact (hSpec h hh).imp_left (mem_cons_of_mem _)

theorem Consistent.findChunk (S : Consistent L recycled held loose s) (rounded : Nat)
    (bins : List BinNum) :
    ∃ found, s.findChunk rounded bins = .ok found ∧ ∀ b h, found = some (b, h) →
      h ∈ s.bins b ∧ ∃ c, s.chunks[h]? = some c ∧ rounded ≤ c.size := by
  induction bins with
  | nil => exact ⟨none, rfl, nofun⟩
  | cons b rest ih =>
    obtain ⟨found, hFound, hSpec⟩ := findInBin_ok rounded fun h hh =>
      S.live_chunk (S.live_of_binned (b := b) hh)
    simp only [BFCAllocator.findChunk, hFound]
    cases found with
    | none => exact ih
    | some h =>
      refine ⟨some (b, h), rfl, ?_⟩
      rintro b' h' ⟨⟩
      exact hSpec h rfl

/-- What a successful search leaves: the chunk at `p` is in use. -/
structure Taken (s s' : BFCAllocator) (p size numBytes : Nat) : Prop extends SameMemory s s' where
  nextId : s'.nextAllocationId = s.nextAllocationId + 1
  bytes : s'.stats.bytesInUse = s.stats.bytesInUse + size
  usage : (usage s'.chunks).Perm ((p, size, numBytes) :: usage s.chunks)

theorem Taken.accounts {p size numBytes : Nat} (h : Taken s s' p size numBytes) (A : Accounts s)
    (hEnough : numBytes ≤ size) : Accounts s' := by
  refine ⟨?_, ?_, ?_⟩
  · rw [h.bytes, A.bytes, (h.usage.map _).sum_eq, map_cons, sum_cons]
    simp only
    omega
  · rw [h.nextId]
    have hIds := A.ids
    omega
  · intro u hu
    rcases mem_cons.mp (h.usage.mem_iff.mp hu) with rfl | hu
    · exact hEnough
    · exact A.enough u hu

theorem Consistent.markInUse (S : Consistent L recycled [h] loose s) (numBytes : Nat)
    (hLoose : ∀ z ∈ loose, z = h) (hc : s.chunks[h]? = some c) (hIds : 0 < s.nextAllocationId) :
    ∃ s', s.markInUse h numBytes = .ok (c.ptr, s') ∧ Consistent L recycled [] [] s' ∧
      Taken s s' c.ptr c.size numBytes := by
  obtain ⟨hLive, d, hd, hFree⟩ := S.marks.unfiled h mem_cons_self
  cases hc.symm.trans hd
  have hNone := S.held_binNum mem_cons_self hc
  let used : Chunk := { c with requestedSize := numBytes, allocationId := s.nextAllocationId }
  have hUse : used.inUse := by
    simp only [used, Chunk.inUse, decide_eq_true_eq]
    omega
  have hCells : cellsOf (s.chunks.set h used) = cellsOf s.chunks := cellsOf_set hc rfl
  let bytesInUse := s.stats.bytesInUse + c.size
  refine ⟨{ s.setChunk h used with
    nextAllocationId := s.nextAllocationId + 1
    stats :=
      { numAllocs := s.stats.numAllocs + 1
        bytesInUse := bytesInUse
        maxBytesInUse := max s.stats.maxBytesInUse bytesInUse
        maxAllocSize := max s.stats.maxAllocSize c.size } }, ?_,
    ⟨?_, S.marks.use hLoose (S.not_recycled hLive) hc rfl hUse hNone hNone⟩,
    ⟨rfl, rfl, rfl, rfl⟩, rfl, rfl, usage_set_inUse hc hFree hUse⟩
  · rw [BFCAllocator.markInUse, chunkFromHandle_eq hc]
    rfl
  · change Geometry L recycled s.regions (cellsOf (s.chunks.set h used)) s.freeChunksList
    rw [hCells]
    exact S.geometry

theorem Frame.taken {s'' : BFCAllocator} {p size : Nat} (h : Frame s s')
    (hTaken : Taken s' s'' p size numBytes) : Taken s s'' p size numBytes := by
  refine ⟨h.toSameMemory.trans hTaken.toSameMemory, ?_, ?_, ?_⟩
  · rw [hTaken.nextId, h.nextId]
  · rw [hTaken.bytes, h.stats]
  · rw [← h.usage]
    exact hTaken.usage

theorem Consistent.free_of_binned (S : Consistent L recycled held loose s) {b : BinNum}
    (hh : h ∈ s.bins b) (hc : s.chunks[h]? = some c) : c.inUse = false := by
  obtain ⟨d, hd, hBin⟩ := (S.marks.binned b h).mp hh
  cases hc.symm.trans hd
  have hFiled := S.marks.filed h c (S.live_of_binned hh) hc
  rw [hBin] at hFiled
  split at hFiled
  · cases hFiled
  · rename_i hNot
    exact Bool.not_eq_true _ ▸ fun hUse => hNot (.inl hUse)

theorem Consistent.size_le (S : Consistent L recycled held loose s) (hLive : Live L s.regions h)
    (hc : s.chunks[h]? = some c) : c.size ≤ 2 ^ 39 ∧ 0 < c.ptr := by
  obtain ⟨r, hr, hh⟩ := hLive
  obtain ⟨cell, hCell, _, _, hLow, _, hHigh⟩ := S.geometry.mem hr hh
  cases (cellsOf_eq hc).symm.trans hCell
  have hProper := S.geometry.proper r hr
  have hSize := hProper.indexed
  have hPtr := hProper.nonNull
  simp only [Chunk.cell] at hLow hHigh
  omega

theorem Consistent.findChunkPtr (S : Consistent L recycled [] [] s) (B : Budget totalMemory s)
    (A : Accounts s) (hFit : HandlesFit s 0 1) (hPos : 0 < rounded) (hUnit : 256 ∣ rounded)
    (binNum : BinNum) (numBytes : Nat) : s.findChunkPtr binNum rounded numBytes = .ok (none, s) ∨
      ∃ p size L' recycled' s', s.findChunkPtr binNum rounded numBytes = .ok (some p, s') ∧
        Consistent L' recycled' [] [] s' ∧ Taken s s' p size numBytes ∧ rounded ≤ size := by
  obtain ⟨found, hFound, hSpec⟩ := S.findChunk rounded ((range kNumBins).drop binNum)
  rw [BFCAllocator.findChunkPtr]
  simp only [hFound, bind, Except.bind]
  cases found with
  | none => exact .inl rfl
  | some place =>
    obtain ⟨b, h⟩ := place
    obtain ⟨hh, c, hc, hFits⟩ := hSpec b h rfl
    have hLive := S.live_of_binned hh
    have hBound := (S.size_le hLive hc).1
    obtain ⟨s₁, hRemove, S₁, hFrame₁, hChunks⟩ :=
      S.removeFreeChunkIter hh hc (S.free_of_binned hh hc)
    have hc₁ : s₁.chunks[h]? = some { c with binNum := none } := by
      rw [hChunks, getElem?_set_self hc]
    have hDouble : sizeT (rounded * 2) = rounded * 2 := sizeT_of_lt (by omega)
    have hFit₁ : HandlesFit s₁ 0 1 := by
      rw [HandlesFit, hFrame₁.total, hChunks, length_set]
      exact hFit
    have hIds₁ : 0 < s₁.nextAllocationId := by
      rw [hFrame₁.nextId]
      exact A.ids
    simp only [hRemove, chunkFromHandle_eq hc₁, hDouble]
    right
    split
    · rename_i hLarge
      have hLive₁ := (S₁.marks.unfiled h mem_cons_self).1
      obtain ⟨L', recycled', s₂, hSplit, S₂, hFrame₂, c₂, hc₂, _, hSize₂⟩ :=
        S₁.splitChunk hc₁ hPos hUnit (by simpa [mul_comm] using hLarge)
          (S₁.room_split (hFrame₁.budget B) hFit₁ hLive₁ hc₁ (show 512 ≤ c.size by omega))
      have hFrame := hFrame₁.trans hFrame₂
      obtain ⟨s', hMark, S', hTaken⟩ := S₂.markInUse numBytes (by simp) hc₂
        (hFrame₂.nextId ▸ hIds₁)
      refine ⟨c₂.ptr, c₂.size, L', recycled', s', ?_, S', hFrame.taken hTaken, ?_⟩
      · simp only [hSplit, hMark]
      · rw [hSize₂]
    · obtain ⟨s', hMark, S', hTaken⟩ := S₁.markInUse numBytes (by simp) hc₁ hIds₁
      refine ⟨_, _, L, recycled, s', ?_, S', hFrame₁.taken hTaken, hFits⟩
      simp only [hMark]

end Find

section Extend

variable {rounded : Nat}

theorem roundedBytes_spec {n : Nat} (h : n ≤ 2 ^ 64 - 256) :
    n ≤ roundedBytes n ∧ 256 ∣ roundedBytes n ∧ roundedBytes n < n + 256 := by
  rw [roundedBytes_eq h]
  omega

theorem Budget.availableBytes_eq (B : Budget totalMemory s) :
    s.availableBytes = (totalMemory - s.totalRegionAllocatedBytes) / 256 * 256 := by
  have hWithin := B.within
  have hSmall := B.small
  have hLeft : sizeT (totalMemory + 2 ^ 64 - s.totalRegionAllocatedBytes) =
      totalMemory - s.totalRegionAllocatedBytes := by
    rw [sizeT]
    omega
  rw [availableBytes, B.limit, hLeft, kMinAllocationSize]

theorem increase_ok (hRounded : rounded ≤ 2 ^ 63) (turns : Nat) {curr : Nat} (increased : Bool)
    (hPos : 0 < curr) (hUnit : 256 ∣ curr) (hTurns : rounded ≤ curr * 2 ^ turns) :
    ∃ curr' increased', increase rounded (turns + 1) curr increased = .ok (curr', increased') ∧
      rounded ≤ curr' ∧ 256 ∣ curr' := by
  induction turns generalizing curr increased with
  | zero =>
    rw [pow_zero, mul_one] at hTurns
    refine ⟨curr, increased, ?_, hTurns, hUnit⟩
    rw [increase, if_neg (not_lt.mpr hTurns)]
  | succ turns ih =>
    rw [increase]
    split
    · have hDouble : sizeT (curr * 2) = curr * 2 := sizeT_of_lt (by omega)
      rw [hDouble]
      refine ih true (by omega) (Dvd.dvd.mul_right hUnit 2) ?_
      rwa [mul_assoc, ← pow_succ']
    · rename_i hEnough
      exact ⟨curr, increased, rfl, not_lt.mp hEnough, hUnit⟩

/-- What `Extend` asks for. -/
structure Asks (s : BFCAllocator) (rounded curr bytes : Nat) : Prop where
  unit : 256 ∣ curr
  enough : rounded ≤ curr
  bytes_eq : bytes = min curr s.availableBytes
  available : rounded ≤ s.availableBytes

theorem Budget.regionRequest (B : Budget totalMemory s) (hPos : 0 < rounded)
    (hUnit : 256 ∣ rounded) (hDoubles : rounded ≤ s.availableBytes → rounded ≤ 2 ^ 63) :
    s.regionRequest rounded = .ok none ∨ ∃ curr increased bytes,
      s.regionRequest rounded = .ok (some (curr, increased, bytes)) ∧
        Asks s rounded curr bytes := by
  rw [BFCAllocator.regionRequest]
  split
  · exact .inl rfl
  · rename_i hAvailable
    right
    have hLeft := B.availableBytes_eq
    have hRounded := hDoubles (not_lt.mp hAvailable)
    obtain ⟨hCurr, hCurrUnit⟩ := B.growth (by omega)
    have hTurns : rounded ≤ s.currRegionAllocationBytes * 2 ^ 64 := by omega
    obtain ⟨curr, increased, hIncrease, hEnough, hDvd⟩ :=
      increase_ok hRounded 64 false hCurr hCurrUnit hTurns
    refine ⟨curr, increased, _, ?_, hDvd, hEnough, rfl, not_lt.mp hAvailable⟩
    simp only [hIncrease, bind, Except.bind]

variable {answers : List (Option Nat)}

theorem backpedal_none (rounded bytes : Nat)
    (h : ∀ answer ∈ answers, answer = none) :
    backpedal rounded bytes answers = .error .unanswered ∨
      ∃ bytes' rest, backpedal rounded bytes answers = .ok (none, bytes', rest) := by
  induction answers generalizing bytes with
  | nil =>
    rw [backpedal.eq_def]
    simp only
    split
    · exact .inl rfl
    · exact .inr ⟨_, _, rfl⟩
  | cons answer rest ih =>
    rw [backpedal.eq_def]
    simp only
    split
    · rw [h answer mem_cons_self]
      exact ih _ fun a ha => h a (mem_cons_of_mem _ ha)
    · exact .inr ⟨_, _, rfl⟩

def Granted (s : BFCAllocator) (p bytes : Nat) : Prop :=
  0 < p ∧ p + bytes < 2 ^ 64 ∧
    ∀ r ∈ s.regions, p + bytes ≤ r.ptr ∨ r.ptr + r.memorySize ≤ p

theorem requestRegion_spec (s : BFCAllocator) (rounded bytes : Nat)
    (hNone : ∀ answer ∈ answers.tail, answer = none) :
    s.requestRegion rounded bytes answers = .error .unanswered ∨
      ∃ memAddr bytes' rest started, s.requestRegion rounded bytes answers =
          .ok (memAddr, bytes', rest, { s with startedBackpedal := started }) ∧
        ∀ p, memAddr = some p → answers.head? = some (some p) ∧ bytes' = bytes := by
  cases answers with
  | nil => exact .inl rfl
  | cons first rest =>
    rw [requestRegion]
    split
    · rename_i hBackpedal
      rcases backpedal_none rounded (roundedBytes (timesBackpedalFactor bytes)) hNone with
        hStop | ⟨bytes', rest', hEnd⟩
      · rw [tail_cons] at hStop
        rw [hStop]
        exact .inl rfl
      · rw [tail_cons] at hEnd
        rw [hEnd]
        exact .inr ⟨none, bytes', rest', true, rfl, nofun⟩
    · refine .inr ⟨first, bytes, rest, s.startedBackpedal, rfl, ?_⟩
      rintro p rfl
      exact ⟨rfl, rfl⟩

theorem Budget.extended (B : Budget totalMemory s) {curr bytes : Nat}
    (hAsks : Asks s rounded curr bytes) (hPos : 0 < rounded) (hIndexed : bytes ≤ 2 ^ 39)
    {curr' : Nat} (hCurr : curr' = curr ∨ curr' = sizeT (curr * 2))
    (hLimit : s'.memoryLimit = s.memoryLimit) (hCurr' : s'.currRegionAllocationBytes = curr')
    (hTotal : s'.totalRegionAllocatedBytes = s.totalRegionAllocatedBytes + bytes)
    (hSizes : (s'.regions.map AllocationRegion.memorySize).sum =
      bytes + (s.regions.map AllocationRegion.memorySize).sum) : Budget totalMemory s' := by
  have hWithin := B.within
  have hLeft := B.availableBytes_eq
  have hBytes := hAsks.bytes_eq
  have hEnough := hAsks.enough
  have hUnit := hAsks.unit
  have hAligned := B.aligned
  have hDvd : 256 ∣ bytes := by omega
  refine ⟨hLimit.trans B.limit, ?_, ?_, ?_, B.small, ?_⟩
  · rw [hSizes, B.sizes, hTotal, add_comm]
  · rw [hTotal]
    exact dvd_add hAligned hDvd
  · omega
  · rw [hCurr']
    intro hMore
    rcases hCurr with rfl | rfl
    · exact ⟨by omega, hUnit⟩
    · -- memory is left, so that the region has all the bytes of `curr`
      have hDouble : sizeT (curr * 2) = curr * 2 := sizeT_of_lt (by omega)
      rw [hDouble]
      exact ⟨by omega, Dvd.dvd.mul_right hUnit 2⟩

theorem Budget.grow (B : Budget totalMemory s) {curr bytes : Nat}
    (hAsks : Asks s rounded curr bytes) (hPos : 0 < rounded) (started : Bool) :
    Budget totalMemory
      { s with currRegionAllocationBytes := curr, startedBackpedal := started } := by
  refine { B with growth := fun _ => ⟨?_, hAsks.unit⟩ }
  exact lt_of_lt_of_le hPos hAsks.enough

/-- A region that can be added: the sub-allocator grants it, and its handles are `int`s. -/
def Addable (s : BFCAllocator) (rounded : Nat) (answers : List (Option Nat)) : Prop :=
  ∀ p curr increased bytes, answers.head? = some (some p) →
    s.regionRequest rounded = .ok (some (curr, increased, bytes)) →
    Granted s p bytes ∧ bytes ≤ 2 ^ 39 ∧ HandlesFit s bytes 2

/-- A call of `Extend` leaves a consistent allocator, with the same chunks in use. -/
theorem Consistent.extend (S : Consistent L recycled [] [] s) (B : Budget totalMemory s)
    (A : Accounts s) (hPos : 0 < rounded) (hUnit : 256 ∣ rounded)
    (hDoubles : rounded ≤ s.availableBytes → rounded ≤ 2 ^ 63)
    (hNone : ∀ answer ∈ answers.tail, answer = none) (hAddable : Addable s rounded answers) :
    s.extend rounded answers = .error .unanswered ∨
      ∃ extended rest L' recycled' s', s.extend rounded answers = .ok (extended, rest, s') ∧
        Consistent L' recycled' [] [] s' ∧ Budget totalMemory s' ∧ Accounts s' ∧
        usage s'.chunks = usage s.chunks ∧ (extended → HandlesFit s' 0 1) := by
  rw [BFCAllocator.extend]
  rcases B.regionRequest hPos hUnit hDoubles with
    hRequest | ⟨curr, increased, bytes, hRequest, hAsks⟩
  · rw [hRequest]
    exact .inr ⟨false, answers, L, recycled, s, rfl, S, B, A, rfl, nofun⟩
  · rw [hRequest, ok_bind]
    simp only
    rcases requestRegion_spec { s with currRegionAllocationBytes := curr } rounded bytes hNone with
      hStop | ⟨memAddr, bytes', rest, started, hAlloc, hFirst⟩
    · rw [hStop]
      exact .inl rfl
    · rw [hAlloc]
      right
      cases memAddr with
      | none =>
        exact ⟨false, rest, L, recycled, _, rfl, ⟨S.geometry, S.marks⟩,
          B.grow hAsks hPos started, ⟨A.bytes, A.ids, A.enough⟩, rfl, nofun⟩
      | some p =>
        obtain ⟨hHead, rfl⟩ := hFirst p rfl
        obtain ⟨⟨hNonNull, hFits, hApart⟩, hIndexed, hFit⟩ :=
          hAddable p curr increased bytes' hHead hRequest
        have hLeft := B.availableBytes_eq
        have hAvailable := hAsks.available
        have hBytes := hAsks.bytes_eq
        have hEnough := hAsks.enough
        have hDvd := hAsks.unit
        have hBytesPos : 0 < bytes' := by omega
        have hProper : AllocationRegion.Proper ⟨p, bytes', fun _ => none⟩ := by
          refine ⟨hNonNull, hBytesPos, ?_, hIndexed, hFits⟩
          change 256 ∣ bytes'
          omega
        let increase := fun curr' =>
          { s with currRegionAllocationBytes := curr', startedBackpedal := started }
        obtain ⟨curr', hCurr, hSame⟩ : ∃ curr', (curr' = curr ∨ curr' = sizeT (curr * 2)) ∧
            (if increased then increase curr else increase (sizeT (curr * 2))) =
              increase curr' := by
          cases increased with
          | true => exact ⟨curr, .inl rfl, rfl⟩
          | false => exact ⟨_, .inr rfl, rfl⟩
        have S₁ : Consistent L recycled [] [] (increase curr') := ⟨S.geometry, S.marks⟩
        obtain ⟨L', recycled', s', hAdd, S', hLimit, hCurr', hTotal, hId, hStats, hSizes, hUsage,
          hLength⟩ := S₁.addRegion hProper hApart (S.room B hBytesPos hFit)
        have hSum : s'.totalRegionAllocatedBytes = s.totalRegionAllocatedBytes + bytes' := by
          have hWithin := B.within
          have hSmall := B.small
          have hBelow : s.totalRegionAllocatedBytes + bytes' < 2 ^ 64 := by omega
          exact hTotal.trans (sizeT_of_lt hBelow)
        refine ⟨true, rest, L', recycled', s', ?_, S',
          B.extended hAsks hPos hIndexed hCurr hLimit hCurr' hSum hSizes, ?_, hUsage, fun _ => ?_⟩
        · change ((if increased then increase curr else increase (sizeT (curr * 2))).addRegion p
            bytes' >>= fun s => .ok (true, rest, s)) = _
          rw [hSame, hAdd, ok_bind]
        · refine ⟨?_, ?_, ?_⟩
          · rw [hStats, hUsage]
            exact A.bytes
          · rw [hId]
            exact A.ids
          · rw [hUsage]
            exact A.enough
        · rw [HandlesFit, hSum]
          exact hFit.imp id fun hFit => by
            have hGrows : s'.chunks.length ≤ s.chunks.length + 1 := hLength
            omega

end Extend

section Calls

variable {numBytes : Nat} {answers : List (Option Nat)}

def Allocates (s s' : BFCAllocator) (numBytes : Nat) : Option Nat → Prop
  | none => usage s'.chunks = usage s.chunks
  | some p => ∃ size, (usage s'.chunks).Perm ((p, size, numBytes) :: usage s.chunks)

theorem Consistent.allocateRaw (S : Consistent L recycled [] [] s) (B : Budget totalMemory s)
    (A : Accounts s) (hFit : HandlesFit s 0 1) (hBytes : numBytes ≤ 2 ^ 64 - 256)
    (hDoubles : roundedBytes numBytes ≤ s.availableBytes → roundedBytes numBytes ≤ 2 ^ 63)
    (hNone : ∀ answer ∈ answers.tail, answer = none)
    (hAddable : Addable s (roundedBytes numBytes) answers) :
    s.allocateRawInternal numBytes answers = .error .unanswered ∨
      ∃ ptr rest L' recycled' s', s.allocateRawInternal numBytes answers = .ok (ptr, rest, s') ∧
        Consistent L' recycled' [] [] s' ∧ Budget totalMemory s' ∧ Accounts s' ∧
        Allocates s s' numBytes ptr := by
  obtain ⟨hLe, hUnit, _⟩ := roundedBytes_spec hBytes
  rw [allocateRawInternal]
  split
  · exact .inr ⟨none, answers, L, recycled, s, rfl, S, B, A, rfl⟩
  · have hPos : 0 < roundedBytes numBytes := by omega
    simp only
    rcases S.findChunkPtr B A hFit hPos hUnit (binNumForSize (roundedBytes numBytes)) numBytes with
      hFind | ⟨p, size, L', recycled', s', hFind, S', hTaken, hSize⟩
    · rw [hFind, ok_bind]
      simp only
      rcases S.extend B A hPos hUnit hDoubles hNone hAddable with
        hStop | ⟨extended, rest, L₁, recycled₁, s₁, hExtend, S₁, B₁, A₁, hUsage, hFit₁⟩
      · rw [hStop]
        exact .inl rfl
      · rw [hExtend, ok_bind]
        right
        cases extended with
        | false => exact ⟨none, rest, L₁, recycled₁, s₁, rfl, S₁, B₁, A₁, hUsage⟩
        | true =>
          simp only
          rcases S₁.findChunkPtr B₁ A₁ (hFit₁ rfl) hPos hUnit
              (binNumForSize (roundedBytes numBytes)) numBytes with
            hFind₁ | ⟨p, size, L', recycled', s', hFind₁, S', hTaken, hSize⟩
          · rw [hFind₁]
            exact ⟨none, rest, L₁, recycled₁, s₁, rfl, S₁, B₁, A₁, hUsage⟩
          · rw [hFind₁]
            refine ⟨some p, rest, L', recycled', s', rfl, S', hTaken.toSameMemory.budget B₁,
              hTaken.accounts A₁ (hLe.trans hSize), size, ?_⟩
            rw [← hUsage]
            exact hTaken.usage
    · rw [hFind]
      exact .inr ⟨some p, answers, L', recycled', s', rfl, S', hTaken.toSameMemory.budget B,
        hTaken.accounts A (hLe.trans hSize), size, hTaken.usage⟩

theorem Consistent.live_of_inUse (S : Consistent L recycled held loose s)
    (hc : s.chunks[h]? = some c) (hUse : c.inUse) : Live L s.regions h := by
  refine (S.geometry.covered h c.cell (cellsOf_eq hc)).resolve_left fun hMem => ?_
  obtain ⟨d, hd, hFree, _⟩ := S.marks.idle h hMem
  cases hc.symm.trans hd
  exact absurd (hFree.symm.trans hUse) Bool.false_ne_true

theorem Consistent.deallocateRaw (S : Consistent L recycled [] [] s) (B : Budget totalMemory s)
    (A : Accounts s) {p size requested : Nat} (hMem : (p, size, requested) ∈ usage s.chunks) :
    ∃ L' recycled' s', s.deallocateRawInternal p = .ok s' ∧ Consistent L' recycled' [] [] s' ∧
      Budget totalMemory s' ∧ Accounts s' ∧
      (usage s.chunks).Perm ((p, size, requested) :: usage s'.chunks) := by
  obtain ⟨h, c, hc, hUse, hEq⟩ := mem_usage.mp hMem
  obtain ⟨rfl, rfl, rfl⟩ : p = c.ptr ∧ size = c.size ∧ requested = c.requestedSize := by
    simpa using hEq
  have hLive := S.live_of_inUse hc hUse
  have hPtr := (S.size_le hLive hc).2
  obtain ⟨r, hr, hh⟩ := hLive
  have hHandle : RegionManager.getHandle c.ptr s.regions = .ok (some h) :=
    S.geometry.getHandle hr hh (cellsOf_eq hc)
  obtain ⟨L', recycled', s', hFree, S', hFrame⟩ := S.freeAndMaybeCoalesce ⟨r, hr, hh⟩ hc hUse
  have hUsage : (usage s.chunks).Perm ((c.ptr, c.size, c.requestedSize) :: usage s'.chunks) := by
    rw [hFrame.usage]
    exact usage_set_free hc hUse rfl
  refine ⟨L', recycled', s', ?_, S', hFrame.toSameMemory.budget ?_, ?_, hUsage⟩
  · rw [deallocateRawInternal, if_neg (by omega), hHandle]
    exact hFree
  · exact { B with }
  · refine ⟨?_, ?_, ?_⟩
    · have hBytes := A.bytes
      rw [(hUsage.map _).sum_eq, map_cons, sum_cons] at hBytes
      rw [hFrame.stats]
      simp only at hBytes ⊢
      omega
    · rw [hFrame.nextId]
      exact A.ids
    · intro u hu
      exact A.enough u (hUsage.mem_iff.mpr (mem_cons_of_mem _ hu))

end Calls

end TensorFlowOnSpark.CommonRuntime
