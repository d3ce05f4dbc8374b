import TensorFlowOnSpark.CommonRuntime.BfcCalls
import TensorFlowOnSpark.CommonRuntime.BfcPlacement

/-!
# Free chunks are filed under their sizes, whatever is asked for

The invariant of this module holds for regions of any size and requests of any size.
-/

namespace TensorFlowOnSpark.CommonRuntime

open Linked Fallible BFCAllocator List Option Except Function

/-- Regions in which every address has an index, and room for so many more chunks. -/
structure Roomy (s : BFCAllocator) (more : Nat) : Prop where
  indexed : ∀ r ∈ s.regions, r.memorySize ≤ 2 ^ 39
  room : s.chunks.length + more ≤ 2 ^ 31

structure Arranged (L : Layout) (recycled held loose : List ChunkHandle) (s : BFCAllocator) :
    Prop where
  placement : Placement L recycled s.regions (cellsOf s.chunks) s.freeChunksList
  marks : Marks L recycled held loose s.regions s.chunks s.bins
  positive : ∀ h c, Live L s.regions h → s.chunks[h]? = some c → c.inUse = false → h ∉ held →
    0 < c.size

namespace Arranged

variable {L : Layout} {recycled held loose : List ChunkHandle} {s s' : BFCAllocator}
  {h x y : ChunkHandle} {c c' : Chunk} {b : BinNum}

variable {cx cy : Chunk}

section

variable (A : Arranged L recycled held loose s)
include A

theorem not_recycled (hLive : Live L s.regions h) :
    h ∉ recycled := fun hMem => A.placement.apart h hMem hLive

theorem live_chunk (hLive : Live L s.regions h) : ∃ c, s.chunks[h]? = some c := by
  obtain ⟨cell, hCell⟩ := A.placement.cell hLive
  obtain ⟨c, hc, _⟩ := map_eq_some_iff.mp hCell
  exact ⟨c, hc⟩

theorem live_or_recycled (hc : s.chunks[h]? = some c) :
    h ∈ recycled ∨ Live L s.regions h := A.placement.covered h c.cell (cellsOf_eq hc)

theorem live_of_binned (hh : h ∈ s.bins b) : Live L s.regions h := by
  obtain ⟨c, hc, hBin⟩ := (A.marks.binned b h).mp hh
  refine (A.live_or_recycled hc).resolve_left fun hMem => ?_
  obtain ⟨c', hc', _, hNone⟩ := A.marks.idle h hMem
  cases hc.symm.trans hc'
  cases hBin.symm.trans hNone

theorem of_binned (hh : h ∈ s.bins b) (hc : s.chunks[h]? = some c) :
    c.inUse = false ∧ h ∉ held ∧ b = binNumForSize c.size ∧ 0 < c.size := by
  obtain ⟨d, hd, hBin⟩ := (A.marks.binned b h).mp hh
  cases hc.symm.trans hd
  have hLive := A.live_of_binned hh
  have hFiled := A.marks.filed h c hLive hc
  rw [hBin] at hFiled
  split at hFiled
  · cases hFiled
  · rename_i hNot
    obtain ⟨hUse, hHeld⟩ := not_or.mp hNot
    have hFree : c.inUse = false := Bool.not_eq_true _ ▸ hUse
    exact ⟨hFree, hHeld, some.inj hFiled, A.positive h c hLive hc hFree hHeld⟩

theorem held_chunk (hh : h ∈ held) (hc : s.chunks[h]? = some c) :
    Live L s.regions h ∧ c.inUse = false ∧ c.binNum = none := by
  obtain ⟨hLive, d, hd, hFree⟩ := A.marks.unfiled h hh
  cases hc.symm.trans hd
  refine ⟨hLive, hFree, ?_⟩
  rw [A.marks.filed h c hLive hc, if_pos (.inr hh)]

theorem free_binNum (hLive : Live L s.regions h) (hh : h ∉ held) (hc : s.chunks[h]? = some c)
    (hFree : c.inUse = false) : c.binNum = some (binNumForSize c.size) := by
  rw [A.marks.filed h c hLive hc, if_neg (by simp [hFree, hh])]

theorem start_ne (hx : Live L s.regions x) (hy : Live L s.regions y) (hcx : s.chunks[x]? = some cx)
    (hcy : s.chunks[y]? = some cy) (hPos : 0 < cx.size) (hPos' : 0 < cy.size) (hne : x ≠ y)
    : cx.ptr ≠ cy.ptr := fun hEq =>
  hne (A.placement.start_inj hx hy (cellsOf_eq hcx) (cellsOf_eq hcy) hPos hPos' hEq)

theorem order_total (hx : Live L s.regions x) (hy : Live L s.regions y)
    (hcx : s.chunks[x]? = some cx) (hcy : s.chunks[y]? = some cy) (hPos : 0 < cx.size)
    (hPos' : 0 < cy.size) (hne : x ≠ y) :
    chunkLess s.chunks x y ∨ chunkLess s.chunks y x := by
  have hStart := A.start_ne hx hy hcx hcy hPos hPos' hne
  rw [chunkLess_iff hcx hcy, chunkLess_iff hcy hcx]
  omega

theorem next_ne (hLive : Live L s.regions h)
    (hc : s.chunks[h]? = some c) {n : ChunkHandle} (hNext : c.next = some n) :
    n ≠ h ∧ Live L s.regions n ∧
      ∃ d, s.chunks[n]? = some d ∧ d.prev = some h ∧ d.ptr = c.ptr + c.size := by
  obtain ⟨r, hr, hh⟩ := hLive
  obtain ⟨hn, hne, cell, hCell, hPrev, hStart⟩ :=
    A.placement.next r hr h hh c.cell n (cellsOf_eq hc) hNext
  obtain ⟨d, hd, rfl⟩ := map_eq_some_iff.mp hCell
  exact ⟨hne, ⟨r, hr, hn⟩, d, hd, hPrev, hStart⟩

theorem prev_ne (hLive : Live L s.regions h)
    (hc : s.chunks[h]? = some c) {q : ChunkHandle} (hPrev : c.prev = some q) :
    q ≠ h ∧ Live L s.regions q ∧ ∃ d, s.chunks[q]? = some d ∧ d.next = some h := by
  obtain ⟨r, hr, hh⟩ := hLive
  obtain ⟨hq, cell, hCell, hNext⟩ := A.placement.prev r hr h hh c.cell q (cellsOf_eq hc) hPrev
  obtain ⟨d, hd, rfl⟩ := map_eq_some_iff.mp hCell
  have hqLive : Live L s.regions q := ⟨r, hr, hq⟩
  exact ⟨Ne.symm (A.next_ne hqLive hd hNext).1, hqLive, d, hd, hNext⟩

theorem next_next_ne (hLive : Live L s.regions x) {z : ChunkHandle} (hcx : s.chunks[x]? = some cx)
    (hcy : s.chunks[y]? = some cy) (hPos : 0 < cy.size) (hNext : cx.next = some y)
    (hNext' : cy.next = some z) : z ≠ x := by
  obtain ⟨_, hLive', d, hd, _, hStart⟩ := A.next_ne hLive hcx hNext
  cases hcy.symm.trans hd
  obtain ⟨_, _, e, he, _, hStart'⟩ := A.next_ne hLive' hcy hNext'
  rintro rfl
  cases hcx.symm.trans he
  omega

theorem placement_set (hc : s.chunks[h]? = some c) (hCell : c'.cell = c.cell) :
    Placement L recycled s.regions (cellsOf (s.chunks.set h c')) s.freeChunksList := by
  rw [cellsOf_set hc hCell]
  exact A.placement

end

theorem insertFreeChunk (A : Arranged L recycled (h :: held) loose s) (hh : h ∉ held)
    (hc : s.chunks[h]? = some c) (hPos : 0 < c.size) :
    ∃ s', s.insertFreeChunkIntoBin h = .ok s' ∧ Arranged L recycled held loose s' ∧
      Frame s s' ∧ s'.regions = s.regions ∧
      s'.chunks = s.chunks.set h { c with binNum := some (binNumForSize c.size) } := by
  obtain ⟨hLive, hFree, hNone⟩ := A.held_chunk mem_cons_self hc
  let chunks := s.chunks.set h { c with binNum := some (binNumForSize c.size) }
  let freeChunks := FreeChunkSet.insert (chunkLess chunks) h (s.bins (binNumForSize c.size))
  refine ⟨{ s with
    chunks := chunks, bins := update s.bins (binNumForSize c.size) freeChunks }, ?_,
    ⟨A.placement_set hc rfl, A.marks.file hh (A.not_recycled hLive) hc rfl rfl hFree hNone rfl rfl
      ?_, ?_⟩, frame_setBins _ hc rfl fun _ => rfl, rfl, rfl⟩
  · rw [insertFreeChunkIntoBin, chunkFromHandle_eq hc]
    simp only [bind, Except.bind, hFree, hNone]
    rfl
  · intro x hx
    obtain ⟨d, hd⟩ := A.live_chunk (A.live_of_binned hx)
    obtain ⟨_, hHeld, _, hPos'⟩ := A.of_binned hx hd
    exact A.order_total hLive (A.live_of_binned hx) hc hd hPos hPos'
      fun hEq => hHeld (hEq ▸ mem_cons_self)
  · intro x d hx hd hFree' hHeld
    by_cases hEq : x = h
    · subst hEq
      cases (getElem?_set_self hc).symm.trans hd
      exact hPos
    · rw [getElem?_set_ne hEq] at hd
      exact A.positive x d hx hd hFree' (by simp [hEq, hHeld])

section

variable (A : Arranged L recycled held loose s)
include A

theorem unfile (hLive : Live L s.regions h)
    (hc : s.chunks[h]? = some c) (hFree : c.inUse = false) (hBin : c.binNum = some b) :
    Arranged L recycled (h :: held) loose
      { s with
        chunks := s.chunks.set h { c with binNum := none }
        bins := update s.bins b (List.erase (s.bins b) h) } := by
  refine ⟨A.placement_set hc rfl,
    A.marks.unfile hLive (A.not_recycled hLive) hc rfl rfl hFree hBin rfl, ?_⟩
  intro x d hx hd hFree' hHeld
  obtain ⟨hne, hHeld⟩ := not_or.mp (mt mem_cons.mpr hHeld)
  simp only [getElem?_set_ne hne] at hd
  exact A.positive x d hx hd hFree' hHeld

theorem removeFreeChunkIter (hh : h ∈ s.bins b) (hc : s.chunks[h]? = some c) :
    ∃ s', s.removeFreeChunkIterFromBin b h = .ok s' ∧ Arranged L recycled (h :: held) loose s' ∧
      Frame s s' ∧ s'.regions = s.regions ∧
      s'.chunks = s.chunks.set h { c with binNum := none } := by
  obtain ⟨d, hd, hBin⟩ := (A.marks.binned b h).mp hh
  cases hc.symm.trans hd
  have hFree := (A.of_binned hh hc).1
  refine ⟨_, ?_, A.unfile (A.live_of_binned hh) hc hFree hBin, frame_setBins _ hc rfl fun _ => rfl,
    rfl, rfl⟩
  rw [removeFreeChunkIterFromBin, chunkFromHandle_eq hc]
  simp only [bind, Except.bind, hFree, hBin]
  rfl

theorem removeFreeChunk (hLive : Live L s.regions h)
    (hh : h ∉ held) (hc : s.chunks[h]? = some c) (hFree : c.inUse = false) :
    ∃ s', s.removeFreeChunkFromBin h = .ok s' ∧ Arranged L recycled (h :: held) loose s' ∧
      Frame s s' ∧ s'.regions = s.regions ∧
      s'.chunks = s.chunks.set h { c with binNum := none } ∧
      ∀ z, Busy s'.chunks z ↔ Busy s.chunks z := by
  have hBin := A.free_binNum hLive hh hc hFree
  have hPos := A.positive h c hLive hc hFree hh
  have hMem : h ∈ s.bins (binNumForSize c.size) := (A.marks.binned _ h).mpr ⟨c, hc, hBin⟩
  have hSelf : chunkLess s.chunks h h = false := by
    rw [← Bool.not_eq_true, chunkLess_iff hc hc]
    omega
  have hErase := erase_eq hMem hSelf fun x hx hne => by
    obtain ⟨d, hd⟩ := A.live_chunk (A.live_of_binned hx)
    obtain ⟨_, _, _, hPos'⟩ := A.of_binned hx hd
    exact A.order_total hLive (A.live_of_binned hx) hc hd hPos hPos' (Ne.symm hne)
  refine ⟨_, ?_, A.unfile hLive hc hFree hBin, frame_setBins _ hc rfl fun _ => rfl, rfl, rfl,
    fun z => busy_set hc rfl⟩
  rw [removeFreeChunkFromBin, chunkFromHandle_eq hc]
  simp only [bind, Except.bind, hFree, hBin, hErase]
  rfl

theorem allocateChunk (s₀ : BFCAllocator)
    (hChunks : s₀.chunks = s.chunks) (hFreeChunks : s₀.freeChunksList = s.freeChunksList)
    (hGoes : (∃ result, s₀.allocateChunk = .ok result) ∨ s.chunks.length < 2 ^ 31) :
    ∃ y c₀ chunks head' recycled',
      s₀.allocateChunk = .ok (y, { s₀ with chunks := chunks, freeChunksList := head' }) ∧
      Fresh L recycled s y c₀ chunks head' recycled' := by
  obtain ⟨y, c₀, chunks, head', recycled', F, hAlloc⟩ := A.marks.allocateChunk
    A.placement.freeList A.placement.nodup A.placement.apart fun _ => A.live_chunk
  refine ⟨y, c₀, chunks, head', recycled', ?_, F⟩
  refine (hAlloc s₀ hChunks hFreeChunks).resolve_right fun ⟨⟨_, hFull⟩, hNone⟩ => ?_
  exact hGoes.elim (fun ⟨result, hOk⟩ => hNone result hOk) hFull

theorem setHandle {r : AllocationRegion} (hr : r ∈ s.regions) {p : Nat} (hLow : r.ptr ≤ p)
    (hHigh : p < r.ptr + r.memorySize) {value : Option ChunkHandle} {s₁ : BFCAllocator}
    (hRegions : s₁.regions = s.regions) (hOk : s₁.setHandle p value = .ok s') :
    r.HasSlot p ∧ s' = { s₁ with regions := s.regions.map (putHandle r.ptr (r.slot p) value) } := by
  obtain ⟨regions, hSet, hEnd⟩ := bind_eq_ok.mp hOk
  cases hEnd
  rw [hRegions] at hSet
  obtain ⟨hSlot, rfl⟩ :=
    setHandle_ordinary A.placement.ordinary A.placement.sorted hr hLow hHigh hSet
  exact ⟨hSlot, rfl⟩

end

/-- A held chunk is split, and the rest of it goes into a bin. It can keep no bytes at all. -/
theorem splitChunk (A : Arranged L recycled [h] [] s) (hc : s.chunks[h]? = some c) {numBytes : Nat}
    (hUnit : 256 ∣ numBytes) (hSize : numBytes < c.size)
    (hGoes : (∃ s', s.splitChunk h numBytes = .ok s') ∨ Roomy s 1) :
    ∃ s' L' recycled', s.splitChunk h numBytes = .ok s' ∧ Arranged L' recycled' [h] [h] s' ∧
      Frame s s' ∧ ∃ c', s'.chunks[h]? = some c' ∧ c'.ptr = c.ptr ∧ c'.size = numBytes := by
  obtain ⟨hLive, hFree, hNone⟩ := A.held_chunk mem_cons_self hc
  obtain ⟨y, c₀, chunks₁, head', recycled', hAllocate, F⟩ := A.allocateChunk s rfl rfl
    (hGoes.imp (fun ⟨_, hOk⟩ => (bind_eq_ok.mp hOk).imp fun _ h => h.1) Roomy.room)
  have hhy : h ≠ y := fun hEq => F.dead (hEq ▸ hLive)
  have hc₁ : chunks₁[h]? = some c := by rw [F.same h hhy, hc]
  obtain ⟨r, hr, hh⟩ := hLive
  obtain ⟨hLow, hOffset, hHigh⟩ := A.placement.lies hr hh (cellsOf_eq hc)
  have hFits := (A.placement.ordinary r hr).fits
  simp only [Chunk.cell] at hLow hOffset hHigh
  have hPtr : sizeT (c.ptr + numBytes) = c.ptr + numBytes := sizeT_of_lt (by omega)
  have hRest : sizeT (c.size + 2 ^ 64 - numBytes) = c.size - numBytes := by
    rw [sizeT]
    omega
  have hSlot : r.HasSlot (c.ptr + numBytes) := by
    rcases hGoes with ⟨s', hOk⟩ | hRoomy
    · obtain ⟨_, hAllocate', hOk⟩ := bind_eq_ok.mp hOk
      cases hAllocate.symm.trans hAllocate'
      obtain ⟨c₁, hFirst, hOk⟩ := bind_eq_ok.mp hOk
      cases hc₁.symm.trans (chunkFromHandle_eq_ok.mp hFirst)
      obtain ⟨_, _, hOk⟩ := bind_eq_ok.mp hOk
      obtain ⟨_, _, hOk⟩ := bind_eq_ok.mp hOk
      obtain ⟨_, hSet, _⟩ := bind_eq_ok.mp hOk
      rw [hPtr] at hSet
      exact (A.setHandle (p := c.ptr + numBytes) hr (by omega) (by omega) (by rfl) hSet).1
    · exact (A.placement.ordinary r hr).hasSlot (hRoomy.indexed r hr) (by omega) (by omega)
  have hSet := setHandle_slot A.placement.ordinary A.placement.sorted hr (by omega) (by omega)
    hSlot (some y)
  have hLive : Live L s.regions h := ⟨r, hr, hh⟩
  let new : Chunk :=
    { c₀ with
      ptr := c.ptr + numBytes
      size := c.size - numBytes
      allocationId := -1
      prev := some h
      next := c.next }
  have hNext (n : ChunkHandle) (hn : c.next = some n) :
      n ≠ h ∧ n ≠ y ∧ ∃ d, s.chunks[n]? = some d := by
    obtain ⟨hne, hLive', d, hd, _⟩ := A.next_ne hLive hc hn
    exact ⟨hne, fun hEq => F.dead (hEq ▸ hLive'), d, hd⟩
  let regions' := s.regions.map (putHandle r.ptr (r.slot (c.ptr + numBytes)) (some y))
  let s₂ : BFCAllocator :=
    { s with
      regions := regions'
      chunks := (chunks₁.set y new).set h { c with size := numBytes, next := some y }
      freeChunksList := head' }
  obtain ⟨chunks₃, hRelink, hh₃, hy₃, hRelinks, hUsage⟩ :=
    splitRecords F hhy hc hFree (show s₂.chunks = _ from rfl) hFree rfl hNext
  have hEval : s.splitChunk h numBytes =
      insertFreeChunkIntoBin { s₂ with chunks := chunks₃ } y := by
    have hGuard : (!c.inUse && c.binNum.isNone) := by simp [hFree, hNone]
    rw [BFCAllocator.splitChunk, hAllocate]
    simp only [bind, Except.bind, chunkFromHandle, hc₁, F.chunk, hGuard, BFCAllocator.setHandle,
      hPtr, hSet, hRest]
    change Except.bind (s₂.relink c.next y) (fun s => s.insertFreeChunkIntoBin y) = _
    rw [hRelink, Except.bind]
  have P := A.placement.split hr hh (cellsOf_eq hc) hUnit hSize F.dead hRelinks.cells
    (cellsOf_eq hh₃) (cellsOf_eq hy₃) hSlot F.freeList F.nodup F.rest
  have hLives : ∀ z, Live (update L r.ptr (y :: L r.ptr)) regions' z ↔
      Live L s.regions z ∨ z = y := fun z => A.placement.live_split hr _ _
  have M := A.marks.split hLives F.rest (A.not_recycled hLive) F.dead F.old
    (fun z d n hz hd hn => (A.next_ne hz hd hn).2.1) hc hRelinks hh₃ hFree hNone hy₃
    (show new.inUse = false from rfl) F.unbinned rfl
  have A₃ : Arranged (update L r.ptr (y :: L r.ptr)) recycled' [y, h] [h]
      { s₂ with chunks := chunks₃ } := by
    refine ⟨P, M, ?_⟩
    intro z d hz hd hFree' hHeld
    obtain ⟨hzy, hzh⟩ : z ≠ y ∧ z ≠ h := by simpa using hHeld
    obtain ⟨e, p, he, rfl⟩ := hRelinks.back hzh hzy hd
    exact A.positive z e (((hLives z).mp hz).resolve_right hzy) he hFree' (by simpa using hzh)
  obtain ⟨s', hInsert, A', hFrame, _, hChunks⟩ :=
    A₃.insertFreeChunk (by simpa using hhy.symm) hy₃ (Nat.sub_pos_of_lt hSize)
  have hFrame₃ : Frame s { s₂ with chunks := chunks₃ } :=
    ⟨⟨rfl, rfl, rfl, sizes_putHandle⟩, rfl, rfl, hUsage⟩
  refine ⟨s', _, _, hEval.trans hInsert, A', hFrame₃.trans hFrame,
    { c with size := numBytes, next := some y }, ?_, rfl,
    rfl⟩
  rw [hChunks]
  exact (getElem?_set_ne hhy).trans hh₃

/-- A held chunk takes the bytes of its successor, which is held as well. -/
theorem merge (A : Arranged L recycled held loose s) (hHeld : ∀ z, z ∈ held ↔ z = x ∨ z = y)
    (hLoose : ∀ z ∈ loose, z = x ∨ z = y) (hcx : s.chunks[x]? = some cx)
    (hcy : s.chunks[y]? = some cy) (hPos : 0 < cx.size) (hPos' : 0 < cy.size)
    (hNext : cx.next = some y) (hOk : s.merge x y = .ok s') :
    ∃ L', Arranged L' (y :: recycled) [x] [x] s' ∧ Frame s s' ∧
      s'.chunks[x]? = some { cx with next := cy.next, size := cx.size + cy.size } ∧
      ∀ z, Busy s'.chunks z ↔ Busy s.chunks z := by
  obtain ⟨hxLive, hxFree, hxNone⟩ := A.held_chunk ((hHeld x).mpr (.inl rfl)) hcx
  obtain ⟨hyLive, hyFree, hyNone⟩ := A.held_chunk ((hHeld y).mpr (.inr rfl)) hcy
  obtain ⟨hyx, _, d, hd, hPrev, hStart⟩ := A.next_ne hxLive hcx hNext
  cases hcy.symm.trans hd
  obtain ⟨r, hr, hx⟩ := hxLive
  have hy : y ∈ L r.ptr := (A.placement.next r hr x hx cx.cell y (cellsOf_eq hcx) hNext).1
  obtain ⟨hLow, _, hHigh⟩ := A.placement.lies hr hy (cellsOf_eq hcy)
  obtain ⟨hLow', _, _⟩ := A.placement.lies hr hx (cellsOf_eq hcx)
  simp only [Chunk.cell] at hLow hHigh hLow'
  have hFits := (A.placement.ordinary r hr).fits
  have hSum : sizeT (cx.size + cy.size) = cx.size + cy.size := sizeT_of_lt (by omega)
  have hFollows (n : ChunkHandle) (hn : cy.next = some n) :
      n ≠ x ∧ n ≠ y ∧ ∃ d, s.chunks[n]? = some d := by
    obtain ⟨hny, _, d, hd, _, _⟩ := A.next_ne hyLive hcy hn
    exact ⟨A.next_next_ne ⟨r, hr, hx⟩ hcx hcy hPos' hNext hn, hny, d, hd⟩
  let merged : Chunk := { cx with next := cy.next, size := cx.size + cy.size }
  let deleted : Chunk := { cy with next := s.freeChunksList }
  obtain ⟨chunks₂, hRelink, hy₂, hx₃, hy₃, hRelinks, hUsage, hBusy⟩ :=
    mergeRecords hcx hcy hyx hxFree hyFree (show merged.inUse = false from hxFree)
      (show deleted.inUse = false from hyFree) hFollows
  obtain ⟨c₁, hFirst, hOk⟩ := bind_eq_ok.mp hOk
  cases hcx.symm.trans (chunkFromHandle_eq_ok.mp hFirst)
  obtain ⟨c₂, hSecond, hOk⟩ := bind_eq_ok.mp hOk
  cases hcy.symm.trans (chunkFromHandle_eq_ok.mp hSecond)
  obtain ⟨_, _, hOk⟩ := bind_eq_ok.mp hOk
  obtain ⟨_, _, hOk⟩ := bind_eq_ok.mp hOk
  rw [hSum] at hOk
  obtain ⟨s₁, hRelink', hDelete⟩ := bind_eq_ok.mp hOk
  obtain rfl : { s.setChunk x merged with chunks := chunks₂ } = s₁ :=
    ok.inj (hRelink.symm.trans hRelink')
  obtain ⟨c₃, hThird, hOk⟩ := bind_eq_ok.mp hDelete
  cases hy₂.symm.trans (chunkFromHandle_eq_ok.mp hThird)
  obtain ⟨s₂, hSet, hDeallocate⟩ := bind_eq_ok.mp hOk
  obtain ⟨_, rfl⟩ := A.setHandle (p := cy.ptr) hr hLow (by omega) (by rfl) hSet
  obtain ⟨c₄, hFourth, hEnd⟩ := bind_eq_ok.mp hDeallocate
  cases hy₂.symm.trans (chunkFromHandle_eq_ok.mp hFourth)
  cases hEnd
  have P := A.placement.merge hr hx (cellsOf_eq hcx) hNext (cellsOf_eq hcy) hPos hPos'
    hRelinks.cells (cellsOf_eq hx₃) ⟨_, cellsOf_eq hy₃, rfl⟩
  have hUnique : ∀ z d, Live L s.regions z → s.chunks[z]? = some d → d.next = some y → z = x := by
    intro z d hz hd hn
    obtain ⟨_, _, e, he, hPrev', _⟩ := A.next_ne hz hd hn
    cases hcy.symm.trans he
    exact some.inj (hPrev'.symm.trans hPrev)
  have M := A.marks.merge hHeld hLoose
    (fun z => Placement.live_without r.ptr (r.slot cy.ptr) none)
    hyx.symm ⟨A.not_recycled ⟨r, hr, hx⟩, A.not_recycled hyLive⟩ hUnique hRelinks hx₃ hxFree hxNone
    hy₃ hyFree hyNone
  refine ⟨_, ⟨P, M, ?_⟩, ⟨⟨rfl, rfl, rfl, sizes_putHandle⟩, rfl, rfl, hUsage⟩, hx₃, hBusy⟩
  · intro z d hz hd hFree hNot
    obtain ⟨hz, hzy⟩ := (Placement.live_without _ _ _).mp hz
    have hzx : z ≠ x := by simpa using hNot
    obtain ⟨e, p, he, rfl⟩ := hRelinks.back hzx hzy hd
    exact A.positive z e hz he hFree fun hMem => ((hHeld z).mp hMem).elim hzx hzy

theorem tighten (A : Arranged L recycled held [h] s) (hLive : Live L s.regions h)
    (hc : s.chunks[h]? = some c) (hNext : ∀ n, c.next = some n → Busy s.chunks n)
    (hPrev : ∀ q, c.prev = some q → Busy s.chunks q) : Arranged L recycled held [] s := by
  refine ⟨A.placement, { A.marks with coalesced := ?_ }, A.positive⟩
  intro z n d hz hd hn _ _
  by_cases hEq : z = h
  · subst hEq
    cases hc.symm.trans hd
    exact .inr (hNext n hn)
  · by_cases hEq' : n = h
    · subst hEq'
      obtain ⟨_, _, e, he, hPrev', _⟩ := A.next_ne hz hd hn
      cases hc.symm.trans he
      exact .inl (hPrev z hPrev')
    · exact A.marks.coalesced z n d hz hd hn (by simpa using hEq) (by simpa using hEq')

theorem coalesceNext (A : Arranged L recycled [h] [h] s) (hc : s.chunks[h]? = some c)
    (hPos : 0 < c.size) (hOk : s.coalesceNext h = .ok s') :
    ∃ L' recycled' c', Arranged L' recycled' [h] [h] s' ∧ Frame s s' ∧
      s'.chunks[h]? = some c' ∧ 0 < c'.size ∧ ∀ n, c'.next = some n → Busy s'.chunks n := by
  obtain ⟨hLive, _, _⟩ := A.held_chunk mem_cons_self hc
  obtain ⟨c₁, hFirst, hOk⟩ := bind_eq_ok.mp hOk
  cases hc.symm.trans (chunkFromHandle_eq_ok.mp hFirst)
  split at hOk
  · rename_i hNext
    cases hOk
    refine ⟨L, recycled, c, A, .refl s, hc, hPos, ?_⟩
    intro n hn
    cases hNext.symm.trans hn
  · rename_i n hNext
    obtain ⟨hne, hnLive, d, hd, _⟩ := A.next_ne hLive hc hNext
    obtain ⟨d₁, hSecond, hOk⟩ := bind_eq_ok.mp hOk
    cases hd.symm.trans (chunkFromHandle_eq_ok.mp hSecond)
    split at hOk
    · rename_i hUse
      cases hOk
      refine ⟨L, recycled, c, A, .refl s, hc, hPos, ?_⟩
      intro m hm
      cases hNext.symm.trans hm
      exact ⟨d, hd, hUse⟩
    · rename_i hUse
      have hFree : d.inUse = false := Bool.not_eq_true _ ▸ hUse
      have hPos' := A.positive n d hnLive hd hFree (by simpa using hne)
      obtain ⟨s₁, hRemove, A₁, hFrame, _, hChunks, hBusy₁⟩ :=
        A.removeFreeChunk hnLive (by simpa using hne) hd hFree
      obtain ⟨s₂, hRemove', hMerge⟩ := bind_eq_ok.mp hOk
      obtain rfl : s₁ = s₂ := ok.inj (hRemove.symm.trans hRemove')
      have hc₁ : s₁.chunks[h]? = some c := by rw [hChunks, getElem?_set_ne (Ne.symm hne), hc]
      have hd₁ : s₁.chunks[n]? = some { d with binNum := none } := by
        rw [hChunks, getElem?_set_self hd]
      obtain ⟨L', A', hFrame', hc', hBusy⟩ := A₁.merge (x := h) (y := n)
        (by simp [or_comm]) (by simp) hc₁ hd₁ hPos hPos' hNext hMerge
      refine ⟨L', _, _, A', hFrame.trans hFrame', hc', Nat.add_pos_left hPos _, ?_⟩
      intro m hm
      rw [hBusy, hBusy₁]
      have hmh : m ≠ h := A.next_next_ne hLive hc hd hPos' hNext hm
      rcases A.marks.coalesced n m d hnLive hd hm (by simpa using hne) (by simpa using hmh)
        with hB | hB
      · exact absurd hB (not_busy hd hFree)
      · exact hB

theorem coalescePrev (A : Arranged L recycled [h] [h] s) (hc : s.chunks[h]? = some c)
    (hPos : 0 < c.size) (hNext : ∀ n, c.next = some n → Busy s.chunks n) {q : ChunkHandle}
    (hOk : s.coalescePrev h = .ok (q, s')) :
    ∃ L' recycled' cq, Arranged L' recycled' [q] [] s' ∧ Frame s s' ∧
      s'.chunks[q]? = some cq ∧ 0 < cq.size := by
  obtain ⟨hLive, _, _⟩ := A.held_chunk mem_cons_self hc
  obtain ⟨c₁, hFirst, hOk⟩ := bind_eq_ok.mp hOk
  cases hc.symm.trans (chunkFromHandle_eq_ok.mp hFirst)
  split at hOk
  · rename_i hPrev
    cases hOk
    refine ⟨L, recycled, c, A.tighten hLive hc hNext ?_, .refl s, hc, hPos⟩
    intro p hp
    cases hPrev.symm.trans hp
  · rename_i p hPrev
    obtain ⟨hne, hpLive, d, hd, hdNext⟩ := A.prev_ne hLive hc hPrev
    obtain ⟨d₁, hSecond, hOk⟩ := bind_eq_ok.mp hOk
    cases hd.symm.trans (chunkFromHandle_eq_ok.mp hSecond)
    split at hOk
    · rename_i hUse
      cases hOk
      refine ⟨L, recycled, c, A.tighten hLive hc hNext ?_, .refl s, hc, hPos⟩
      intro q hq
      cases hPrev.symm.trans hq
      exact ⟨d, hd, hUse⟩
    · rename_i hUse
      have hFree : d.inUse = false := Bool.not_eq_true _ ▸ hUse
      have hPos' := A.positive p d hpLive hd hFree (by simpa using hne)
      obtain ⟨s₁, hRemove, A₁, hFrame, _, hChunks, hBusy₁⟩ :=
        A.removeFreeChunk hpLive (by simpa using hne) hd hFree
      obtain ⟨s₂, hRemove', hOk⟩ := bind_eq_ok.mp hOk
      obtain rfl : s₁ = s₂ := ok.inj (hRemove.symm.trans hRemove')
      obtain ⟨s₃, hMerge, hEnd⟩ := bind_eq_ok.mp hOk
      cases hEnd
      have hc₁ : s₁.chunks[h]? = some c := by rw [hChunks, getElem?_set_ne (Ne.symm hne), hc]
      have hd₁ : s₁.chunks[q]? = some { d with binNum := none } := by
        rw [hChunks, getElem?_set_self hd]
      obtain ⟨L', A', hFrame', hd', hBusy⟩ := A₁.merge (x := q) (y := h)
        (by simp) (by simp) hd₁ hc₁ hPos' hPos hdNext hMerge
      have hpLive' := (A'.held_chunk mem_cons_self hd').1
      refine ⟨L', _, _, A'.tighten hpLive' hd' ?_ ?_, hFrame.trans hFrame', hd',
        Nat.add_pos_left hPos' _⟩
      · intro n hn
        rw [hBusy, hBusy₁]
        exact hNext n hn
      · intro w hw
        rw [hBusy, hBusy₁]
        obtain ⟨_, hwLive, e, he, heNext⟩ := A.prev_ne hpLive hd hw
        have hwh : w ≠ h := Ne.symm (A.next_next_ne hwLive he hd hPos' heNext hdNext)
        rcases A.marks.coalesced w q e hwLive he heNext (by simpa using hwh) (by simpa using hne)
          with hB | hB
        · exact hB
        · exact absurd hB (not_busy hd hFree)

theorem freeAndMaybeCoalesce (A : Arranged L recycled [] [] s) (hLive : Live L s.regions h)
    (hc : s.chunks[h]? = some c) (hPos : 0 < c.size) (hOk : s.freeAndMaybeCoalesce h = .ok s') :
    c.inUse ∧ ∃ L' recycled', Arranged L' recycled' [] [] s' ∧
      Frame
        { s.setChunk h { c with allocationId := -1 } with
          stats := { s.stats with bytesInUse := s.stats.bytesInUse - c.size } } s' := by
  obtain ⟨c₁, hFirst, hOk⟩ := bind_eq_ok.mp hOk
  cases hc.symm.trans (chunkFromHandle_eq_ok.mp hFirst)
  obtain ⟨_, hRequire, hOk⟩ := bind_eq_ok.mp hOk
  have hGuard := require_eq_ok.mp hRequire
  rw [Bool.and_eq_true] at hGuard
  obtain ⟨hUse, hNone⟩ := hGuard
  rw [isNone_iff_eq_none] at hNone
  refine ⟨hUse, ?_⟩
  let s₁ : BFCAllocator :=
    { s.setChunk h { c with allocationId := -1 } with
      stats := { s.stats with bytesInUse := s.stats.bytesInUse - c.size } }
  have hc₁ : s₁.chunks[h]? = some { c with allocationId := -1 } := getElem?_set_self hc
  have A₁ : Arranged L recycled [h] [h] s₁ := by
    refine ⟨A.placement_set hc rfl,
      A.marks.release hLive (A.not_recycled hLive) hc rfl rfl hNone hNone, ?_⟩
    intro z d hz hd hFree hHeld
    have hzh : z ≠ h := by simpa using hHeld
    exact A.positive z d hz ((getElem?_set_ne hzh).symm.trans hd) hFree not_mem_nil
  obtain ⟨s₂, hNext, hOk⟩ := bind_eq_ok.mp hOk
  obtain ⟨L₂, recycled₂, c₂, A₂, hFrame₂, hc₂, hPos₂, hBusy⟩ := A₁.coalesceNext hc₁ hPos hNext
  obtain ⟨⟨q, s₃⟩, hPrev, hInsert⟩ := bind_eq_ok.mp hOk
  obtain ⟨L₃, recycled₃, c₃, A₃, hFrame₃, hc₃, hPos₃⟩ := A₂.coalescePrev hc₂ hPos₂ hBusy hPrev
  obtain ⟨s₄, hInsert', A', hFrame', _⟩ := A₃.insertFreeChunk not_mem_nil hc₃ hPos₃
  obtain rfl : s₄ = s' := ok.inj (hInsert'.symm.trans hInsert)
  exact ⟨L₃, recycled₃, A', (hFrame₂.trans hFrame₃).trans hFrame'⟩

end Arranged

end TensorFlowOnSpark.CommonRuntime
