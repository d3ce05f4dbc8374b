import TensorFlowOnSpark.CommonRuntime.BfcBins

/-!
# Splitting, merging and adding chunks

Each of the steps takes a consistent allocator to a consistent one with another layout.
-/

namespace TensorFlowOnSpark.CommonRuntime

open Linked BFCAllocator List Function RegionManager

variable {L L' : Layout} {recycled recycled' held loose : List ChunkHandle} {s : BFCAllocator}
  {h x y z : ChunkHandle} {c c' c₀ : Chunk} {chunks chunks' : List Chunk}
  {regions regions' : List AllocationRegion} {bins : BinNum → FreeChunkSet}
  {head' : Option ChunkHandle}

/-- A record that `AllocateChunk` gives out: a recycled one or one at the end of the vector. -/
structure Fresh (L : Layout) (recycled : List ChunkHandle) (s : BFCAllocator) (y : ChunkHandle)
    (c₀ : Chunk) (chunks : List Chunk) (head' : Option ChunkHandle)
    (recycled' : List ChunkHandle) : Prop where
  chunk : chunks[y]? = some c₀
  free : c₀.inUse = false
  unbinned : c₀.binNum = none
  same : ∀ z, z ≠ y → chunks[z]? = s.chunks[z]?
  dead : ¬Live L s.regions y
  old : ∀ c, s.chunks[y]? = some c → c.binNum = none
  freeList : FreeList (cellsOf s.chunks) head' recycled'
  nodup : recycled'.Nodup
  rest : ∀ h, h ∈ recycled' ↔ h ∈ recycled ∧ h ≠ y
  usage : usage chunks = usage s.chunks
  grows : chunks.length ≤ s.chunks.length + 1

/-- `AllocateChunk` gives out a fresh record unless the vector of the records is full; it reads
nothing but the records and the list of the recycled ones. -/
theorem Marks.allocateChunk (M : Marks L recycled held loose s.regions s.chunks s.bins)
    (hList : FreeList (cellsOf s.chunks) s.freeChunksList recycled) (hNodup : recycled.Nodup)
    (hApart : ∀ h ∈ recycled, ¬Live L s.regions h)
    (hChunk : ∀ h, Live L s.regions h → ∃ c, s.chunks[h]? = some c) :
    ∃ y c₀ chunks head' recycled', Fresh L recycled s y c₀ chunks head' recycled' ∧
      ∀ s₀ : BFCAllocator, s₀.chunks = s.chunks → s₀.freeChunksList = s.freeChunksList →
        s₀.allocateChunk = .ok (y, { s₀ with chunks := chunks, freeChunksList := head' }) ∨
        (recycled = [] ∧ ¬s.chunks.length < 2 ^ 31) ∧ ∀ r, s₀.allocateChunk ≠ .ok r := by
  cases recycled with
  | nil =>
    have hHead : s.freeChunksList = none := hList
    refine ⟨s.chunks.length, ({} : Chunk), s.chunks ++ [({} : Chunk)], none, [],
      ⟨by simp, rfl, rfl, ?_, ?_, by simp, rfl, hNodup, by simp, ?_, by simp⟩, ?_⟩
    · intro z hz
      rw [getElem?_append]
      split
      · rfl
      · rename_i hLt
        have hGt : s.chunks.length < z := Nat.lt_of_le_of_ne (Nat.not_lt.mp hLt) (Ne.symm hz)
        rw [getElem?_eq_none (Nat.le_sub_of_add_le' hGt), getElem?_eq_none (Nat.le_of_lt hGt)]
    · intro hLive
      obtain ⟨c, hc⟩ := hChunk _ hLive
      simp at hc
    · rw [usage_append]
      exact append_nil _
    · intro s₀ hChunks hSame
      rw [hHead] at hSame
      rw [allocateChunk, hSame, hChunks]
      by_cases hRoom : s.chunks.length < 2 ^ 31
      · left
        simp only [if_pos hRoom]
      · right
        simp only [if_neg hRoom]
        exact ⟨⟨trivial, hRoom⟩, fun r hOk => by cases hOk⟩
  | cons y rest =>
    obtain ⟨hHead, cell, hCell, hRest⟩ := hList
    obtain ⟨c, hc, hFree, hNone⟩ := M.idle y mem_cons_self
    cases (cellsOf_eq hc).symm.trans hCell
    obtain ⟨hNot, hNodup'⟩ := nodup_cons.mp hNodup
    refine ⟨y, c, s.chunks, c.next, rest, ⟨hc, hFree, hNone, fun _ _ => rfl,
      hApart y mem_cons_self, ?_, hRest, hNodup', ?_, rfl, Nat.le_succ _⟩, ?_⟩
    · intro d hd
      cases hc.symm.trans hd
      exact hNone
    · intro z
      rw [mem_cons]
      constructor
      · exact fun hz => ⟨.inr hz, fun hEq => hNot (hEq ▸ hz)⟩
      · exact fun hz => hz.1.resolve_left hz.2
    · intro s₀ hChunks hSame
      left
      rw [allocateChunk, hSame, hHead, ← hChunks]
      simp only [chunkFromHandle_eq (hChunks ▸ hc), bind, Except.bind]

theorem Consistent.allocateChunk (S : Consistent L recycled held loose s)
    (hRoom : recycled = [] → s.chunks.length < 2 ^ 31) :
    ∃ y c₀ chunks head' recycled', Fresh L recycled s y c₀ chunks head' recycled' ∧
      ∀ s₀ : BFCAllocator, s₀.chunks = s.chunks → s₀.freeChunksList = s.freeChunksList →
        s₀.allocateChunk = .ok (y, { s₀ with chunks := chunks, freeChunksList := head' }) := by
  obtain ⟨y, c₀, chunks, head', recycled', F, hAlloc⟩ := S.marks.allocateChunk S.geometry.freeList
    S.geometry.nodup S.geometry.apart fun _ => S.live_chunk
  exact ⟨y, c₀, chunks, head', recycled', F, fun s₀ hChunks hList =>
    (hAlloc s₀ hChunks hList).resolve_right fun hFull => hFull.1.2 (hRoom hFull.1.1)⟩

theorem relink_ok (s : BFCAllocator) (follows : Option ChunkHandle) (link : ChunkHandle)
    (hFollows : ∀ n, follows = some n → ∃ c, s.chunks[n]? = some c) :
    ∃ chunks, s.relink follows link = .ok { s with chunks := chunks } ∧
      (∀ z, chunks[z]? = if follows = some z then
        s.chunks[z]?.map fun c => { c with prev := some link } else s.chunks[z]?) ∧
      usage chunks = usage s.chunks := by
  cases follows with
  | none => exact ⟨s.chunks, rfl, fun z => by simp, rfl⟩
  | some n =>
    obtain ⟨c, hc⟩ := hFollows n rfl
    refine ⟨s.chunks.set n { c with prev := some link }, ?_, ?_, usage_set hc rfl fun _ => rfl⟩
    · simp only [relink, chunkFromHandle_eq hc, bind, Except.bind, setChunk]
    · intro z
      by_cases hz : z = n
      · subst hz
        rw [getElem?_set_self hc, if_pos rfl, hc, Option.map_some]
      · rw [getElem?_set_ne hz, if_neg fun hEq => hz (Option.some.inj hEq).symm]

theorem Consistent.size_pos (S : Consistent L recycled held loose s) (hLive : Live L s.regions h)
    (hc : s.chunks[h]? = some c) : 0 < c.size := by
  obtain ⟨r, hr, hh⟩ := hLive
  obtain ⟨cell, hCell, hPos, _⟩ := S.geometry.mem hr hh
  cases (cellsOf_eq hc).symm.trans hCell
  exact hPos

theorem Consistent.next_ne (S : Consistent L recycled held loose s) (hLive : Live L s.regions h)
    (hc : s.chunks[h]? = some c) {n : ChunkHandle} (hNext : c.next = some n) :
    n ≠ h ∧ Live L s.regions n ∧
      ∃ d, s.chunks[n]? = some d ∧ d.prev = some h ∧ d.ptr = c.ptr + c.size := by
  obtain ⟨r, hr, hh⟩ := hLive
  obtain ⟨hn, cell, hCell, hPrev, hStart⟩ := S.geometry.next_mem hr hh (cellsOf_eq hc) hNext
  obtain ⟨d, hd, rfl⟩ := Option.map_eq_some_iff.mp hCell
  refine ⟨?_, ⟨r, hr, hn⟩, d, hd, hPrev, hStart⟩
  rintro rfl
  cases hc.symm.trans hd
  have hPos : 0 < c.cell.size := S.size_pos ⟨r, hr, hh⟩ hc
  omega

theorem Consistent.prev_ne (S : Consistent L recycled held loose s) (hLive : Live L s.regions h)
    (hc : s.chunks[h]? = some c) {p : ChunkHandle} (hPrev : c.prev = some p) :
    p ≠ h ∧ Live L s.regions p ∧
      ∃ d, s.chunks[p]? = some d ∧ d.next = some h ∧ c.ptr = d.ptr + d.size := by
  obtain ⟨r, hr, hh⟩ := hLive
  obtain ⟨hp, cell, hCell, hNext, hStart⟩ := S.geometry.prev_mem hr hh (cellsOf_eq hc) hPrev
  obtain ⟨d, hd, rfl⟩ := Option.map_eq_some_iff.mp hCell
  refine ⟨?_, ⟨r, hr, hp⟩, d, hd, hNext, hStart⟩
  rintro rfl
  cases hc.symm.trans hd
  have hPos : 0 < c.cell.size := S.size_pos ⟨r, hr, hh⟩ hc
  omega

variable {follows : Option ChunkHandle}

variable {link : ChunkHandle}

theorem ChunkRelinks.busy (h : ChunkRelinks chunks chunks' x y follows link)
    (hx : z ≠ x) (hy : z ≠ y) :
    Busy chunks' z ↔ Busy chunks z := by
  constructor
  · rintro ⟨c', hc', hUse⟩
    obtain ⟨c, p, hc, rfl⟩ := h.back hx hy hc'
    exact ⟨c, hc, hUse⟩
  · rintro ⟨c, hc, hUse⟩
    obtain ⟨p, hc'⟩ := h.forth hx hy hc
    exact ⟨_, hc', hUse⟩

theorem ChunkRelinks.key (h : ChunkRelinks chunks chunks' x y follows link)
    (hx : z ≠ x) (hy : z ≠ y) :
    chunks'[z]?.map Chunk.key = chunks[z]?.map Chunk.key := by
  rw [h z hx hy]
  split
  · cases chunks[z]? <;> rfl
  · rfl

/-- The marks after a split of `x`, which keeps a part of its bytes, into `x` and `y`. -/
theorem Marks.split (M : Marks L recycled [x] [] regions chunks bins)
    (hLive : ∀ z, Live L' regions' z ↔ Live L regions z ∨ z = y)
    (hRecycled : ∀ z, z ∈ recycled' ↔ z ∈ recycled ∧ z ≠ y) (hx : x ∉ recycled)
    (hy : ¬Live L regions y) (hOld : ∀ d, chunks[y]? = some d → d.binNum = none)
    (hNextLive : ∀ z d n, Live L regions z → chunks[z]? = some d → d.next = some n →
      Live L regions n)
    (hc : chunks[x]? = some c) (hRelinks : ChunkRelinks chunks chunks' x y c.next y)
    (hx' : chunks'[x]? = some c') (hUse' : c'.inUse = false) (hBin' : c'.binNum = none)
    (hy' : chunks'[y]? = some c₀) (hUse₀ : c₀.inUse = false) (hBin₀ : c₀.binNum = none)
    (hNext₀ : c₀.next = c.next) : Marks L' recycled' [y, x] [x] regions' chunks' bins := by
  have hLiveX := (M.unfiled x mem_cons_self).1
  have hFree : c.inUse = false := by
    obtain ⟨_, d, hd, hFree⟩ := M.unfiled x mem_cons_self
    cases hc.symm.trans hd
    exact hFree
  have hNone : c.binNum = none := by rw [M.filed x c hLiveX hc, if_pos (.inr mem_cons_self)]
  have hOut {b : BinNum} {z : ChunkHandle} (hz : z ∈ bins b) : z ≠ x ∧ z ≠ y := by
    obtain ⟨d, hd, hSome⟩ := (M.binned b z).mp hz
    constructor
    · rintro rfl
      cases hc.symm.trans hd
      cases hNone.symm.trans hSome
    · rintro rfl
      cases (hOld d hd).symm.trans hSome
  refine ⟨?_, ?_, ?_, ?_, ?_, ?_⟩
  · intro z hz
    obtain ⟨hz, hzy⟩ := (hRecycled z).mp hz
    obtain ⟨d, hd, hFree', hNone'⟩ := M.idle z hz
    obtain ⟨p, hd'⟩ := hRelinks.forth (fun hEq => hx (hEq ▸ hz)) hzy hd
    exact ⟨_, hd', hFree', hNone'⟩
  · intro z d hz hd
    by_cases hzx : z = x
    · subst hzx
      cases hx'.symm.trans hd
      rw [hBin', if_pos (.inr (by simp))]
    · by_cases hzy : z = y
      · subst hzy
        cases hy'.symm.trans hd
        rw [hBin₀, if_pos (.inr mem_cons_self)]
      · obtain ⟨e, p, he, rfl⟩ := hRelinks.back hzx hzy hd
        have hFiled := M.filed z e (((hLive z).mp hz).resolve_right hzy) he
        simp only [mem_cons, hzx, hzy, not_mem_nil, or_false] at hFiled ⊢
        exact hFiled
  · intro z hz
    simp only [mem_cons, not_mem_nil, or_false] at hz
    rcases hz with rfl | rfl
    · exact ⟨(hLive z).mpr (.inr rfl), c₀, hy', hUse₀⟩
    · exact ⟨(hLive z).mpr (.inl hLiveX), c', hx', hUse'⟩
  · intro b z
    constructor
    · intro hz
      obtain ⟨hzx, hzy⟩ := hOut hz
      obtain ⟨d, hd, hSome⟩ := (M.binned b z).mp hz
      obtain ⟨p, hd'⟩ := hRelinks.forth hzx hzy hd
      exact ⟨_, hd', hSome⟩
    · rintro ⟨d, hd, hSome⟩
      have hzx : z ≠ x := by
        rintro rfl
        cases hx'.symm.trans hd
        cases hBin'.symm.trans hSome
      have hzy : z ≠ y := by
        rintro rfl
        cases hy'.symm.trans hd
        cases hBin₀.symm.trans hSome
      obtain ⟨e, p, he, rfl⟩ := hRelinks.back hzx hzy hd
      exact (M.binned b z).mpr ⟨e, he, hSome⟩
  · intro b
    refine sorted_congr (M.sorted b) fun z hz => ?_
    obtain ⟨hzx, hzy⟩ := hOut hz
    exact hRelinks.key hzx hzy
  · intro z n d hz hd hNext hzx hnx
    rw [mem_singleton] at hzx hnx
    by_cases hzy : z = y
    · -- the new chunk is followed by what followed the old one, which is in use
      subst hzy
      cases hy'.symm.trans hd
      rw [hNext₀] at hNext
      have hn : Live L regions n := hNextLive x c n hLiveX hc hNext
      have hnz : n ≠ z := fun hEq => hy (hEq ▸ hn)
      rcases M.coalesced x n c hLiveX hc hNext (not_mem_nil) (not_mem_nil) with hB | hB
      · exact absurd hB (not_busy hc hFree)
      · exact .inr ((hRelinks.busy hnx hnz).mpr hB)
    · obtain ⟨e, p, he, rfl⟩ := hRelinks.back hzx hzy hd
      have hzLive := ((hLive z).mp hz).resolve_right hzy
      have hny : n ≠ y := fun hEq => hy (hEq ▸ hNextLive z e n hzLive he hNext)
      exact (M.coalesced z n e hzLive he hNext (not_mem_nil) (not_mem_nil)).imp
        (hRelinks.busy hzx hzy).mpr (hRelinks.busy hnx hny).mpr

variable {value : Option ChunkHandle}

variable {r : AllocationRegion}

theorem live_update {list : List ChunkHandle} {index : Nat}
    {head : Option ChunkHandle} {cells : Nat → Option Cell}
    (G : Geometry L recycled regions cells head) (hr : r ∈ regions) :
    Live (update L r.ptr list) (regions.map (putHandle r.ptr index value)) z ↔
      z ∈ list ∨ Live L regions z ∧ z ∉ L r.ptr := by
  constructor
  · rintro ⟨r₁, hr₁, hz⟩
    obtain ⟨r', hr', rfl⟩ := mem_map.mp hr₁
    rw [putHandle_ptr] at hz
    by_cases hEq : r'.ptr = r.ptr
    · rw [hEq, update_self] at hz
      exact .inl hz
    · rw [update_of_ne hEq] at hz
      refine .inr ⟨⟨r', hr', hz⟩, fun hz' => hEq ?_⟩
      rw [G.same_region hr' hr hz hz']
  · rintro (hz | ⟨⟨r', hr', hz⟩, hNot⟩)
    · refine ⟨_, mem_map_of_mem hr, ?_⟩
      rw [putHandle_ptr, update_self]
      exact hz
    · refine ⟨_, mem_map_of_mem hr', ?_⟩
      have hne : r'.ptr ≠ r.ptr := fun hEq => hNot (hEq ▸ hz)
      rw [putHandle_ptr, update_of_ne hne]
      exact hz

theorem sizes_putHandle {base index : Nat} :
    (regions.map (putHandle base index value)).map AllocationRegion.memorySize =
      regions.map AllocationRegion.memorySize := by
  rw [map_map]
  exact map_congr_left fun r _ => putHandle_memorySize _ _ _ r

/-- The records when `h` was split and `y` holds what is left. -/
theorem splitRecords (F : Fresh L recycled s y c₀ chunks head' recycled') (hhy : h ≠ y)
    (hc : s.chunks[h]? = some c) (hFree : c.inUse = false) {first new : Chunk}
    {s₂ : BFCAllocator} (hChunks : s₂.chunks = (chunks.set y new).set h first)
    (hFirst : first.inUse = false) (hNew : new.inUse = false)
    (hNext : ∀ n, c.next = some n → n ≠ h ∧ n ≠ y ∧ ∃ d, s.chunks[n]? = some d) :
    ∃ chunks₃, s₂.relink c.next y = .ok { s₂ with chunks := chunks₃ } ∧
      chunks₃[h]? = some first ∧ chunks₃[y]? = some new ∧
      ChunkRelinks s.chunks chunks₃ h y c.next y ∧ usage chunks₃ = usage s.chunks := by
  have hc₂ : (chunks.set y new)[h]? = some c := by rw [getElem?_set_ne hhy, F.same h hhy, hc]
  have hOther {z : ChunkHandle} (hzh : z ≠ h) (hzy : z ≠ y) : s₂.chunks[z]? = s.chunks[z]? := by
    rw [hChunks, getElem?_set_ne hzh, getElem?_set_ne hzy, F.same z hzy]
  obtain ⟨chunks₃, hRelink, hAt, hUsage⟩ := relink_ok s₂ c.next y fun n hn => by
    obtain ⟨hnh, hny, d, hd⟩ := hNext n hn
    exact ⟨d, (hOther hnh hny).trans hd⟩
  refine ⟨chunks₃, hRelink, ?_, ?_, fun z hzh hzy => ?_, hUsage.trans ?_⟩
  · rw [hAt, if_neg fun hn => (hNext h hn).1 rfl, hChunks, getElem?_set_self hc₂]
  · rw [hAt, if_neg fun hn => (hNext y hn).2.1 rfl, hChunks, getElem?_set_ne hhy.symm,
      getElem?_set_self F.chunk]
  · rw [hAt, hOther hzh hzy]
  · rw [hChunks]
    calc usage ((chunks.set y new).set h first) = usage (chunks.set y new) :=
          usage_set hc₂ (hFirst.trans hFree.symm) fun hUse =>
            absurd (hFree.symm.trans hUse) Bool.false_ne_true
      _ = usage chunks := usage_set F.chunk (hNew.trans F.free.symm) fun hUse =>
            absurd (F.free.symm.trans hUse) Bool.false_ne_true
      _ = usage s.chunks := F.usage

/-- A held chunk is split, and the rest of it goes into a bin. -/
theorem Consistent.splitChunk (S : Consistent L recycled [h] [] s) (hc : s.chunks[h]? = some c)
    {numBytes : Nat} (hPos : 0 < numBytes) (hUnit : 256 ∣ numBytes)
    (hSize : 2 * numBytes ≤ c.size) (hRoom : recycled = [] → s.chunks.length < 2 ^ 31) :
    ∃ L' recycled' s', s.splitChunk h numBytes = .ok s' ∧
      Consistent L' recycled' [h] [h] s' ∧ Frame s s' ∧
      ∃ c', s'.chunks[h]? = some c' ∧ c'.ptr = c.ptr ∧ c'.size = numBytes := by
  obtain ⟨hLive, d, hd, hFree⟩ := S.marks.unfiled h mem_cons_self
  cases hc.symm.trans hd
  have hNone := S.held_binNum mem_cons_self hc
  obtain ⟨y, c₀, chunks₁, head', recycled', F, hAlloc⟩ := S.allocateChunk hRoom
  have hhy : h ≠ y := fun hEq => F.dead (hEq ▸ hLive)
  obtain ⟨r, hr, hh⟩ := hLive
  obtain ⟨cell, hCell, _, hUnit', hLow, hOffset, hHigh⟩ := S.geometry.mem hr hh
  cases (cellsOf_eq hc).symm.trans hCell
  have hProper := S.geometry.proper r hr
  have hFits := hProper.fits
  simp only [Chunk.cell] at hLow hOffset hHigh hUnit'
  have hPtr : sizeT (c.ptr + numBytes) = c.ptr + numBytes := sizeT_of_lt (by omega)
  have hRest : sizeT (c.size + 2 ^ 64 - numBytes) = c.size - numBytes := by
    rw [sizeT]
    omega
  have hSetHandle := setHandle_eq S.geometry.proper S.geometry.sorted hr (p := c.ptr + numBytes)
    (by omega) (by omega) (some y)
  have hc₁ : chunks₁[h]? = some c := by rw [F.same h hhy, hc]
  have hLive : Live L s.regions h := ⟨r, hr, hh⟩
  let new : Chunk :=
    { c₀ with
      ptr := c.ptr + numBytes
      size := c.size - numBytes
      allocationId := -1
      prev := some h
      next := c.next }
  have hNext (n : ChunkHandle) (hn : c.next = some n) :
      n ≠ h ∧ n ≠ y ∧ ∃ d, s.chunks[n]? = some d := by
    obtain ⟨hne, hLive', d, hd, _⟩ := S.next_ne hLive hc hn
    exact ⟨hne, fun hEq => F.dead (hEq ▸ hLive'), d, hd⟩
  let regions' := s.regions.map (putHandle r.ptr ((c.ptr + numBytes - r.ptr) / 256) (some y))
  let s₂ : BFCAllocator :=
    { s with
      regions := regions'
      chunks := (chunks₁.set y new).set h { c with size := numBytes, next := some y }
      freeChunksList := head' }
  obtain ⟨chunks₃, hRelink, hh₃, hy₃, hRelinks, hUsage⟩ :=
    splitRecords F hhy hc hFree (show s₂.chunks = _ from rfl) hFree rfl hNext
  have hEval : s.splitChunk h numBytes =
      insertFreeChunkIntoBin { s₂ with chunks := chunks₃ } y := by
    have hGuard : (!c.inUse && c.binNum.isNone) := by simp [hFree, hNone]
    rw [BFCAllocator.splitChunk, hAlloc s rfl rfl]
    simp only [bind, Except.bind, chunkFromHandle, hc₁, F.chunk, hGuard, BFCAllocator.setHandle,
      hPtr, hSetHandle, hRest]
    change Except.bind (s₂.relink c.next y) (fun s => s.insertFreeChunkIntoBin y) = _
    rw [hRelink, Except.bind]
  obtain ⟨list, hList, G⟩ := S.geometry.split hr hh (cellsOf_eq hc) hPos hUnit
    (show numBytes < c.size by omega) F.dead hRelinks.cells (cellsOf_eq hh₃) (cellsOf_eq hy₃)
    F.freeList F.nodup F.rest
  have hLives : ∀ z, Live (update L r.ptr list) regions' z ↔ Live L s.regions z ∨ z = y := by
    intro z
    rw [live_update S.geometry hr, hList]
    constructor
    · rintro ((hz | rfl) | ⟨hz, _⟩)
      · exact .inl ⟨r, hr, hz⟩
      · exact .inr rfl
      · exact .inl hz
    · rintro (hz | rfl)
      · by_cases hz' : z ∈ L r.ptr
        · exact .inl (.inl hz')
        · exact .inr ⟨hz, hz'⟩
      · exact .inl (.inr rfl)
  have M := S.marks.split hLives F.rest (S.not_recycled hLive) F.dead F.old
    (fun z d n hz hd hn => (S.next_ne hz hd hn).2.1) hc hRelinks hh₃ hFree hNone hy₃
    (show new.inUse = false from rfl) F.unbinned rfl
  have S₃ : Consistent (update L r.ptr list) recycled' [y, h] [h]
      { s₂ with chunks := chunks₃ } := ⟨G, M⟩
  obtain ⟨s', hInsert, S', hFrame, hSame, _⟩ := S₃.insertFreeChunk (by simpa using hhy.symm)
  have hFrame₃ : Frame s { s₂ with chunks := chunks₃ } :=
    ⟨⟨rfl, rfl, rfl, sizes_putHandle⟩, rfl, rfl, hUsage⟩
  exact ⟨_, _, s', hEval.trans hInsert, S', hFrame₃.trans hFrame, _, (hSame h hhy).trans hh₃, rfl,
    rfl⟩

/-- The marks after `y` was merged into `x`. -/
theorem Marks.merge (M : Marks L recycled held loose regions chunks bins)
    (hHeld : ∀ z, z ∈ held ↔ z = x ∨ z = y) (hLoose : ∀ z ∈ loose, z = x ∨ z = y)
    (hLive : ∀ z, Live L' regions' z ↔ Live L regions z ∧ z ≠ y) (hxy : x ≠ y)
    (hApart : x ∉ recycled ∧ y ∉ recycled)
    (hPrev : ∀ z d, Live L regions z → chunks[z]? = some d → d.next = some y → z = x)
    (hRelinks : ChunkRelinks chunks chunks' x y follows x) (hx' : chunks'[x]? = some c')
    (hUse' : c'.inUse = false) (hBin' : c'.binNum = none) (hy' : chunks'[y]? = some c₀)
    (hUse₀ : c₀.inUse = false) (hBin₀ : c₀.binNum = none) :
    Marks L' (y :: recycled) [x] [x] regions' chunks' bins := by
  have hOut {b : BinNum} {z : ChunkHandle} (hz : z ∈ bins b) : z ≠ x ∧ z ≠ y := by
    obtain ⟨d, hd, hSome⟩ := (M.binned b z).mp hz
    rw [← not_or, ← hHeld]
    intro hMem
    have hFiled := M.filed z d (M.unfiled z hMem).1 hd
    rw [if_pos (.inr hMem), hSome] at hFiled
    cases hFiled
  refine ⟨?_, ?_, ?_, ?_, ?_, ?_⟩
  · intro z hz
    rcases mem_cons.mp hz with rfl | hz
    · exact ⟨c₀, hy', hUse₀, hBin₀⟩
    · obtain ⟨d, hd, hFree', hNone'⟩ := M.idle z hz
      obtain ⟨p, hd'⟩ := hRelinks.forth (fun hEq => hApart.1 (hEq ▸ hz))
        (fun hEq => hApart.2 (hEq ▸ hz)) hd
      exact ⟨_, hd', hFree', hNone'⟩
  · intro z d hz hd
    obtain ⟨hz, hzy⟩ := (hLive z).mp hz
    by_cases hzx : z = x
    · subst hzx
      cases hx'.symm.trans hd
      rw [hBin', if_pos (.inr mem_cons_self)]
    · obtain ⟨e, p, he, rfl⟩ := hRelinks.back hzx hzy hd
      have hFiled := M.filed z e hz he
      simp only [hHeld, mem_singleton, hzy, or_false] at hFiled ⊢
      exact hFiled
  · intro z hz
    obtain rfl := mem_singleton.mp hz
    exact ⟨(hLive z).mpr ⟨(M.unfiled z ((hHeld z).mpr (.inl rfl))).1, hxy⟩, c', hx', hUse'⟩
  · intro b z
    constructor
    · intro hz
      obtain ⟨hzx, hzy⟩ := hOut hz
      obtain ⟨d, hd, hSome⟩ := (M.binned b z).mp hz
      obtain ⟨p, hd'⟩ := hRelinks.forth hzx hzy hd
      exact ⟨_, hd', hSome⟩
    · rintro ⟨d, hd, hSome⟩
      have hzx : z ≠ x := by
        rintro rfl
        cases hx'.symm.trans hd
        cases hBin'.symm.trans hSome
      have hzy : z ≠ y := by
        rintro rfl
        cases hy'.symm.trans hd
        cases hBin₀.symm.trans hSome
      obtain ⟨e, p, he, rfl⟩ := hRelinks.back hzx hzy hd
      exact (M.binned b z).mpr ⟨e, he, hSome⟩
  · intro b
    refine sorted_congr (M.sorted b) fun z hz => ?_
    obtain ⟨hzx, hzy⟩ := hOut hz
    exact hRelinks.key hzx hzy
  · intro z n d hz hd hNext hzx hnx
    rw [mem_singleton] at hzx hnx
    obtain ⟨hz, hzy⟩ := (hLive z).mp hz
    obtain ⟨e, p, he, rfl⟩ := hRelinks.back hzx hzy hd
    have hny : n ≠ y := fun hEq => hzx (hPrev z e hz he (hEq ▸ hNext))
    have hTight {w : ChunkHandle} (hwx : w ≠ x) (hwy : w ≠ y) : w ∉ loose := fun hw =>
      (hLoose w hw).elim hwx hwy
    exact (M.coalesced z n e hz he hNext (hTight hzx hzy) (hTight hnx hny)).imp
      (hRelinks.busy hzx hzy).mpr (hRelinks.busy hnx hny).mpr

/-- The records when `x` has taken the bytes of `y`, whose record is given back. -/
theorem mergeRecords {cx cy merged deleted : Chunk} (hcx : s.chunks[x]? = some cx)
    (hcy : s.chunks[y]? = some cy) (hyx : y ≠ x) (hxFree : cx.inUse = false)
    (hyFree : cy.inUse = false) (hMerged : merged.inUse = false) (hDeleted : deleted.inUse = false)
    (hNext : ∀ n, cy.next = some n → n ≠ x ∧ n ≠ y ∧ ∃ d, s.chunks[n]? = some d) :
    ∃ chunks₂, (s.setChunk x merged).relink cy.next x =
        .ok { s.setChunk x merged with chunks := chunks₂ } ∧ chunks₂[y]? = some cy ∧
      (chunks₂.set y deleted)[x]? = some merged ∧ (chunks₂.set y deleted)[y]? = some deleted ∧
      ChunkRelinks s.chunks (chunks₂.set y deleted) x y cy.next x ∧
      usage (chunks₂.set y deleted) = usage s.chunks ∧
      ∀ z, Busy (chunks₂.set y deleted) z ↔ Busy s.chunks z := by
  have hUnused {c : Chunk} {p : Prop} (hFree : c.inUse = false) (hUse : c.inUse) : p :=
    absurd (hFree.symm.trans hUse) Bool.false_ne_true
  have hOther {z : ChunkHandle} (hzx : z ≠ x) : (s.setChunk x merged).chunks[z]? = s.chunks[z]? :=
    getElem?_set_ne hzx
  obtain ⟨chunks₂, hRelink, hAt, hUsage⟩ := relink_ok (s.setChunk x merged) cy.next x fun n hn => by
    obtain ⟨hnx, _, d, hd⟩ := hNext n hn
    exact ⟨d, (hOther hnx).trans hd⟩
  have hx₂ : chunks₂[x]? = some merged := by
    rw [hAt, if_neg fun hn => (hNext x hn).1 rfl]
    exact getElem?_set_self hcx
  have hy₂ : chunks₂[y]? = some cy := by
    rw [hAt, if_neg fun hn => (hNext y hn).2.1 rfl, hOther hyx, hcy]
  have hx₃ : (chunks₂.set y deleted)[x]? = some merged := by rw [getElem?_set_ne hyx.symm, hx₂]
  have hRelinks : ChunkRelinks s.chunks (chunks₂.set y deleted) x y cy.next x := by
    intro z hzx hzy
    rw [getElem?_set_ne hzy, hAt, hOther hzx]
  refine ⟨chunks₂, hRelink, hy₂, hx₃, getElem?_set_self hy₂, hRelinks, ?_, fun z => ?_⟩
  · calc usage (chunks₂.set y deleted) = usage chunks₂ :=
          usage_set hy₂ (hDeleted.trans hyFree.symm) (hUnused hyFree)
      _ = usage (s.chunks.set x merged) := hUsage
      _ = usage s.chunks := usage_set hcx (hMerged.trans hxFree.symm) (hUnused hxFree)
  · by_cases hzx : z = x
    · subst hzx
      exact iff_of_false (not_busy hx₃ hMerged) (not_busy hcx hxFree)
    · by_cases hzy : z = y
      · subst hzy
        exact iff_of_false (not_busy (getElem?_set_self hy₂) hDeleted) (not_busy hcy hyFree)
      · exact hRelinks.busy hzx hzy

theorem Consistent.merge (S : Consistent L recycled held loose s)
    (hHeld : ∀ z, z ∈ held ↔ z = x ∨ z = y) (hLoose : ∀ z ∈ loose, z = x ∨ z = y) {cx cy : Chunk}
    (hcx : s.chunks[x]? = some cx) (hcy : s.chunks[y]? = some cy) (hNext : cx.next = some y) :
    ∃ L' s', s.merge x y = .ok s' ∧ Consistent L' (y :: recycled) [x] [x] s' ∧ Frame s s' ∧
      s'.chunks[x]? = some { cx with next := cy.next, size := cx.size + cy.size } ∧
      ∀ z, Busy s'.chunks z ↔ Busy s.chunks z := by
  have hxHeld : x ∈ held := (hHeld x).mpr (.inl rfl)
  have hyHeld : y ∈ held := (hHeld y).mpr (.inr rfl)
  have hxLive := (S.marks.unfiled x hxHeld).1
  have hFree {z : ChunkHandle} {c : Chunk} (hz : z ∈ held) (hc : s.chunks[z]? = some c) :
      c.inUse = false := by
    obtain ⟨_, d, hd, hFree⟩ := S.marks.unfiled z hz
    cases hc.symm.trans hd
    exact hFree
  have hxFree := hFree hxHeld hcx
  have hyFree := hFree hyHeld hcy
  have hxNone := S.held_binNum hxHeld hcx
  have hyNone := S.held_binNum hyHeld hcy
  obtain ⟨hyx, hyLive, d, hd, hPrev, hStart⟩ := S.next_ne hxLive hcx hNext
  cases hcy.symm.trans hd
  obtain ⟨r, hr, hx⟩ := hxLive
  have hy : y ∈ L r.ptr := (S.geometry.next_mem hr hx (cellsOf_eq hcx) hNext).1
  obtain ⟨cell, hCell, hPos, _, hLow, _, hHigh⟩ := S.geometry.mem hr hy
  cases (cellsOf_eq hcy).symm.trans hCell
  obtain ⟨cell, hCell, hPos', _, hLow', _⟩ := S.geometry.mem hr hx
  cases (cellsOf_eq hcx).symm.trans hCell
  simp only [Chunk.cell] at hPos hLow hHigh hPos' hLow'
  have hFits := (S.geometry.proper r hr).fits
  have hSum : sizeT (cx.size + cy.size) = cx.size + cy.size := sizeT_of_lt (by omega)
  have hFollows (n : ChunkHandle) (hn : cy.next = some n) :
      n ≠ x ∧ n ≠ y ∧ ∃ d, s.chunks[n]? = some d := by
    obtain ⟨hny, _, d, hd, _, hStart'⟩ := S.next_ne hyLive hcy hn
    refine ⟨?_, hny, d, hd⟩
    rintro rfl
    cases hcx.symm.trans hd
    omega
  let merged : Chunk := { cx with next := cy.next, size := cx.size + cy.size }
  let deleted : Chunk := { cy with next := s.freeChunksList }
  obtain ⟨chunks₂, hRelink, hy₂, hx₃, hy₃, hRelinks, hUsage, hBusy⟩ :=
    mergeRecords hcx hcy hyx hxFree hyFree (show merged.inUse = false from hxFree)
      (show deleted.inUse = false from hyFree) hFollows
  have hSetHandle := setHandle_eq S.geometry.proper S.geometry.sorted hr hLow (by omega) none
  let s₃ : BFCAllocator :=
    { s with
      regions := s.regions.map (putHandle r.ptr ((cy.ptr - r.ptr) / 256) none)
      chunks := chunks₂.set y deleted
      freeChunksList := some y }
  have hEval : s.merge x y = .ok s₃ := by
    rw [BFCAllocator.merge]
    simp only [bind, Except.bind, chunkFromHandle_eq hcx, chunkFromHandle_eq hcy, hxFree, hyFree,
      hPrev, hSum]
    change Except.bind ((s.setChunk x merged).relink cy.next x) (fun s => s.deleteChunk y) = _
    rw [hRelink, Except.bind, deleteChunk]
    simp only [bind, Except.bind, chunkFromHandle, hy₂, BFCAllocator.setHandle,
      setChunk, hSetHandle,
      deallocateChunk]
    rfl
  obtain ⟨list, hList, G⟩ := S.geometry.merge hr hx (cellsOf_eq hcx) hNext (cellsOf_eq hcy)
    hRelinks.cells (cellsOf_eq hx₃) ⟨_, cellsOf_eq hy₃, rfl⟩
  have hLives : ∀ z, Live (update L r.ptr list) s₃.regions z ↔
      Live L s.regions z ∧ z ≠ y := by
    intro z
    rw [live_update S.geometry hr, hList]
    constructor
    · rintro (⟨hz, hzy⟩ | ⟨hz, hz'⟩)
      · exact ⟨⟨r, hr, hz⟩, hzy⟩
      · exact ⟨hz, fun hEq => hz' (hEq ▸ hy)⟩
    · rintro ⟨hz, hzy⟩
      by_cases hz' : z ∈ L r.ptr
      · exact .inl ⟨hz', hzy⟩
      · exact .inr ⟨hz, hz'⟩
  have hUnique : ∀ z d, Live L s.regions z → s.chunks[z]? = some d → d.next = some y → z = x := by
    intro z d hz hd hn
    obtain ⟨_, _, e, he, hPrev', _⟩ := S.next_ne hz hd hn
    cases hcy.symm.trans he
    exact Option.some.inj (hPrev'.symm.trans hPrev)
  have M := S.marks.merge hHeld hLoose hLives hyx.symm
    ⟨S.not_recycled ⟨r, hr, hx⟩, S.not_recycled hyLive⟩ hUnique hRelinks hx₃ hxFree hxNone hy₃
    hyFree hyNone
  exact ⟨_, s₃, hEval, ⟨G, M⟩, ⟨⟨rfl, rfl, rfl, sizes_putHandle⟩, rfl, rfl, hUsage⟩, hx₃,
    hBusy⟩

/-- The marks after a new region `y` was added. -/
theorem Marks.extend (M : Marks L recycled [] [] regions chunks bins)
    (hLive : ∀ z, Live L' regions' z ↔ Live L regions z ∨ z = y)
    (hRecycled : ∀ z, z ∈ recycled' ↔ z ∈ recycled ∧ z ≠ y) (hy : ¬Live L regions y)
    (hOld : ∀ d, chunks[y]? = some d → d.binNum = none)
    (hNextLive : ∀ z d n, Live L regions z → chunks[z]? = some d → d.next = some n →
      Live L regions n)
    (hSame : ∀ z, z ≠ y → chunks'[z]? = chunks[z]?) (hy' : chunks'[y]? = some c₀)
    (hUse₀ : c₀.inUse = false) (hBin₀ : c₀.binNum = none) (hNext₀ : c₀.next = none) :
    Marks L' recycled' [y] [] regions' chunks' bins := by
  have hOut {b : BinNum} {z : ChunkHandle} (hz : z ∈ bins b) : z ≠ y := by
    rintro rfl
    obtain ⟨d, hd, hSome⟩ := (M.binned b z).mp hz
    cases (hOld d hd).symm.trans hSome
  have hBusy {z : ChunkHandle} (hz : z ≠ y) : Busy chunks' z ↔ Busy chunks z := by
    rw [Busy, Busy, hSame z hz]
  refine ⟨?_, ?_, ?_, ?_, ?_, ?_⟩
  · intro z hz
    obtain ⟨hz, hzy⟩ := (hRecycled z).mp hz
    rw [hSame z hzy]
    exact M.idle z hz
  · intro z d hz hd
    by_cases hzy : z = y
    · subst hzy
      cases hy'.symm.trans hd
      rw [hBin₀, if_pos (.inr mem_cons_self)]
    · rw [hSame z hzy] at hd
      have hFiled := M.filed z d (((hLive z).mp hz).resolve_right hzy) hd
      simp only [mem_cons, hzy, not_mem_nil, or_false] at hFiled ⊢
      exact hFiled
  · intro z hz
    obtain rfl := mem_singleton.mp hz
    exact ⟨(hLive z).mpr (.inr rfl), c₀, hy', hUse₀⟩
  · intro b z
    by_cases hzy : z = y
    · subst hzy
      refine iff_of_false (fun hz => hOut hz rfl) ?_
      rintro ⟨d, hd, hSome⟩
      cases hy'.symm.trans hd
      cases hBin₀.symm.trans hSome
    · rw [hSame z hzy]
      exact M.binned b z
  · intro b
    exact sorted_congr (M.sorted b) fun z hz => by rw [hSame z (hOut hz)]
  · intro z n d hz hd hNext _ _
    by_cases hzy : z = y
    · subst hzy
      cases hy'.symm.trans hd
      cases hNext₀.symm.trans hNext
    · rw [hSame z hzy] at hd
      have hzLive := ((hLive z).mp hz).resolve_right hzy
      have hny : n ≠ y := fun hEq => hy (hEq ▸ hNextLive z d n hzLive hd hNext)
      exact (M.coalesced z n d hzLive hd hNext not_mem_nil not_mem_nil).imp
        (hBusy hzy).mpr (hBusy hny).mpr

theorem sum_insertRegion :
    ((insertRegion r regions).map AllocationRegion.memorySize).sum =
      r.memorySize + (regions.map AllocationRegion.memorySize).sum := by
  induction regions with
  | nil => rfl
  | cons first rest ih =>
    rw [insertRegion]
    split
    · rw [map_cons, sum_cons]
    · rw [map_cons, sum_cons, map_cons, sum_cons]
      omega

theorem Consistent.addRegion (S : Consistent L recycled [] [] s) {p bytes : Nat}
    (hProper : AllocationRegion.Proper ⟨p, bytes, fun _ => none⟩)
    (hApart : ∀ r ∈ s.regions, p + bytes ≤ r.ptr ∨ r.ptr + r.memorySize ≤ p)
    (hRoom : recycled = [] → s.chunks.length < 2 ^ 31) :
    ∃ L' recycled' s', s.addRegion p bytes = .ok s' ∧ Consistent L' recycled' [] [] s' ∧
      s'.memoryLimit = s.memoryLimit ∧
      s'.currRegionAllocationBytes = s.currRegionAllocationBytes ∧
      s'.totalRegionAllocatedBytes = sizeT (s.totalRegionAllocatedBytes + bytes) ∧
      s'.nextAllocationId = s.nextAllocationId ∧ s'.stats = s.stats ∧
      (s'.regions.map AllocationRegion.memorySize).sum =
        bytes + (s.regions.map AllocationRegion.memorySize).sum ∧
      usage s'.chunks = usage s.chunks ∧ s'.chunks.length ≤ s.chunks.length + 1 := by
  obtain ⟨y, c₀, chunks₁, head', recycled', F, hAlloc⟩ := S.allocateChunk hRoom
  let region : AllocationRegion := ⟨p, bytes, fun _ => none⟩
  let regions := insertRegion region s.regions
  let s₁ : BFCAllocator :=
    { s with
      totalRegionAllocatedBytes := sizeT (s.totalRegionAllocatedBytes + bytes)
      regions := regions }
  have hPos : 0 < bytes := hProper.nonEmpty
  have hAdd : addAllocationRegion s.regions p bytes = .ok regions := by
    have hMod : bytes % kMinAllocationSize = 0 := Nat.mod_eq_zero_of_dvd hProper.aligned
    rw [addAllocationRegion, if_pos hMod]
  have hSetHandle : setHandle p (some y) regions =
      .ok (regions.map (putHandle p ((p - p) / 256) (some y))) :=
    setHandle_eq (r := region)
      (fun r hr => (mem_insertRegion.mp hr).elim (fun hEq => hEq ▸ hProper) (S.geometry.proper r))
      (sorted_insertRegion (fun r hr => (S.geometry.proper r hr).ends) S.geometry.sorted hApart)
      (mem_insertRegion.mpr (.inl rfl)) (Nat.le_refl _) (Nat.lt_add_of_pos_right hPos) (some y)
  rw [Nat.sub_self] at hSetHandle
  let new : Chunk :=
    { c₀ with ptr := p, size := bytes, allocationId := -1, prev := none, next := none }
  let s₂ : BFCAllocator :=
    { s₁ with
      regions := regions.map (putHandle p 0 (some y))
      chunks := chunks₁.set y new
      freeChunksList := head' }
  have hy₂ : s₂.chunks[y]? = some new := getElem?_set_self F.chunk
  have hSame : ∀ z, z ≠ y → s₂.chunks[z]? = s.chunks[z]? := fun z hz =>
    (getElem?_set_ne hz).trans (F.same z hz)
  have hCells : ∀ z, z ≠ y → cellsOf s₂.chunks z = cellsOf s.chunks z := fun z hz => by
    rw [cellsOf, cellsOf, hSame z hz]
  have hEval : s.addRegion p bytes = s₂.insertFreeChunkIntoBin y := by
    rw [BFCAllocator.addRegion]
    simp only [hAdd, bind, Except.bind]
    rw [hAlloc s₁ rfl rfl]
    simp only [Except.bind, chunkFromHandle, F.chunk, setChunk, BFCAllocator.setHandle, bind]
    rw [show setHandle p (some y) s₁.regions = _ from hSetHandle]
  have G := S.geometry.extend hProper hApart F.dead hCells (cellsOf_eq hy₂) F.freeList F.nodup
    F.rest
  have hOther {r : AllocationRegion} (hr : r ∈ s.regions) : r.ptr ≠ p := by
    have hSide := hApart r hr
    have hPos' := (S.geometry.proper r hr).nonEmpty
    omega
  have hLives : ∀ z, Live (update L p [y]) s₂.regions z ↔ Live L s.regions z ∨ z = y := by
    intro z
    constructor
    · rintro ⟨r₁, hr₁, hz⟩
      obtain ⟨r, hr, rfl⟩ := mem_map.mp hr₁
      rw [putHandle_ptr] at hz
      rcases mem_insertRegion.mp hr with rfl | hr
      · rw [update_self] at hz
        exact .inr (mem_singleton.mp hz)
      · rw [update_of_ne (hOther hr)] at hz
        exact .inl ⟨r, hr, hz⟩
    · rintro (⟨r, hr, hz⟩ | rfl)
      · refine ⟨_, mem_map_of_mem (mem_insertRegion.mpr (.inr hr)), ?_⟩
        rw [putHandle_ptr, update_of_ne (hOther hr)]
        exact hz
      · refine ⟨_, mem_map_of_mem (mem_insertRegion.mpr (.inl rfl)), ?_⟩
        rw [putHandle_ptr, update_self]
        exact mem_singleton_self _
  have M := S.marks.extend hLives F.rest F.dead F.old
    (fun z d n hz hd hn => (S.next_ne hz hd hn).2.1) hSame hy₂ rfl F.unbinned rfl
  have S₂ : Consistent (update L p [y]) recycled' [y] [] s₂ := ⟨G, M⟩
  obtain ⟨s', hInsert, S', hFrame, _, hLength⟩ := S₂.insertFreeChunk not_mem_nil
  refine ⟨_, _, s', hEval.trans hInsert, S', hFrame.limit, hFrame.curr, hFrame.total,
    hFrame.nextId, hFrame.stats, ?_, hFrame.usage.trans ?_, ?_⟩
  · rw [hFrame.sizes, sizes_putHandle, sum_insertRegion]
  · refine Eq.trans ?_ F.usage
    exact usage_set F.chunk F.free.symm fun hUse =>
      absurd (F.free.symm.trans hUse) Bool.false_ne_true
  · rw [hLength, length_set]
    exact F.grows

end TensorFlowOnSpark.CommonRuntime
