import TensorFlowOnSpark.CommonRuntime.BfcLayout

/-!
# Which chunks are free, and in which bin they are

The records of the chunks carry more than the layout: whether a chunk is in use, and the
bin of a free one.
-/

namespace TensorFlowOnSpark.CommonRuntime

open Linked BFCAllocator List Function Option

section Chunks

variable {chunks : List Chunk} {h x y z : ChunkHandle} {c c' : Chunk}

theorem getElem?_set_self (hc : chunks[h]? = some c) : (chunks.set h c')[h]? = some c' := by
  rw [List.getElem?_set_self (List.getElem?_eq_some_iff.mp hc).1]

theorem getElem?_set_ne (hne : x ≠ h) : (chunks.set h c')[x]? = chunks[x]? :=
  List.getElem?_set_ne hne.symm

theorem cellsOf_eq (hc : chunks[h]? = some c) : cellsOf chunks h = some c.cell := by
  rw [cellsOf, hc, map_some]

theorem cellsOf_set (hc : chunks[h]? = some c) (hCell : c'.cell = c.cell) :
    cellsOf (chunks.set h c') = cellsOf chunks := by
  funext x
  by_cases hx : x = h
  · rw [hx, cellsOf_eq hc, cellsOf_eq (getElem?_set_self hc), hCell]
  · rw [cellsOf, cellsOf, getElem?_set_ne hx]

def Busy (chunks : List Chunk) (h : ChunkHandle) : Prop :=
  ∃ c, chunks[h]? = some c ∧ c.inUse

theorem not_busy (hc : chunks[h]? = some c) (hFree : c.inUse = false) : ¬Busy chunks h := by
  rintro ⟨c', hc', hUse⟩
  cases hc.symm.trans hc'
  exact absurd (hFree.symm.trans hUse) Bool.false_ne_true

def usage (chunks : List Chunk) : List (Nat × Nat × Nat) :=
  (chunks.filter Chunk.inUse).map fun c => (c.ptr, c.size, c.requestedSize)

theorem exists_set_eq (hc : chunks[h]? = some c) :
    ∃ before after, chunks = before ++ c :: after ∧
      ∀ c', chunks.set h c' = before ++ c' :: after := by
  induction chunks generalizing h with
  | nil => cases hc
  | cons first rest ih =>
    cases h with
    | zero =>
      cases hc
      exact ⟨[], rest, rfl, fun c' => rfl⟩
    | succ h =>
      obtain ⟨before, after, hEq, hSet⟩ := ih hc
      refine ⟨first :: before, after, by rw [hEq]; rfl, fun c' => ?_⟩
      rw [set_cons_succ, hSet]
      rfl

theorem usage_cons : usage (c :: chunks) =
    if c.inUse then (c.ptr, c.size, c.requestedSize) :: usage chunks else usage chunks := by
  rw [usage, filter_cons]
  split <;> rfl

variable {chunks' : List Chunk}

theorem usage_append :
    usage (chunks ++ chunks') = usage chunks ++ usage chunks' := by
  simp [usage]

theorem usage_set (hc : chunks[h]? = some c) (hUse : c'.inUse = c.inUse)
    (hSame : c.inUse →
      (c'.ptr, c'.size, c'.requestedSize) = (c.ptr, c.size, c.requestedSize)) :
    usage (chunks.set h c') = usage chunks := by
  obtain ⟨before, after, hEq, hSet⟩ := exists_set_eq hc
  rw [hSet, hEq, usage_append, usage_append, usage_cons, usage_cons, hUse]
  split
  · rename_i hInUse
    rw [hSame hInUse]
  · rfl

theorem usage_set_inUse (hc : chunks[h]? = some c) (hFree : c.inUse = false)
    (hUse : c'.inUse) :
    (usage (chunks.set h c')).Perm ((c'.ptr, c'.size, c'.requestedSize) :: usage chunks) := by
  obtain ⟨before, after, hEq, hSet⟩ := exists_set_eq hc
  rw [hSet, hEq, usage_append, usage_append, usage_cons, usage_cons, hUse, hFree]
  exact perm_middle

theorem usage_set_free (hc : chunks[h]? = some c) (hUse : c.inUse)
    (hFree : c'.inUse = false) :
    (usage chunks).Perm ((c.ptr, c.size, c.requestedSize) :: usage (chunks.set h c')) := by
  obtain ⟨before, after, hEq, hSet⟩ := exists_set_eq hc
  rw [hSet, hEq, usage_append, usage_append, usage_cons, usage_cons, hUse, hFree]
  exact perm_middle

theorem mem_usage {u : Nat × Nat × Nat} : u ∈ usage chunks ↔
    ∃ (h : ChunkHandle) (c : Chunk), chunks[h]? = some c ∧ c.inUse = true ∧
      u = (c.ptr, c.size, c.requestedSize) := by
  rw [usage, List.mem_map]
  constructor
  · rintro ⟨c, hc, rfl⟩
    obtain ⟨hMem, hUse⟩ := mem_filter.mp hc
    obtain ⟨h, hh⟩ := mem_iff_getElem?.mp hMem
    exact ⟨h, c, hh, hUse, rfl⟩
  · rintro ⟨h, c, hc, hUse, rfl⟩
    exact ⟨c, mem_filter.mpr ⟨mem_of_getElem? hc, hUse⟩, rfl⟩

theorem chunkLess_iff {cx cy : Chunk} (hx : chunks[x]? = some cx) (hy : chunks[y]? = some cy) :
    chunkLess chunks x y ↔ cx.size < cy.size ∨ cx.size = cy.size ∧ cx.ptr < cy.ptr := by
  rw [chunkLess, hx, hy]
  simp only
  split
  · rw [decide_eq_true_iff]
    omega
  · rw [decide_eq_true_iff]
    omega

def Chunk.key (c : Chunk) : Nat × Nat := (c.size, c.ptr)

theorem chunkLess_congr
    (hx : chunks'[x]?.map Chunk.key = chunks[x]?.map Chunk.key)
    (hy : chunks'[y]?.map Chunk.key = chunks[y]?.map Chunk.key) :
    chunkLess chunks' x y = chunkLess chunks x y := by
  have hKey (l : List Chunk) : chunkLess l x y =
      (l[x]?.map Chunk.key).elim false fun a => (l[y]?.map Chunk.key).elim false fun b =>
        if a.1 ≠ b.1 then a.1 < b.1 else a.2 < b.2 := by
    rw [chunkLess]
    cases l[x]? with
    | none => rfl
    | some a =>
      cases l[y]? with
      | none => rfl
      | some b => rfl
  rw [hKey, hKey, hx, hy]

theorem sorted_congr {l : FreeChunkSet}
    (h : l.Pairwise fun x y => chunkLess chunks x y)
    (hSame : ∀ x ∈ l, chunks'[x]?.map Chunk.key = chunks[x]?.map Chunk.key) :
    l.Pairwise fun x y => chunkLess chunks' x y := by
  refine h.imp_of_mem ?_
  intro x y hx hy hLess
  rw [chunkLess_congr (hSame x hx) (hSame y hy)]
  exact hLess

theorem key_set (hc : chunks[h]? = some c) (hCell : c'.cell = c.cell) :
    (chunks.set h c')[x]?.map Chunk.key = chunks[x]?.map Chunk.key := by
  by_cases hx : x = h
  · subst hx
    have hSize : c'.size = c.size := congrArg Cell.size hCell
    have hPtr : c'.ptr = c.ptr := congrArg Cell.start hCell
    rw [getElem?_set_self hc, hc, map_some, map_some, Chunk.key, Chunk.key, hSize, hPtr]
  · rw [getElem?_set_ne hx]

def ChunkRelinks (chunks chunks' : List Chunk) (x y : ChunkHandle) (follows : Option ChunkHandle)
    (link : ChunkHandle) : Prop :=
  ∀ z, z ≠ x → z ≠ y → chunks'[z]? =
    if follows = some z then chunks[z]?.map fun c => { c with prev := some link } else chunks[z]?

variable {chunks' : List Chunk} {follows : Option ChunkHandle} {link : ChunkHandle}

theorem ChunkRelinks.cells (h : ChunkRelinks chunks chunks' x y follows link) :
    Relinks (cellsOf chunks) (cellsOf chunks') x y follows link := by
  intro z hx hy
  rw [cellsOf, h z hx hy, cellsOf]
  split
  · cases chunks[z]? <;> rfl
  · rfl

theorem ChunkRelinks.forth (h : ChunkRelinks chunks chunks' x y follows link) (hx : z ≠ x)
    (hy : z ≠ y) (hc : chunks[z]? = some c) : ∃ p, chunks'[z]? = some { c with prev := p } := by
  rw [h z hx hy, hc]
  split
  · exact ⟨_, rfl⟩
  · exact ⟨c.prev, rfl⟩

theorem ChunkRelinks.back (h : ChunkRelinks chunks chunks' x y follows link) (hx : z ≠ x)
    (hy : z ≠ y) (hc : chunks'[z]? = some c') :
    ∃ c p, chunks[z]? = some c ∧ c' = { c with prev := p } := by
  rw [h z hx hy] at hc
  split at hc
  · obtain ⟨c, hOld, rfl⟩ := map_eq_some_iff.mp hc
    exact ⟨c, _, hOld, rfl⟩
  · exact ⟨c', c'.prev, hc, rfl⟩

end Chunks

section FreeChunkSets

variable {less : ChunkHandle → ChunkHandle → Bool} {h x : ChunkHandle} {l : FreeChunkSet}

theorem mem_insert (hTotal : ∀ x ∈ l, less h x ∨ less x h) :
    x ∈ FreeChunkSet.insert less h l ↔ x = h ∨ x ∈ l := by
  induction l with
  | nil => simp [FreeChunkSet.insert]
  | cons y rest ih =>
    have ih' := ih fun z hz => hTotal z (mem_cons_of_mem _ hz)
    rw [FreeChunkSet.insert]
    split
    · rw [mem_cons]
    · split
      · rw [mem_cons, ih', mem_cons]
        exact or_left_comm
      · rename_i hNot hNot'
        exact absurd (hTotal y mem_cons_self) (by simp [hNot, hNot'])

theorem sorted_insert (hTotal : ∀ x ∈ l, less h x ∨ less x h)
    (hTrans : ∀ x ∈ l, ∀ y ∈ l, less h x → less x y → less h y)
    (hSorted : l.Pairwise fun x y => less x y) :
    (FreeChunkSet.insert less h l).Pairwise fun x y => less x y := by
  induction l with
  | nil => exact pairwise_singleton _ _
  | cons y rest ih =>
    obtain ⟨hFirst, hRest⟩ := pairwise_cons.mp hSorted
    have hTotal' : ∀ x ∈ rest, less h x ∨ less x h := fun z hz =>
      hTotal z (mem_cons_of_mem _ hz)
    rw [FreeChunkSet.insert]
    split
    · rename_i hLess
      refine pairwise_cons.mpr ⟨?_, hSorted⟩
      intro z hz
      rcases mem_cons.mp hz with rfl | hz
      · exact hLess
      · exact hTrans y mem_cons_self z (mem_cons_of_mem _ hz) hLess (hFirst z hz)
    · split
      · rename_i hLess
        refine pairwise_cons.mpr ⟨?_, ih hTotal' (fun a ha b hb =>
          hTrans a (mem_cons_of_mem _ ha) b (mem_cons_of_mem _ hb)) hRest⟩
        intro z hz
        rcases (mem_insert hTotal').mp hz with rfl | hz
        · exact hLess
        · exact hFirst z hz
      · exact hSorted

theorem erase_eq (hh : h ∈ l) (hSelf : less h h = false)
    (hTotal : ∀ x ∈ l, x ≠ h → less h x ∨ less x h) :
    FreeChunkSet.erase less h l = (1, List.erase l h) := by
  induction l with
  | nil => cases hh
  | cons y rest ih =>
    rw [FreeChunkSet.erase]
    by_cases hEq : y = h
    · rw [hEq, hSelf, erase_cons_head]
      rfl
    · have hOrder : (less h y || less y h) := by
        rw [Bool.or_eq_true]
        exact hTotal y mem_cons_self hEq
      have hRest := ih (mem_of_ne_of_mem (Ne.symm hEq) hh)
        fun z hz => hTotal z (mem_cons_of_mem _ hz)
      rw [hOrder, hRest, erase_cons_tail (by simpa using hEq)]
      rfl

end FreeChunkSets

/-- The records of the chunks, with the chunks that are held or loose. -/
structure Marks (L : Layout) (recycled held loose : List ChunkHandle)
    (regions : List AllocationRegion) (chunks : List Chunk) (bins : BinNum → FreeChunkSet) :
    Prop where
  idle : ∀ h ∈ recycled, ∃ c, chunks[h]? = some c ∧ c.inUse = false ∧ c.binNum = none
  filed : ∀ h c, Live L regions h → chunks[h]? = some c →
    c.binNum = if c.inUse ∨ h ∈ held then none else some (binNumForSize c.size)
  unfiled : ∀ h ∈ held, Live L regions h ∧ ∃ c, chunks[h]? = some c ∧ c.inUse = false
  binned : ∀ b h, h ∈ bins b ↔ ∃ c, chunks[h]? = some c ∧ c.binNum = some b
  sorted : ∀ b, (bins b).Pairwise fun x y => chunkLess chunks x y
  coalesced : ∀ x y c, Live L regions x → chunks[x]? = some c → c.next = some y → x ∉ loose →
    y ∉ loose → Busy chunks x ∨ Busy chunks y

structure Consistent (L : Layout) (recycled held loose : List ChunkHandle) (s : BFCAllocator) :
    Prop where
  geometry : Geometry L recycled s.regions (cellsOf s.chunks) s.freeChunksList
  marks : Marks L recycled held loose s.regions s.chunks s.bins

structure SameMemory (s s' : BFCAllocator) : Prop where
  limit : s'.memoryLimit = s.memoryLimit
  curr : s'.currRegionAllocationBytes = s.currRegionAllocationBytes
  total : s'.totalRegionAllocatedBytes = s.totalRegionAllocatedBytes
  sizes : s'.regions.map AllocationRegion.memorySize = s.regions.map AllocationRegion.memorySize

structure Frame (s s' : BFCAllocator) : Prop extends SameMemory s s' where
  nextId : s'.nextAllocationId = s.nextAllocationId
  stats : s'.stats = s.stats
  usage : usage s'.chunks = usage s.chunks

theorem SameMemory.trans {s s' s'' : BFCAllocator} (h : SameMemory s s') (h' : SameMemory s' s'') :
    SameMemory s s'' :=
  ⟨h'.limit.trans h.limit, h'.curr.trans h.curr, h'.total.trans h.total, h'.sizes.trans h.sizes⟩

theorem Frame.refl (s : BFCAllocator) : Frame s s := ⟨⟨rfl, rfl, rfl, rfl⟩, rfl, rfl, rfl⟩

theorem Frame.trans {s s' s'' : BFCAllocator} (h : Frame s s') (h' : Frame s' s'') : Frame s s'' :=
  ⟨h.toSameMemory.trans h'.toSameMemory, h'.nextId.trans h.nextId, h'.stats.trans h.stats,
    h'.usage.trans h.usage⟩

section Bins

variable {L : Layout} {recycled held loose : List ChunkHandle} {s : BFCAllocator}
  {h x y : ChunkHandle} {c c' : Chunk}

theorem chunkFromHandle_eq (hc : s.chunks[h]? = some c) : s.chunkFromHandle h = .ok c := by
  rw [chunkFromHandle, hc]

section

variable (S : Consistent L recycled held loose s)

include S

theorem Consistent.not_recycled
    (hLive : Live L s.regions h) : h ∉ recycled := fun hMem => S.geometry.apart h hMem hLive

theorem Consistent.live_chunk
    (hLive : Live L s.regions h) : ∃ c, s.chunks[h]? = some c := by
  obtain ⟨r, hr, hh⟩ := hLive
  obtain ⟨cell, hCell, _⟩ := S.geometry.mem hr hh
  obtain ⟨c, hc, _⟩ := map_eq_some_iff.mp hCell
  exact ⟨c, hc⟩

theorem Consistent.live_of_binned {b : BinNum}
    (hh : h ∈ s.bins b) : Live L s.regions h := by
  obtain ⟨c, hc, hBin⟩ := (S.marks.binned b h).mp hh
  refine (S.geometry.covered h c.cell (cellsOf_eq hc)).resolve_left fun hMem => ?_
  obtain ⟨c', hc', _, hNone⟩ := S.marks.idle h hMem
  cases hc.symm.trans hc'
  cases hBin.symm.trans hNone

theorem Consistent.order_total
    (hx : Live L s.regions x) (hy : Live L s.regions y) (hne : x ≠ y) :
    chunkLess s.chunks x y ∨ chunkLess s.chunks y x := by
  obtain ⟨cx, hcx⟩ := S.live_chunk hx
  obtain ⟨cy, hcy⟩ := S.live_chunk hy
  have hStart : cx.ptr ≠ cy.ptr := fun hEq =>
    hne (S.geometry.start_inj hx hy (cellsOf_eq hcx) (cellsOf_eq hcy) hEq)
  rw [chunkLess_iff hcx hcy, chunkLess_iff hcy hcx]
  omega

end

theorem busy_set {chunks : List Chunk} (hc : chunks[h]? = some c) (hUse : c'.inUse = c.inUse) :
    Busy (chunks.set h c') x ↔ Busy chunks x := by
  by_cases hx : x = h
  · subst hx
    rw [Busy, Busy, getElem?_set_self hc, hc]
    simp [hUse]
  · rw [Busy, Busy, getElem?_set_ne hx]

theorem frame_setBins (bins : BinNum → FreeChunkSet) (hc : s.chunks[h]? = some c)
    (hUse : c'.inUse = c.inUse) (hSame : c.inUse →
      (c'.ptr, c'.size, c'.requestedSize) = (c.ptr, c.size, c.requestedSize)) :
    Frame s { s with chunks := s.chunks.set h c', bins := bins } :=
  ⟨⟨rfl, rfl, rfl, rfl⟩, rfl, rfl, usage_set hc hUse hSame⟩

section Filing

variable {regions : List AllocationRegion} {chunks : List Chunk} {bins : BinNum → FreeChunkSet}
  {b : BinNum}

theorem Marks.sorted_set (M : Marks L recycled held loose regions chunks bins)
    (hc : chunks[h]? = some c) (hCell : c'.cell = c.cell) (b : BinNum) :
    (bins b).Pairwise fun x y => chunkLess (chunks.set h c') x y :=
  sorted_congr (M.sorted b) fun _ _ => key_set hc hCell

theorem Marks.coalesced_set (M : Marks L recycled held loose regions chunks bins)
    (hc : chunks[h]? = some c) (hCell : c'.cell = c.cell) (hUse : c'.inUse = c.inUse) :
    ∀ x y d, Live L regions x → (chunks.set h c')[x]? = some d → d.next = some y → x ∉ loose →
      y ∉ loose → Busy (chunks.set h c') x ∨ Busy (chunks.set h c') y := by
  intro x y d hLive hd hNext hx hy
  rw [busy_set hc hUse, busy_set hc hUse]
  by_cases hEq : x = h
  · subst hEq
    cases (getElem?_set_self hc).symm.trans hd
    exact M.coalesced x y c hLive hc ((congrArg Cell.next hCell).symm.trans hNext) hx hy
  · rw [getElem?_set_ne hEq] at hd
    exact M.coalesced x y d hLive hd hNext hx hy

/-- A held chunk goes into the bin of its size. -/
theorem Marks.file (M : Marks L recycled (h :: held) loose regions chunks bins) (hh : h ∉ held)
    (hApart : h ∉ recycled) (hc : chunks[h]? = some c) (hCell : c'.cell = c.cell)
    (hUse : c'.inUse = c.inUse) (hFree : c.inUse = false) (hNone : c.binNum = none)
    (hBin : c'.binNum = some b) (hb : b = binNumForSize c.size)
    (hTotal : ∀ x ∈ bins b, chunkLess chunks h x ∨ chunkLess chunks x h) :
    Marks L recycled held loose regions (chunks.set h c')
      (update bins b (FreeChunkSet.insert (chunkLess (chunks.set h c')) h (bins b))) := by
  have hLess {x y : ChunkHandle} : chunkLess (chunks.set h c') x y = chunkLess chunks x y :=
    chunkLess_congr (key_set hc hCell) (key_set hc hCell)
  have hOut (b' : BinNum) : h ∉ bins b' := by
    intro hMem
    obtain ⟨d, hd, hSome⟩ := (M.binned b' h).mp hMem
    cases hc.symm.trans hd
    cases hNone.symm.trans hSome
  have hTotal' : ∀ x ∈ bins b, chunkLess (chunks.set h c') h x ∨
      chunkLess (chunks.set h c') x h := by
    intro x hx
    rw [hLess, hLess]
    exact hTotal x hx
  have hTrans : ∀ x ∈ bins b, ∀ y ∈ bins b, chunkLess (chunks.set h c') h x →
      chunkLess (chunks.set h c') x y → chunkLess (chunks.set h c') h y := by
    intro x hx y hy hFirst hSecond
    obtain ⟨cx, hcx, _⟩ := (M.binned b x).mp hx
    obtain ⟨cy, hcy, _⟩ := (M.binned b y).mp hy
    rw [hLess, chunkLess_iff hc hcx] at hFirst
    rw [hLess, chunkLess_iff hcx hcy] at hSecond
    rw [hLess, chunkLess_iff hc hcy]
    omega
  refine ⟨?_, ?_, ?_, ?_, ?_, M.coalesced_set hc hCell hUse⟩
  · intro x hx
    rw [getElem?_set_ne (ne_of_mem_of_not_mem hx hApart)]
    exact M.idle x hx
  · intro x d hLive hd
    by_cases hEq : x = h
    · subst hEq
      cases (getElem?_set_self hc).symm.trans hd
      have hSize : c'.size = c.size := congrArg Cell.size hCell
      rw [hBin, hb, hSize, hUse, hFree, if_neg (by simp [hh])]
    · rw [getElem?_set_ne hEq] at hd
      rw [M.filed x d hLive hd]
      simp only [mem_cons, hEq, false_or]
  · intro x hx
    rw [getElem?_set_ne (ne_of_mem_of_not_mem hx hh)]
    exact M.unfiled x (mem_cons_of_mem _ hx)
  · intro b' x
    have hOld : x ∈ bins b' ↔ x ≠ h ∧ ∃ d, (chunks.set h c')[x]? = some d ∧ d.binNum = some b' := by
      constructor
      · intro hx
        have hne : x ≠ h := fun hEq => hOut b' (hEq ▸ hx)
        rw [getElem?_set_ne hne]
        exact ⟨hne, (M.binned b' x).mp hx⟩
      · rintro ⟨hne, hd⟩
        rw [getElem?_set_ne hne] at hd
        exact (M.binned b' x).mpr hd
    have hNew : (∃ d, (chunks.set h c')[h]? = some d ∧ d.binNum = some b') ↔ b' = b := by
      rw [getElem?_set_self hc]
      simp [hBin, eq_comm]
    by_cases hEq : b' = b
    · subst hEq
      rw [update_self, mem_insert hTotal', hOld]
      by_cases hx : x = h
      · subst hx
        simp [hNew]
      · simp [hx]
    · rw [update_of_ne hEq, hOld]
      by_cases hx : x = h
      · subst hx
        simp [hNew, hEq]
      · simp [hx]
  · intro b'
    by_cases hEq : b' = b
    · subst hEq
      rw [update_self]
      exact sorted_insert hTotal' hTrans (M.sorted_set hc hCell b')
    · rw [update_of_ne hEq]
      exact M.sorted_set hc hCell b'

/-- A free chunk is taken out of its bin. -/
theorem Marks.unfile (M : Marks L recycled held loose regions chunks bins)
    (hLive : Live L regions h) (hApart : h ∉ recycled) (hc : chunks[h]? = some c)
    (hCell : c'.cell = c.cell) (hUse : c'.inUse = c.inUse) (hFree : c.inUse = false)
    (hBin : c.binNum = some b) (hNone : c'.binNum = none) :
    Marks L recycled (h :: held) loose regions (chunks.set h c')
      (update bins b (List.erase (bins b) h)) := by
  have hOrder := M.sorted_set hc hCell
  have hNodup : (bins b).Nodup := by
    refine (M.sorted b).imp_of_mem ?_
    intro x y hx _ hLess hEq
    subst hEq
    obtain ⟨cx, hcx, _⟩ := (M.binned b x).mp hx
    rw [chunkLess_iff hcx hcx] at hLess
    omega
  refine ⟨?_, ?_, ?_, ?_, ?_, M.coalesced_set hc hCell hUse⟩
  · intro x hx
    rw [getElem?_set_ne (ne_of_mem_of_not_mem hx hApart)]
    exact M.idle x hx
  · intro x d hLive' hd
    by_cases hEq : x = h
    · subst hEq
      cases (getElem?_set_self hc).symm.trans hd
      rw [hNone, if_pos (.inr mem_cons_self)]
    · rw [getElem?_set_ne hEq] at hd
      rw [M.filed x d hLive' hd]
      simp only [mem_cons, hEq, false_or]
  · intro x hx
    by_cases hEq : x = h
    · subst hEq
      exact ⟨hLive, c', getElem?_set_self hc, hUse.trans hFree⟩
    · rw [getElem?_set_ne hEq]
      exact M.unfiled x (mem_of_ne_of_mem hEq hx)
  · intro b' x
    by_cases hx : x = h
    · subst hx
      rw [getElem?_set_self hc]
      simp only [some.injEq, exists_eq_left', hNone, reduceCtorEq, iff_false]
      by_cases hEq : b' = b
      · rw [hEq, update_self]
        exact hNodup.not_mem_erase
      · rw [update_of_ne hEq, M.binned]
        rintro ⟨d, hd, hSome⟩
        cases hc.symm.trans hd
        exact hEq (some.inj (hSome.symm.trans hBin))
    · rw [getElem?_set_ne hx, ← M.binned]
      by_cases hEq : b' = b
      · rw [hEq, update_self]
        exact mem_erase_of_ne hx
      · rw [update_of_ne hEq]
  · intro b'
    by_cases hEq : b' = b
    · rw [hEq, update_self]
      exact (hOrder b).sublist erase_sublist
    · rw [update_of_ne hEq]
      exact hOrder b'

end Filing

theorem Consistent.held_binNum (S : Consistent L recycled held loose s) (hh : h ∈ held)
    (hc : s.chunks[h]? = some c) : c.binNum = none := by
  rw [S.marks.filed h c (S.marks.unfiled h hh).1 hc, if_pos (.inr hh)]

theorem Consistent.free_binNum (S : Consistent L recycled held loose s)
    (hLive : Live L s.regions h) (hh : h ∉ held) (hc : s.chunks[h]? = some c)
    (hFree : c.inUse = false) : c.binNum = some (binNumForSize c.size) := by
  rw [S.marks.filed h c hLive hc, if_neg (by simp [hFree, hh])]

theorem Consistent.insertFreeChunk (S : Consistent L recycled (h :: held) loose s) (hh : h ∉ held) :
    ∃ s', s.insertFreeChunkIntoBin h = .ok s' ∧ Consistent L recycled held loose s' ∧
      Frame s s' ∧ (∀ z, z ≠ h → s'.chunks[z]? = s.chunks[z]?) ∧
      s'.chunks.length = s.chunks.length := by
  obtain ⟨hLive, c, hc, hFree⟩ := S.marks.unfiled h mem_cons_self
  have hNone := S.held_binNum mem_cons_self hc
  let chunks := s.chunks.set h { c with binNum := some (binNumForSize c.size) }
  let freeChunks := FreeChunkSet.insert (chunkLess chunks) h (s.bins (binNumForSize c.size))
  have hCells : cellsOf chunks = cellsOf s.chunks := cellsOf_set hc rfl
  refine ⟨{ s with
    chunks := chunks, bins := update s.bins (binNumForSize c.size) freeChunks }, ?_,
    ⟨?_, S.marks.file hh (S.not_recycled hLive) hc rfl rfl hFree hNone rfl rfl ?_⟩,
    frame_setBins _ hc rfl fun _ => rfl, fun z hz => getElem?_set_ne hz, length_set⟩
  · rw [insertFreeChunkIntoBin, chunkFromHandle_eq hc]
    simp only [bind, Except.bind, hFree, hNone]
    rfl
  · rw [hCells]
    exact S.geometry
  · intro x hx
    refine S.order_total hLive (S.live_of_binned hx) ?_
    rintro rfl
    obtain ⟨d, hd, hSome⟩ := (S.marks.binned _ h).mp hx
    cases hc.symm.trans hd
    cases hNone.symm.trans hSome

section

variable (S : Consistent L recycled held loose s)

include S

theorem Consistent.unfile (hLive : Live L s.regions h)
    {b : BinNum} (hc : s.chunks[h]? = some c) (hFree : c.inUse = false) (hBin : c.binNum = some b) :
    Consistent L recycled (h :: held) loose
      { s with
        chunks := s.chunks.set h { c with binNum := none }
        bins := update s.bins b (List.erase (s.bins b) h) } := by
  refine ⟨?_, S.marks.unfile hLive (S.not_recycled hLive) hc rfl rfl hFree hBin rfl⟩
  have hCells : cellsOf (s.chunks.set h { c with binNum := none }) = cellsOf s.chunks :=
    cellsOf_set hc rfl
  rw [hCells]
  exact S.geometry

theorem Consistent.removeFreeChunkIter {b : BinNum}
    (hh : h ∈ s.bins b) (hc : s.chunks[h]? = some c) (hFree : c.inUse = false) :
    ∃ s', s.removeFreeChunkIterFromBin b h = .ok s' ∧ Consistent L recycled (h :: held) loose s' ∧
      Frame s s' ∧ s'.chunks = s.chunks.set h { c with binNum := none } := by
  obtain ⟨d, hd, hBin⟩ := (S.marks.binned b h).mp hh
  cases hc.symm.trans hd
  refine ⟨_, ?_, S.unfile (S.live_of_binned hh) hc hFree hBin, frame_setBins _ hc rfl fun _ => rfl,
    rfl⟩
  rw [removeFreeChunkIterFromBin, chunkFromHandle_eq hc]
  simp only [bind, Except.bind, hFree, hBin]
  rfl

theorem Consistent.removeFreeChunk
    (hLive : Live L s.regions h) (hh : h ∉ held) (hc : s.chunks[h]? = some c)
    (hFree : c.inUse = false) :
    ∃ s', s.removeFreeChunkFromBin h = .ok s' ∧ Consistent L recycled (h :: held) loose s' ∧
      Frame s s' ∧ s'.chunks = s.chunks.set h { c with binNum := none } ∧
      ∀ z, Busy s'.chunks z ↔ Busy s.chunks z := by
  have hBin := S.free_binNum hLive hh hc hFree
  have hMem : h ∈ s.bins (binNumForSize c.size) := (S.marks.binned _ h).mpr ⟨c, hc, hBin⟩
  have hSelf : chunkLess s.chunks h h = false := by
    rw [← Bool.not_eq_true, chunkLess_iff hc hc]
    omega
  have hErase := erase_eq hMem hSelf fun x hx hne =>
    S.order_total hLive (S.live_of_binned hx) (Ne.symm hne)
  refine ⟨_, ?_, S.unfile hLive hc hFree hBin, frame_setBins _ hc rfl fun _ => rfl, rfl,
    fun z => busy_set hc rfl⟩
  rw [removeFreeChunkFromBin, chunkFromHandle_eq hc]
  simp only [bind, Except.bind, hFree, hBin, hErase]
  rfl

end

end Bins

end TensorFlowOnSpark.CommonRuntime
