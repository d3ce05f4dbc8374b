import TensorFlowOnSpark.Lib.Segment
import TensorFlowOnSpark.CommonRuntime.BfcAllocator

/-!
# How chunks lie in the regions

A layout lists the handles of the chunks of each region, in address order.
-/

namespace TensorFlowOnSpark.CommonRuntime

open Linked List Function RegionManager Option

def Chunk.cell (c : Chunk) : Cell := ⟨c.ptr, c.size, c.prev, c.next⟩

def cellsOf (chunks : List Chunk) (h : ChunkHandle) : Option Cell := chunks[h]?.map Chunk.cell

abbrev Layout := Nat → List ChunkHandle

structure AllocationRegion.Proper (r : AllocationRegion) : Prop where
  nonNull : 0 < r.ptr
  nonEmpty : 0 < r.memorySize
  aligned : 256 ∣ r.memorySize
  indexed : r.memorySize ≤ 2 ^ 39
  fits : r.ptr + r.memorySize < 2 ^ 64

def Live (L : Layout) (regions : List AllocationRegion) (h : ChunkHandle) : Prop :=
  ∃ r ∈ regions, h ∈ L r.ptr

/-- The chunks that are linked from `free_chunks_list_`. -/
def FreeList (cells : Nat → Option Cell) : Option ChunkHandle → List ChunkHandle → Prop
  | head, [] => head = none
  | head, h :: rest => head = some h ∧ ∃ cell, cells h = some cell ∧ FreeList cells cell.next rest

structure Geometry (L : Layout) (recycled : List ChunkHandle) (regions : List AllocationRegion)
    (cells : Nat → Option Cell) (head : Option ChunkHandle) : Prop where
  proper : ∀ r ∈ regions, r.Proper
  sorted : regions.Pairwise fun r r' => r.ptr + r.memorySize ≤ r'.ptr
  tiles : ∀ r ∈ regions, Segment 256 cells none r.ptr (L r.ptr) none (r.ptr + r.memorySize)
  indexed : ∀ r ∈ regions, ∀ i < r.memorySize / 256, ∀ h, r.handles i = some h ↔
    h ∈ L r.ptr ∧ ∃ cell, cells h = some cell ∧ cell.start = r.ptr + 256 * i
  freeList : FreeList cells head recycled
  nodup : recycled.Nodup
  apart : ∀ h ∈ recycled, ¬Live L regions h
  covered : ∀ h cell, cells h = some cell → h ∈ recycled ∨ Live L regions h

section Regions

variable {r r' : AllocationRegion} {regions : List AllocationRegion} {p : Nat}

theorem sizeT_of_lt {n : Nat} (h : n < 2 ^ 64) : sizeT n = n := by
  rw [sizeT]
  omega

theorem roundedBytes_eq {n : Nat} (h : n ≤ 2 ^ 64 - 256) :
    BFCAllocator.roundedBytes n = (n + 255) / 256 * 256 := by
  have hSum : sizeT (n + 256 - 1) = n + 255 := sizeT_of_lt (by omega)
  have hProduct : sizeT (256 * ((n + 255) / 256)) = 256 * ((n + 255) / 256) :=
    sizeT_of_lt (by omega)
  rw [BFCAllocator.roundedBytes, kMinAllocationSize, hSum, hProduct, Nat.mul_comm]

theorem AllocationRegion.Proper.ends (h : r.Proper) :
    0 < r.memorySize ∧ r.endPtr = r.ptr + r.memorySize :=
  ⟨h.nonEmpty, sizeT_of_lt h.fits⟩

theorem AllocationRegion.Proper.indexFor_eq (h : r.Proper) (hLow : r.ptr ≤ p)
    (hHigh : p < r.ptr + r.memorySize) : r.indexFor p = ((p - r.ptr) / 256 : Nat) := by
  have hBound := h.indexed
  have hOffset : sizeT (p + 2 ^ 64 - r.ptr) = p - r.ptr := by
    rw [sizeT]
    omega
  have hUnit : 2 ^ kMinAllocationBits = 256 := rfl
  unfold indexFor
  simp only [hOffset, hUnit]
  exact Int.bmod_eq_of_le (by omega) (by omega)

theorem AllocationRegion.Proper.index_lt (h : r.Proper) (hLow : r.ptr ≤ p)
    (hHigh : p < r.ptr + r.memorySize) : (p - r.ptr) / 256 < r.memorySize / 256 := by
  obtain ⟨k, hk⟩ := h.aligned
  omega

theorem AllocationRegion.Proper.index_test (h : r.Proper) (hLow : r.ptr ≤ p)
    (hHigh : p < r.ptr + r.memorySize) : 0 ≤ r.indexFor p ∧ r.indexFor p < r.nHandles := by
  rw [h.indexFor_eq hLow hHigh, nHandles, kMinAllocationSize]
  omega

def putHandle (base index : Nat) (h : Option ChunkHandle) (r : AllocationRegion) :
    AllocationRegion :=
  if r.ptr = base then { r with handles := update r.handles index h } else r

@[simp]
theorem putHandle_ptr (base index : Nat) (h : Option ChunkHandle) (r : AllocationRegion) :
    (putHandle base index h r).ptr = r.ptr := by
  rw [putHandle]
  split <;> rfl

@[simp]
theorem putHandle_memorySize (base index : Nat) (h : Option ChunkHandle) (r : AllocationRegion) :
    (putHandle base index h r).memorySize = r.memorySize := by
  rw [putHandle]
  split <;> rfl

theorem AllocationRegion.Proper.putHandle (hr : r.Proper) (base index : Nat)
    (h : Option ChunkHandle) : (putHandle base index h r).Proper := by
  rw [CommonRuntime.putHandle]
  split
  · exact ⟨hr.nonNull, hr.nonEmpty, hr.aligned, hr.indexed, hr.fits⟩
  · exact hr

section Find

variable (hEnds : ∀ r ∈ regions, 0 < r.memorySize ∧ r.endPtr = r.ptr + r.memorySize)
  (hSorted : regions.Pairwise fun r r' => r.ptr + r.memorySize ≤ r'.ptr) (hr : r ∈ regions)
  (hLow : r.ptr ≤ p) (hHigh : p < r.ptr + r.memorySize)

include hEnds hSorted hr hLow hHigh

theorem getHandle_at : getHandle p regions = r.getHandle p := by
  induction regions with
  | nil => cases hr
  | cons first rest ih =>
    obtain ⟨hBefore, hSorted'⟩ := pairwise_cons.mp hSorted
    rw [getHandle, (hEnds first mem_cons_self).2]
    rcases mem_cons.mp hr with rfl | hr'
    · rw [if_pos hHigh]
    · have hLe := hBefore r hr'
      rw [if_neg (by omega)]
      exact ih (fun x hx => hEnds x (mem_cons_of_mem _ hx)) hSorted' hr'

theorem setHandle_at (h : Option ChunkHandle) : setHandle p h regions =
    if 0 ≤ r.indexFor p ∧ r.indexFor p < r.nHandles then
      .ok (regions.map (putHandle r.ptr (r.indexFor p).toNat h))
    else .error (.check .handleIndex) := by
  induction regions with
  | nil => cases hr
  | cons first rest ih =>
    obtain ⟨hBefore, hSorted'⟩ := pairwise_cons.mp hSorted
    obtain ⟨hPos, hEnd⟩ := hEnds first mem_cons_self
    rw [setHandle, hEnd, map_cons]
    rcases mem_cons.mp hr with rfl | hr'
    · have hRest : rest.map (putHandle r.ptr (r.indexFor p).toNat h) = rest := by
        refine (map_congr_left fun x hx => ?_).trans (map_id rest)
        have hLe := hBefore x hx
        rw [putHandle, if_neg (by omega), id]
      rw [if_pos hHigh, AllocationRegion.setHandle, hRest, putHandle, if_pos rfl]
      split <;> rfl
    · have hLe := hBefore r hr'
      have hKept : putHandle r.ptr (r.indexFor p).toNat h first = first := if_neg (by omega)
      rw [if_neg (by omega), ih (fun x hx => hEnds x (mem_cons_of_mem _ hx)) hSorted' hr', hKept]
      split <;> rfl

end Find

section Proper

variable (hProper : ∀ r ∈ regions, r.Proper)
  (hSorted : regions.Pairwise fun r r' => r.ptr + r.memorySize ≤ r'.ptr) (hr : r ∈ regions)
  (hLow : r.ptr ≤ p) (hHigh : p < r.ptr + r.memorySize)

include hProper hSorted hr hLow hHigh

theorem getHandle_eq : getHandle p regions = .ok (r.handles ((p - r.ptr) / 256)) := by
  have hAt := hProper r hr
  rw [getHandle_at (fun r hr => (hProper r hr).ends) hSorted hr hLow hHigh,
    AllocationRegion.getHandle, if_pos (hAt.index_test hLow hHigh), hAt.indexFor_eq hLow hHigh,
    Int.toNat_natCast]

theorem setHandle_eq (h : Option ChunkHandle) : setHandle p h regions =
    .ok (regions.map (putHandle r.ptr ((p - r.ptr) / 256) h)) := by
  have hAt := hProper r hr
  rw [setHandle_at (fun r hr => (hProper r hr).ends) hSorted hr hLow hHigh,
    if_pos (hAt.index_test hLow hHigh), hAt.indexFor_eq hLow hHigh, Int.toNat_natCast]

end Proper

end Regions

theorem FreeList.congr {cells cells' : Nat → Option Cell} {head : Option ChunkHandle}
    {recycled : List ChunkHandle} (h : FreeList cells head recycled)
    (hSame : ∀ x ∈ recycled, cells' x = cells x) : FreeList cells' head recycled := by
  induction recycled generalizing head with
  | nil => exact h
  | cons x rest ih =>
    obtain ⟨hHead, cell, hCell, hRest⟩ := h
    refine ⟨hHead, cell, ?_, ih hRest fun y hy => hSame y (mem_cons_of_mem _ hy)⟩
    rw [hSame x mem_cons_self, hCell]

namespace Geometry

variable {L : Layout} {recycled recycled' : List ChunkHandle} {regions : List AllocationRegion}
  {cells cells' : Nat → Option Cell} {head head' : Option ChunkHandle} {r r' : AllocationRegion}
  {x y : ChunkHandle}

section

variable (G : Geometry L recycled regions cells head)
include G

section

variable (hr : r ∈ regions)

include hr

theorem region_unique
    (hr' : r' ∈ regions) {p : Nat} (hLow : r.ptr ≤ p) (hHigh : p < r.ptr + r.memorySize)
    (hLow' : r'.ptr ≤ p) (hHigh' : p < r'.ptr + r'.memorySize) : r = r' := by
  rcases eq_or_of_pairwise G.sorted hr hr' with hEq | hLe | hLe
  · exact hEq
  · omega
  · omega

theorem region_eq (hr' : r' ∈ regions) (hPtr : r.ptr = r'.ptr) : r = r' := by
  have hPos := (G.proper r hr).nonEmpty
  have hPos' := (G.proper r' hr').nonEmpty
  exact G.region_unique hr hr' (Nat.le_refl _) (by omega) (by omega) (by omega)

theorem mem (hx : x ∈ L r.ptr) :
    ∃ cell, cells x = some cell ∧ 0 < cell.size ∧ 256 ∣ cell.size ∧ r.ptr ≤ cell.start ∧
      256 ∣ cell.start - r.ptr ∧ cell.start + cell.size ≤ r.ptr + r.memorySize :=
  (G.tiles r hr).mem hx

theorem same_region
    (hr' : r' ∈ regions) (hx : x ∈ L r.ptr) (hx' : x ∈ L r'.ptr) : r = r' := by
  obtain ⟨cell, hCell, hPos, _, hLow, _, hHigh⟩ := G.mem hr hx
  obtain ⟨cell', hCell', _, _, hLow', _, hHigh'⟩ := G.mem hr' hx'
  cases hCell.symm.trans hCell'
  exact G.region_unique hr hr' hLow (by omega) hLow' (by omega)

end

end

variable {cx cy : Cell}

section

variable (G : Geometry L recycled regions cells head)
include G

theorem disjoint (hx : Live L regions x) (hy : Live L regions y) (hne : x ≠ y)
    (hcx : cells x = some cx) (hcy : cells y = some cy) :
    cx.start + cx.size ≤ cy.start ∨ cy.start + cy.size ≤ cx.start := by
  obtain ⟨r, hr, hx⟩ := hx
  obtain ⟨r', hr', hy⟩ := hy
  obtain ⟨cell, hCell, _, _, hLow, _, hHigh⟩ := G.mem hr hx
  obtain ⟨cell', hCell', _, _, hLow', _, hHigh'⟩ := G.mem hr' hy
  cases hCell.symm.trans hcx
  cases hCell'.symm.trans hcy
  rcases eq_or_of_pairwise G.sorted hr hr' with rfl | hLe | hLe
  · exact (G.tiles r hr).disjoint hx hy hne hcx hcy
  · omega
  · omega

theorem start_inj (hx : Live L regions x) (hy : Live L regions y) (hcx : cells x = some cx)
    (hcy : cells y = some cy) (hStart : cx.start = cy.start) : x = y := by
  by_contra hne
  have hDisjoint := G.disjoint hx hy hne hcx hcy
  obtain ⟨r, hr, hx⟩ := hx
  obtain ⟨r', hr', hy⟩ := hy
  obtain ⟨cell, hCell, hPos, _⟩ := G.mem hr hx
  obtain ⟨cell', hCell', hPos', _⟩ := G.mem hr' hy
  cases hCell.symm.trans hcx
  cases hCell'.symm.trans hcy
  omega

section

variable (hr : r ∈ regions)

include hr

theorem getHandle (hx : x ∈ L r.ptr) (hcx : cells x = some cx) :
    getHandle cx.start regions = .ok (some x) := by
  obtain ⟨cell, hCell, hPos, _, hLow, hUnit, hHigh⟩ := G.mem hr hx
  cases hCell.symm.trans hcx
  have hIndex := (G.proper r hr).index_lt (p := cx.start) hLow (by omega)
  rw [getHandle_eq G.proper G.sorted hr hLow (by omega)]
  congr 1
  refine (G.indexed r hr _ hIndex x).mpr ⟨hx, cx, hcx, ?_⟩
  omega

/-- The chunks of one region are replaced by others, and one handle of it is written. -/
theorem replace
    {chunks : List ChunkHandle} {index : Nat} {value : Option ChunkHandle}
    (hTiles : Segment 256 cells' none r.ptr chunks none (r.ptr + r.memorySize))
    (hIndexed : ∀ i < r.memorySize / 256, ∀ h,
      update r.handles index value i = some h ↔
        h ∈ chunks ∧ ∃ cell, cells' h = some cell ∧ cell.start = r.ptr + 256 * i)
    (hSame : ∀ r' ∈ regions, r' ≠ r → ∀ h ∈ L r'.ptr, cells' h = cells h)
    (hFree : FreeList cells' head' recycled') (hNodup : recycled'.Nodup)
    (hApart : ∀ h ∈ recycled', h ∉ chunks ∧ ∀ r' ∈ regions, r' ≠ r → h ∉ L r'.ptr)
    (hCovered : ∀ h cell, cells' h = some cell →
      h ∈ recycled' ∨ h ∈ chunks ∨ ∃ r' ∈ regions, r' ≠ r ∧ h ∈ L r'.ptr) :
    Geometry (update L r.ptr chunks) recycled'
      (regions.map (putHandle r.ptr index value)) cells' head' := by
  have hOther {r' : AllocationRegion} (hr' : r' ∈ regions) (hne : r' ≠ r) : r'.ptr ≠ r.ptr :=
    fun hPtr => hne (G.region_eq hr' hr hPtr)
  have hLive {h : ChunkHandle} : Live (update L r.ptr chunks)
      (regions.map (putHandle r.ptr index value)) h ↔
        h ∈ chunks ∨ ∃ r' ∈ regions, r' ≠ r ∧ h ∈ L r'.ptr := by
    constructor
    · rintro ⟨r₁, hr₁, hh⟩
      obtain ⟨r', hr', rfl⟩ := mem_map.mp hr₁
      rw [putHandle_ptr] at hh
      by_cases hEq : r' = r
      · subst hEq
        rw [update_self] at hh
        exact .inl hh
      · rw [update_of_ne (hOther hr' hEq)] at hh
        exact .inr ⟨r', hr', hEq, hh⟩
    · rintro (hh | ⟨r', hr', hne, hh⟩)
      · refine ⟨_, mem_map_of_mem hr, ?_⟩
        rw [putHandle_ptr, update_self]
        exact hh
      · refine ⟨_, mem_map_of_mem hr', ?_⟩
        rw [putHandle_ptr, update_of_ne (hOther hr' hne)]
        exact hh
  refine ⟨?_, ?_, ?_, ?_, hFree, hNodup, ?_, ?_⟩
  · intro r₁ hr₁
    obtain ⟨r', hr', rfl⟩ := mem_map.mp hr₁
    exact (G.proper r' hr').putHandle _ _ _
  · rw [pairwise_map]
    simpa using G.sorted
  · intro r₁ hr₁
    obtain ⟨r', hr', rfl⟩ := mem_map.mp hr₁
    rw [putHandle_ptr, putHandle_memorySize]
    by_cases hEq : r' = r
    · subst hEq
      rw [update_self]
      exact hTiles
    · rw [update_of_ne (hOther hr' hEq)]
      exact (G.tiles r' hr').congr (hSame r' hr' hEq)
  · intro r₁ hr₁ i hi h
    obtain ⟨r', hr', rfl⟩ := mem_map.mp hr₁
    rw [putHandle_memorySize] at hi
    rw [putHandle]
    by_cases hEq : r' = r
    · subst hEq
      rw [if_pos rfl, update_self]
      exact hIndexed i hi h
    · rw [if_neg (hOther hr' hEq), update_of_ne (hOther hr' hEq), G.indexed r' hr' i hi h]
      refine and_congr_right fun hh => ?_
      rw [hSame r' hr' hEq h hh]
  · intro h hh hLive'
    rcases hLive.mp hLive' with hMem | ⟨r', hr', hne, hMem⟩
    · exact (hApart h hh).1 hMem
    · exact (hApart h hh).2 r' hr' hne hMem
  · intro h cell hCell
    exact (hCovered h cell hCell).imp_right hLive.mpr

theorem next_mem
    (hx : x ∈ L r.ptr) (hcx : cells x = some cx) (hNext : cx.next = some y) :
    y ∈ L r.ptr ∧ ∃ cy, cells y = some cy ∧ cy.prev = some x ∧ cy.start = cx.start + cx.size := by
  obtain ⟨before, after, hList, hCell⟩ := (G.tiles r hr).split_next hx hcx hNext
  rw [hList]
  exact ⟨by simp, hCell⟩

theorem prev_mem
    (hx : x ∈ L r.ptr) (hcx : cells x = some cx) (hPrev : cx.prev = some y) :
    y ∈ L r.ptr ∧ ∃ cy, cells y = some cy ∧ cy.next = some x ∧ cx.start = cy.start + cy.size := by
  obtain ⟨before, after, hList, hCell⟩ := (G.tiles r hr).split_prev hx hcx hPrev
  rw [hList]
  exact ⟨by simp, hCell⟩

theorem not_recycled
    (hx : x ∈ L r.ptr) : x ∉ recycled := fun hMem => G.apart x hMem ⟨r, hr, hx⟩

end

end

theorem start_iff {follows : Option Nat} {link p : Nat} {z : ChunkHandle}
    (h : Relinks cells cells' x y follows link) (hx : z ≠ x) (hy : z ≠ y) :
    (∃ cell, cells' z = some cell ∧ cell.start = p) ↔ ∃ cell, cells z = some cell ∧
      cell.start = p := by
  rw [h z hx hy]
  split
  · cases cells z <;> simp
  · exact Iff.rfl

theorem isSome_of_relinks {follows : Option Nat} {link : Nat} {z : ChunkHandle}
    (h : Relinks cells cells' x y follows link) (hx : z ≠ x) (hy : z ≠ y) {cell : Cell}
    (hCell : cells' z = some cell) : ∃ cell', cells z = some cell' := by
  rw [h z hx hy] at hCell
  split at hCell
  · obtain ⟨cell', hCell', _⟩ := map_eq_some_iff.mp hCell
    exact ⟨cell', hCell'⟩
  · exact ⟨cell, hCell⟩

theorem split (G : Geometry L recycled regions cells head) (hr : r ∈ regions) (hx : x ∈ L r.ptr)
    (hcx : cells x = some cx) {kept : Nat} (hKept : 0 < kept) (hUnit : 256 ∣ kept)
    (hSize : kept < cx.size) (hy : ¬Live L regions y)
    (hRelinks : Relinks cells cells' x y cx.next y)
    (hx' : cells' x = some { cx with size := kept, next := some y })
    (hy' : cells' y = some ⟨cx.start + kept, cx.size - kept, some x, cx.next⟩)
    (hFree : FreeList cells head' recycled') (hNodup : recycled'.Nodup)
    (hRecycled : ∀ h, h ∈ recycled' ↔ h ∈ recycled ∧ h ≠ y) :
    ∃ chunks : List ChunkHandle, (∀ z, z ∈ chunks ↔ z ∈ L r.ptr ∨ z = y) ∧
      Geometry (update L r.ptr chunks) recycled'
        (regions.map (putHandle r.ptr ((cx.start + kept - r.ptr) / 256) (some y)))
          cells' head' := by
  have hyL : y ∉ L r.ptr := fun hMem => hy ⟨r, hr, hMem⟩
  obtain ⟨cell, hCell, hPos, hUnit', hLow, hOffset, hHigh⟩ := G.mem hr hx
  cases hCell.symm.trans hcx
  obtain ⟨before, after, hList⟩ := append_of_mem hx
  have hMem : ∀ z, z ∈ before ++ x :: y :: after ↔ z ∈ L r.ptr ∨ z = y := by
    intro z
    grind
  refine ⟨before ++ x :: y :: after, hMem, ?_⟩
  have hSame {z : ChunkHandle} (hzx : z ≠ x) (hzy : z ≠ y) (hz : z ∉ L r.ptr) :
      cells' z = cells z :=
    hRelinks.same hzx hzy fun hNext => hz (G.next_mem hr hx hcx hNext).1
  refine G.replace hr ?_ ?_ ?_ (hFree.congr ?_) hNodup ?_ ?_
  · have hTiles := G.tiles r hr
    rw [hList] at hTiles hyL
    exact hTiles.insert hcx hKept hUnit hSize hyL hRelinks hx' hy'
  · intro i hi h
    have hOld := G.indexed r hr i hi h
    by_cases hEq : i = (cx.start + kept - r.ptr) / 256
    · have hStart : r.ptr + 256 * i = cx.start + kept := by
        omega
      rw [hEq, update_self, some.injEq, hMem, ← hEq, hStart]
      constructor
      · rintro rfl
        exact ⟨.inr rfl, _, hy', rfl⟩
      · rintro ⟨hz | rfl, cell, hCell', hAt⟩
        · exfalso
          by_cases hzx : h = x
          · subst hzx
            cases hx'.symm.trans hCell'
            simp only at hAt
            omega
          · have hzy : h ≠ y := fun hEq' => hyL (hEq' ▸ hz)
            obtain ⟨cell', hCell'', hAt'⟩ := (start_iff hRelinks hzx hzy).mp ⟨cell, hCell', hAt⟩
            obtain ⟨_, hCell₃, hPos', _⟩ := G.mem hr hz
            cases hCell''.symm.trans hCell₃
            have hApart := G.disjoint ⟨r, hr, hz⟩ ⟨r, hr, hx⟩ hzx hCell'' hcx
            omega
        · rfl
    · rw [update_of_ne hEq, hOld, hMem]
      constructor
      · rintro ⟨hz, hAt⟩
        refine ⟨.inl hz, ?_⟩
        by_cases hzx : h = x
        · subst hzx
          obtain ⟨cell, hCell', hAt⟩ := hAt
          cases hCell'.symm.trans hcx
          exact ⟨_, hx', hAt⟩
        · exact (start_iff hRelinks hzx fun hEq' => hyL (hEq' ▸ hz)).mpr hAt
      · rintro ⟨hz | rfl, hAt⟩
        · refine ⟨hz, ?_⟩
          by_cases hzx : h = x
          · subst hzx
            obtain ⟨cell, hCell', hAt⟩ := hAt
            cases hx'.symm.trans hCell'
            exact ⟨_, hcx, hAt⟩
          · exact (start_iff hRelinks hzx fun hEq' => hyL (hEq' ▸ hz)).mp hAt
        · obtain ⟨cell, hCell', hAt⟩ := hAt
          cases hy'.symm.trans hCell'
          simp only at hAt
          exfalso
          omega
  · intro r' hr' hne z hz
    have hzL : z ∉ L r.ptr := fun hz' => hne (G.same_region hr' hr hz hz')
    exact hSame (fun hEq => hzL (hEq ▸ hx)) (fun hEq => hy (hEq ▸ ⟨r', hr', hz⟩)) hzL
  · intro z hz
    obtain ⟨hz, hzy⟩ := (hRecycled z).mp hz
    have hzL : z ∉ L r.ptr := fun hz' => G.not_recycled hr hz' hz
    exact hSame (fun hEq => hzL (hEq ▸ hx)) hzy hzL
  · intro z hz
    obtain ⟨hz, hzy⟩ := (hRecycled z).mp hz
    refine ⟨?_, fun r' hr' _ hz' => G.not_recycled hr' hz' hz⟩
    rw [hMem]
    rintro (hz' | rfl)
    · exact G.not_recycled hr hz' hz
    · exact hzy rfl
  · intro z cell hCell'
    rw [hMem, hRecycled]
    by_cases hzx : z = x
    · exact .inr (.inl (.inl (hzx ▸ hx)))
    · by_cases hzy : z = y
      · exact .inr (.inl (.inr hzy))
      · obtain ⟨cell', hOld⟩ := isSome_of_relinks hRelinks hzx hzy hCell'
        rcases G.covered z cell' hOld with hz | ⟨r', hr', hz⟩
        · exact .inl ⟨hz, hzy⟩
        · by_cases hEq : r' = r
          · exact .inr (.inl (.inl (hEq ▸ hz)))
          · exact .inr (.inr ⟨r', hr', hEq, hz⟩)

theorem merge (G : Geometry L recycled regions cells head) (hr : r ∈ regions) (hx : x ∈ L r.ptr)
    (hcx : cells x = some cx) (hNext : cx.next = some y) (hcy : cells y = some cy)
    (hRelinks : Relinks cells cells' x y cy.next x)
    (hx' : cells' x = some { cx with size := cx.size + cy.size, next := cy.next })
    (hy' : ∃ cell, cells' y = some cell ∧ cell.next = head) :
    ∃ chunks : List ChunkHandle, (∀ z, z ∈ chunks ↔ z ∈ L r.ptr ∧ z ≠ y) ∧
      Geometry (update L r.ptr chunks) (y :: recycled)
        (regions.map (putHandle r.ptr ((cy.start - r.ptr) / 256) none)) cells' (some y) := by
  have hTiles := G.tiles r hr
  obtain ⟨before, after, hList, _⟩ := hTiles.split_next hx hcx hNext
  have hy : y ∈ L r.ptr := (G.next_mem hr hx hcx hNext).1
  have hNodup := hTiles.nodup
  obtain ⟨cell, hCell, hPos, _, hLow, hOffset, hHigh⟩ := G.mem hr hy
  cases hCell.symm.trans hcy
  have hMem : ∀ z, z ∈ before ++ x :: after ↔ z ∈ L r.ptr ∧ z ≠ y := by
    intro z
    grind
  refine ⟨before ++ x :: after, hMem, ?_⟩
  have hSame {z : ChunkHandle} (hz : z ∉ L r.ptr) : cells' z = cells z := by
    refine hRelinks.same (fun hEq => hz (hEq ▸ hx)) (fun hEq => hz (hEq ▸ hy)) ?_
    exact fun hNext' => hz (G.next_mem hr hy hcy hNext').1
  have hStarts {z p : Nat} (hzy : z ≠ y) : (∃ cell, cells' z = some cell ∧ cell.start = p) ↔
      ∃ cell, cells z = some cell ∧ cell.start = p := by
    by_cases hzx : z = x
    · rw [hzx, hx', hcx]
      simp
    · exact start_iff hRelinks hzx hzy
  refine G.replace hr ?_ ?_ ?_ ⟨rfl, ?_⟩ ?_ ?_ ?_
  · rw [hList] at hTiles
    exact hTiles.remove hcx hcy hRelinks hx'
  · intro i hi h
    rw [hMem]
    by_cases hEq : i = (cy.start - r.ptr) / 256
    · have hStart : r.ptr + 256 * i = cy.start := by
        omega
      rw [hEq, update_self, ← hEq, hStart]
      refine ⟨nofun, ?_⟩
      rintro ⟨⟨hz, hzy⟩, hAt⟩
      obtain ⟨cell, hCell', hAt⟩ := (hStarts hzy).mp hAt
      exact absurd (G.start_inj ⟨r, hr, hz⟩ ⟨r, hr, hy⟩ hCell' hcy hAt) hzy
    · rw [update_of_ne hEq, G.indexed r hr i hi h]
      constructor
      · rintro ⟨hz, hAt⟩
        have hzy : h ≠ y := by
          rintro rfl
          obtain ⟨cell, hCell', hAt⟩ := hAt
          cases hCell'.symm.trans hcy
          omega
        exact ⟨⟨hz, hzy⟩, (hStarts hzy).mpr hAt⟩
      · rintro ⟨⟨hz, hzy⟩, hAt⟩
        exact ⟨hz, (hStarts hzy).mp hAt⟩
  · intro r' hr' hne z hz
    exact hSame fun hz' => hne (G.same_region hr' hr hz hz')
  · obtain ⟨cell, hCell', rfl⟩ := hy'
    exact ⟨cell, hCell', G.freeList.congr fun z hz => hSame fun hz' => G.not_recycled hr hz' hz⟩
  · exact nodup_cons.mpr ⟨G.not_recycled hr hy, G.nodup⟩
  · intro z hz
    rw [hMem]
    rcases mem_cons.mp hz with rfl | hz
    · exact ⟨fun hz' => hz'.2 rfl, fun r' hr' hne hz' => hne (G.same_region hr' hr hz' hy)⟩
    · exact ⟨fun hz' => G.not_recycled hr hz'.1 hz, fun r' hr' _ hz' => G.not_recycled hr' hz' hz⟩
  · intro z cell hCell'
    rw [hMem, mem_cons]
    by_cases hzy : z = y
    · exact .inl (.inl hzy)
    · by_cases hzx : z = x
      · exact .inr (.inl ⟨hzx ▸ hx, hzy⟩)
      · obtain ⟨cell', hOld⟩ := isSome_of_relinks hRelinks hzx hzy hCell'
        rcases G.covered z cell' hOld with hz | ⟨r', hr', hz⟩
        · exact .inl (.inr hz)
        · by_cases hEq : r' = r
          · exact .inr (.inl ⟨hEq ▸ hz, hzy⟩)
          · exact .inr (.inr ⟨r', hr', hEq, hz⟩)

end Geometry

section Extend

variable {r : AllocationRegion} {regions : List AllocationRegion}

theorem mem_insertRegion {other : AllocationRegion} :
    other ∈ insertRegion r regions ↔ other = r ∨ other ∈ regions := by
  induction regions with
  | nil => simp [insertRegion]
  | cons first rest ih =>
    rw [insertRegion]
    split
    · rw [mem_cons]
    · rw [mem_cons, ih, mem_cons]
      exact or_left_comm

theorem sorted_insertRegion
    (hEnds : ∀ r' ∈ regions, 0 < r'.memorySize ∧ r'.endPtr = r'.ptr + r'.memorySize)
    (hSorted : regions.Pairwise fun r r' => r.ptr + r.memorySize ≤ r'.ptr)
    (hApart : ∀ r' ∈ regions, r.ptr + r.memorySize ≤ r'.ptr ∨ r'.ptr + r'.memorySize ≤ r.ptr) :
    (insertRegion r regions).Pairwise fun r r' =>
      r.ptr + r.memorySize ≤ r'.ptr := by
  induction regions with
  | nil => exact pairwise_singleton _ _
  | cons first rest ih =>
    obtain ⟨hBefore, hSorted'⟩ := pairwise_cons.mp hSorted
    obtain ⟨hPos, hEnd⟩ := hEnds first mem_cons_self
    have hSide := hApart first mem_cons_self
    rw [insertRegion, hEnd]
    split
    · refine pairwise_cons.mpr ⟨?_, hSorted⟩
      intro other hOther
      rcases mem_cons.mp hOther with rfl | hOther
      · omega
      · have hLe := hBefore other hOther
        omega
    · refine pairwise_cons.mpr ⟨?_, ih (fun x hx => hEnds x (mem_cons_of_mem _ hx))
        hSorted' fun x hx => hApart x (mem_cons_of_mem _ hx)⟩
      intro other hOther
      rcases mem_insertRegion.mp hOther with rfl | hOther
      · omega
      · exact hBefore other hOther

end Extend

namespace Geometry

variable {L : Layout} {recycled recycled' : List ChunkHandle} {regions : List AllocationRegion}
  {cells cells' : Nat → Option Cell} {head head' : Option ChunkHandle} {r : AllocationRegion}
  {y : ChunkHandle}

/-- A region that is one chunk. -/
theorem extend (G : Geometry L recycled regions cells head) {p bytes : Nat}
    (hr : AllocationRegion.Proper ⟨p, bytes, fun _ => none⟩)
    (hApart : ∀ r' ∈ regions, p + bytes ≤ r'.ptr ∨ r'.ptr + r'.memorySize ≤ p)
    (hy : ¬Live L regions y) (hSame : ∀ z, z ≠ y → cells' z = cells z)
    (hy' : cells' y = some ⟨p, bytes, none, none⟩) (hFree : FreeList cells head' recycled')
    (hNodup : recycled'.Nodup) (hRecycled : ∀ h, h ∈ recycled' ↔ h ∈ recycled ∧ h ≠ y) :
    Geometry (update L p [y]) recycled'
      ((insertRegion ⟨p, bytes, fun _ => none⟩ regions).map
        (putHandle p 0 (some y))) cells' head' := by
  have hPos : 0 < bytes := hr.nonEmpty
  have hOther {r' : AllocationRegion} (hr' : r' ∈ regions) : r'.ptr ≠ p := by
    have hSide := hApart r' hr'
    have hPos' := (G.proper r' hr').nonEmpty
    omega
  have hKeep {r' : AllocationRegion} (hr' : r' ∈ regions) : putHandle p 0 (some y) r' = r' := by
    rw [putHandle, if_neg (hOther hr')]
  have hRegions {r' : AllocationRegion} :
      r' ∈ (insertRegion ⟨p, bytes, fun _ => none⟩ regions).map
        (putHandle p 0 (some y)) →
      r' = ⟨p, bytes, update (fun _ => none) 0 (some y)⟩ ∨ r' ∈ regions := by
    intro hMem
    obtain ⟨r₁, hr₁, rfl⟩ := mem_map.mp hMem
    rcases mem_insertRegion.mp hr₁ with rfl | hr₁
    · rw [putHandle, if_pos rfl]
      exact .inl rfl
    · rw [hKeep hr₁]
      exact .inr hr₁
  have hNew : (⟨p, bytes, update (fun _ => none) 0 (some y)⟩ : AllocationRegion) ∈
      (insertRegion ⟨p, bytes, fun _ => none⟩ regions).map
        (putHandle p 0 (some y)) := by
    refine mem_map.mpr ⟨_, mem_insertRegion.mpr (.inl rfl), ?_⟩
    rw [putHandle, if_pos rfl]
  have hOld {r' : AllocationRegion} (hr' : r' ∈ regions) : r' ∈
      (insertRegion ⟨p, bytes, fun _ => none⟩ regions).map
        (putHandle p 0 (some y)) :=
    mem_map.mpr ⟨r', mem_insertRegion.mpr (.inr hr'), hKeep hr'⟩
  have hCells {r' : AllocationRegion} (hr' : r' ∈ regions) : ∀ z ∈ L r'.ptr, cells' z = cells z :=
    fun z hz => hSame z fun hEq => hy (hEq ▸ ⟨r', hr', hz⟩)
  refine ⟨?_, ?_, ?_, ?_, hFree.congr ?_, hNodup, ?_, ?_⟩
  · intro r' hMem
    rcases hRegions hMem with rfl | hr'
    · exact ⟨hr.nonNull, hr.nonEmpty, hr.aligned, hr.indexed, hr.fits⟩
    · exact G.proper r' hr'
  · rw [pairwise_map]
    simpa using sorted_insertRegion (fun r hr => (G.proper r hr).ends) G.sorted hApart
  · intro r' hMem
    rcases hRegions hMem with rfl | hr'
    · rw [update_self]
      exact ⟨bytes, hPos, hr.aligned, hy', rfl⟩
    · rw [update_of_ne (hOther hr')]
      exact (G.tiles r' hr').congr (hCells hr')
  · intro r' hMem i hi h
    rcases hRegions hMem with rfl | hr'
    · rw [update_self]
      simp only [mem_singleton]
      by_cases hZero : i = 0
      · rw [hZero, update_self, some.injEq]
        refine ⟨?_, fun hAt => hAt.1.symm⟩
        rintro rfl
        exact ⟨rfl, _, hy', rfl⟩
      · rw [update_of_ne hZero]
        refine ⟨nofun, ?_⟩
        rintro ⟨rfl, cell, hCell, hAt⟩
        cases hy'.symm.trans hCell
        simp only at hAt
        omega
    · rw [update_of_ne (hOther hr'), G.indexed r' hr' i hi h]
      refine and_congr_right fun hh => ?_
      rw [hCells hr' h hh]
  · intro z hz
    exact hSame z ((hRecycled z).mp hz).2
  · rintro z hz ⟨r', hMem, hLive⟩
    obtain ⟨hz, hzy⟩ := (hRecycled z).mp hz
    rcases hRegions hMem with rfl | hr'
    · rw [update_self, mem_singleton] at hLive
      exact hzy hLive
    · rw [update_of_ne (hOther hr')] at hLive
      exact G.not_recycled hr' hLive hz
  · intro z cell hCell
    by_cases hzy : z = y
    · refine .inr ⟨_, hNew, ?_⟩
      rw [update_self, hzy]
      exact mem_singleton_self _
    · rw [hSame z hzy] at hCell
      rcases G.covered z cell hCell with hz | ⟨r', hr', hz⟩
      · exact .inl ((hRecycled z).mpr ⟨hz, hzy⟩)
      · refine .inr ⟨r', hOld hr', ?_⟩
        rw [update_of_ne (hOther hr')]
        exact hz

end Geometry

end TensorFlowOnSpark.CommonRuntime
