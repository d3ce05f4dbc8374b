import TensorFlowOnSpark.CommonRuntime.BfcLayout
import TensorFlowOnSpark.CommonRuntime.BfcSteps

/-!
# Where chunks lie in regions of any size

A request that rounds to zero bytes leaves a chunk in use that has no bytes, and in a
large region the `int` indices of two addresses can agree.
-/

namespace TensorFlowOnSpark.CommonRuntime

open Linked List Int

/-- A region that the sub-allocator can grant: no object has `2 ^ 63` bytes or more. -/
structure AllocationRegion.Ordinary (r : AllocationRegion) : Prop where
  nonNull : 0 < r.ptr
  nonEmpty : 0 < r.memorySize
  half : r.memorySize < 2 ^ 63
  fits : r.ptr + r.memorySize < 2 ^ 64

def AllocationRegion.slot (r : AllocationRegion) (p : Nat) : Nat := (r.indexFor p).toNat

def AllocationRegion.HasSlot (r : AllocationRegion) (p : Nat) : Prop :=
  0 ≤ r.indexFor p ∧ r.indexFor p < r.nHandles

structure Placement (L : Layout) (recycled : List ChunkHandle) (regions : List AllocationRegion)
    (cells : Nat → Option Cell) (head : Option ChunkHandle) : Prop where
  ordinary : ∀ r ∈ regions, r.Ordinary
  sorted : regions.Pairwise fun r r' => r.ptr + r.memorySize ≤ r'.ptr
  unique : ∀ r ∈ regions, ∀ r' ∈ regions, ∀ h, h ∈ L r.ptr → h ∈ L r'.ptr → r = r'
  inside : ∀ r ∈ regions, ∀ h ∈ L r.ptr, ∃ cell, cells h = some cell ∧ r.ptr ≤ cell.start ∧
    256 ∣ cell.start - r.ptr ∧ cell.start + cell.size ≤ r.ptr + r.memorySize
  disjoint : ∀ x y cx cy, Live L regions x → Live L regions y → x ≠ y → cells x = some cx →
    cells y = some cy → 0 < cx.size → 0 < cy.size →
    cx.start + cx.size ≤ cy.start ∨ cy.start + cy.size ≤ cx.start
  next : ∀ r ∈ regions, ∀ x ∈ L r.ptr, ∀ cx y, cells x = some cx → cx.next = some y →
    y ∈ L r.ptr ∧ y ≠ x ∧
      ∃ cy, cells y = some cy ∧ cy.prev = some x ∧ cy.start = cx.start + cx.size
  prev : ∀ r ∈ regions, ∀ y ∈ L r.ptr, ∀ cy x, cells y = some cy → cy.prev = some x →
    x ∈ L r.ptr ∧ ∃ cx, cells x = some cx ∧ cx.next = some y
  stored : ∀ r ∈ regions, ∀ i h, r.handles i = some h →
    h ∈ L r.ptr ∧ ∃ cell, cells h = some cell ∧ 0 < cell.size ∧ i = r.slot cell.start
  indexed : ∀ r ∈ regions, ∀ h ∈ L r.ptr, ∀ cell, cells h = some cell → 0 < cell.size →
    r.HasSlot cell.start ∧
      (r.memorySize ≤ 2 ^ 40 → r.handles (r.slot cell.start) = some h)
  freeList : FreeList cells head recycled
  nodup : recycled.Nodup
  apart : ∀ h ∈ recycled, ¬Live L regions h
  covered : ∀ h cell, cells h = some cell → h ∈ recycled ∨ Live L regions h

section Regions

variable {r r' : AllocationRegion} {regions regions' : List AllocationRegion} {p q : Nat}
  {value : Option ChunkHandle}

theorem AllocationRegion.Ordinary.ends (h : r.Ordinary) :
    0 < r.memorySize ∧ r.endPtr = r.ptr + r.memorySize :=
  ⟨h.nonEmpty, sizeT_of_lt h.fits⟩

theorem AllocationRegion.Ordinary.putHandle (hr : r.Ordinary) (base index : Nat)
    (h : Option ChunkHandle) : (putHandle base index h r).Ordinary := by
  rw [CommonRuntime.putHandle]
  split
  · exact ⟨hr.nonNull, hr.nonEmpty, hr.half, hr.fits⟩
  · exact hr

theorem ordinary_mem_eq (hSorted : regions.Pairwise fun r r' => r.ptr + r.memorySize ≤ r'.ptr)
    (hr : r ∈ regions) (hr' : r' ∈ regions) (hLow : r.ptr ≤ p) (hHigh : p < r.ptr + r.memorySize)
    (hLow' : r'.ptr ≤ p) (hHigh' : p < r'.ptr + r'.memorySize) : r = r' := by
  rcases eq_or_of_pairwise hSorted hr hr' with hEq | hLe | hLe
  · exact hEq
  · omega
  · omega

theorem ordinary_ptr_inj (hOrdinary : ∀ r ∈ regions, r.Ordinary)
    (hSorted : regions.Pairwise fun r r' => r.ptr + r.memorySize ≤ r'.ptr) (hr : r ∈ regions)
    (hr' : r' ∈ regions) (hPtr : r.ptr = r'.ptr) : r = r' := by
  have hPos := (hOrdinary r hr).nonEmpty
  have hPos' := (hOrdinary r' hr').nonEmpty
  exact ordinary_mem_eq hSorted hr hr' (Nat.le_refl _) (by omega) (by omega) (by omega)

theorem getHandle_ordinary (hOrdinary : ∀ r ∈ regions, r.Ordinary)
    (hSorted : regions.Pairwise fun r r' => r.ptr + r.memorySize ≤ r'.ptr) (hr : r ∈ regions)
    (hLow : r.ptr ≤ p) (hHigh : p < r.ptr + r.memorySize) :
    RegionManager.getHandle p regions = r.getHandle p :=
  getHandle_at (fun r hr => (hOrdinary r hr).ends) hSorted hr hLow hHigh

theorem getHandle_mem {h : ChunkHandle} (hGet : RegionManager.getHandle p regions = .ok (some h)) :
    ∃ r ∈ regions, ∃ i, r.handles i = some h := by
  induction regions with
  | nil => cases hGet
  | cons first rest ih =>
    rw [RegionManager.getHandle] at hGet
    split at hGet
    · rw [AllocationRegion.getHandle] at hGet
      split at hGet
      · exact ⟨first, mem_cons_self, _, Except.ok.inj hGet⟩
      · cases hGet
    · obtain ⟨r, hr, hi⟩ := ih hGet
      exact ⟨r, mem_cons_of_mem _ hr, hi⟩

theorem setHandle_ordinary (hOrdinary : ∀ r ∈ regions, r.Ordinary)
    (hSorted : regions.Pairwise fun r r' => r.ptr + r.memorySize ≤ r'.ptr) (hr : r ∈ regions)
    (hLow : r.ptr ≤ p) (hHigh : p < r.ptr + r.memorySize)
    (hSet : RegionManager.setHandle p value regions = .ok regions') :
    r.HasSlot p ∧ regions' = regions.map (putHandle r.ptr (r.slot p) value) := by
  rw [setHandle_at (fun r hr => (hOrdinary r hr).ends) hSorted hr hLow hHigh] at hSet
  split at hSet
  · rename_i hIndex
    exact ⟨hIndex, (Except.ok.inj hSet).symm⟩
  · cases hSet

theorem setHandle_slot (hOrdinary : ∀ r ∈ regions, r.Ordinary)
    (hSorted : regions.Pairwise fun r r' => r.ptr + r.memorySize ≤ r'.ptr) (hr : r ∈ regions)
    (hLow : r.ptr ≤ p) (hHigh : p < r.ptr + r.memorySize) (hSlot : r.HasSlot p)
    (value : Option ChunkHandle) : RegionManager.setHandle p value regions =
      .ok (regions.map (putHandle r.ptr (r.slot p) value)) :=
  (setHandle_at (fun r hr => (hOrdinary r hr).ends) hSorted hr hLow hHigh value).trans
    (if_pos hSlot)

/-- Up to `2 ^ 39` bytes every address of a region has an index that is not negative. -/
theorem AllocationRegion.Ordinary.hasSlot (h : r.Ordinary) (hBound : r.memorySize ≤ 2 ^ 39)
    (hLow : r.ptr ≤ p) (hHigh : p < r.ptr + r.memorySize) : r.HasSlot p := by
  have hFits := h.fits
  have hOffset : sizeT (p + 2 ^ 64 - r.ptr) = p - r.ptr := by
    rw [sizeT]
    omega
  have hIndex : r.indexFor p = ((p - r.ptr) / 256 : Nat) := by
    have hUnit : 2 ^ kMinAllocationBits = 256 := rfl
    unfold indexFor
    simp only [hOffset, hUnit]
    exact bmod_eq_of_le (by omega) (by omega)
  rw [HasSlot, hIndex, nHandles, kMinAllocationSize]
  omega

theorem AllocationRegion.indexFor_emod (hBound : r.memorySize ≤ 2 ^ 40) (_ : r.Ordinary)
    (hLow : r.ptr ≤ p) (hHigh : p < r.ptr + r.memorySize) :
    r.indexFor p % (2 ^ 32 : Nat) = ((p - r.ptr) / 256 : Nat) := by
  have hOffset : sizeT (p + 2 ^ 64 - r.ptr) = p - r.ptr := by
    rw [sizeT]
    omega
  have hShift : 2 ^ kMinAllocationBits = 256 := rfl
  have hSmall : (p - r.ptr) / 256 < 2 ^ 32 := by omega
  unfold indexFor
  simp only [hOffset]
  exact bmod_emod.trans (emod_eq_of_lt (natCast_nonneg _) (ofNat_lt.mpr hSmall))

theorem AllocationRegion.slot_inj (hBound : r.memorySize ≤ 2 ^ 40) (hFits : r.Ordinary)
    (hLow : r.ptr ≤ p) (hHigh : p < r.ptr + r.memorySize) (hUnit : 256 ∣ p - r.ptr)
    (hSlot : r.HasSlot p) (hLow' : r.ptr ≤ q) (hHigh' : q < r.ptr + r.memorySize)
    (hUnit' : 256 ∣ q - r.ptr) (hSlot' : r.HasSlot q) (hEq : r.slot p = r.slot q) : p = q := by
  have hIndex : r.indexFor p = r.indexFor q := by
    rw [← toNat_of_nonneg hSlot.1, ← toNat_of_nonneg hSlot'.1]
    exact congrArg ofNat hEq
  have hSame : (((p - r.ptr) / 256 : Nat) : Int) = ((q - r.ptr) / 256 : Nat) := by
    rw [← indexFor_emod hBound hFits hLow hHigh, ← indexFor_emod hBound hFits hLow' hHigh', hIndex]
  omega

end Regions

section Relinked

variable {cells cells' : Nat → Option Cell} {x y z : ChunkHandle} {follows : Option Nat}
  {link : Nat} {cell : Cell}

theorem relinks_forth (h : Relinks cells cells' x y follows link) (hx : z ≠ x) (hy : z ≠ y)
    (hCell : cells z = some cell) : ∃ q, cells' z = some { cell with prev := q } ∧
      (follows = some z ∧ q = some link ∨ follows ≠ some z ∧ q = cell.prev) := by
  rw [h z hx hy, hCell]
  split
  · rename_i hFollows
    exact ⟨_, rfl, .inl ⟨hFollows, rfl⟩⟩
  · rename_i hFollows
    exact ⟨_, rfl, .inr ⟨hFollows, rfl⟩⟩

theorem relinks_back (h : Relinks cells cells' x y follows link) (hx : z ≠ x) (hy : z ≠ y)
    {cell' : Cell} (hCell : cells' z = some cell') :
    ∃ cell q, cells z = some cell ∧ cell' = { cell with prev := q } ∧
      (follows = some z ∧ q = some link ∨ follows ≠ some z ∧ q = cell.prev) := by
  obtain ⟨cell, hOld⟩ := Geometry.isSome_of_relinks h hx hy hCell
  obtain ⟨q, hNew, hLink⟩ := relinks_forth h hx hy hOld
  cases hNew.symm.trans hCell
  exact ⟨cell, q, hOld, rfl, hLink⟩

end Relinked

section Tables

variable {r : AllocationRegion} {base index p : Nat} {value : Option ChunkHandle}

@[simp]
theorem putHandle_slot : (putHandle base index value r).slot p = r.slot p := by
  rw [putHandle]
  split <;> rfl

@[simp]
theorem putHandle_hasSlot : (putHandle base index value r).HasSlot p ↔ r.HasSlot p := by
  rw [putHandle]
  split <;> rfl

theorem putHandle_handles (i : Nat) : (putHandle base index value r).handles i =
    if r.ptr = base ∧ i = index then value else r.handles i := by
  rw [putHandle]
  by_cases hPtr : r.ptr = base
  · by_cases hIndex : i = index
    · rw [if_pos hPtr, if_pos ⟨hPtr, hIndex⟩, hIndex]
      exact Function.update_self ..
    · rw [if_pos hPtr, if_neg fun h => hIndex h.2]
      exact Function.update_of_ne hIndex ..
  · rw [if_neg hPtr, if_neg fun h => hPtr h.1]

end Tables

namespace Placement

variable {L : Layout} {recycled recycled' : List ChunkHandle} {regions : List AllocationRegion}
  {cells cells' : Nat → Option Cell} {head head' : Option ChunkHandle} {r r' : AllocationRegion}
  {x y z : ChunkHandle} {cx cy : Cell}

variable (P : Placement L recycled regions cells head)
include P

theorem not_recycled (hr : r ∈ regions)
    (hx : x ∈ L r.ptr) : x ∉ recycled := fun hMem => P.apart x hMem ⟨r, hr, hx⟩

theorem cell (hx : Live L regions x) : ∃ cell, cells x = some cell := by
  obtain ⟨r, hr, hx⟩ := hx
  obtain ⟨cell, hCell, _⟩ := P.inside r hr x hx
  exact ⟨cell, hCell⟩

theorem lies (hr : r ∈ regions) (hx : x ∈ L r.ptr)
    (hcx : cells x = some cx) : r.ptr ≤ cx.start ∧ 256 ∣ cx.start - r.ptr ∧
      cx.start + cx.size ≤ r.ptr + r.memorySize := by
  obtain ⟨cell, hCell, hInside⟩ := P.inside r hr x hx
  cases hcx.symm.trans hCell
  exact hInside

theorem start_inj (hx : Live L regions x)
    (hy : Live L regions y) (hcx : cells x = some cx) (hcy : cells y = some cy)
    (hPos : 0 < cx.size) (hPos' : 0 < cy.size) (hStart : cx.start = cy.start) : x = y := by
  by_contra hne
  have hDisjoint := P.disjoint x y cx cy hx hy hne hcx hcy hPos hPos'
  omega

theorem slot_ne (hr : r ∈ regions) (hBound : r.memorySize ≤ 2 ^ 40) (hx : x ∈ L r.ptr)
    (hy : y ∈ L r.ptr) (hne : x ≠ y) (hcx : cells x = some cx) (hcy : cells y = some cy)
    (hPos : 0 < cx.size) (hPos' : 0 < cy.size) : r.slot cx.start ≠ r.slot cy.start := by
  obtain ⟨hLow, hUnit, hHigh⟩ := P.lies hr hx hcx
  obtain ⟨hLow', hUnit', hHigh'⟩ := P.lies hr hy hcy
  have hSlot := (P.indexed r hr x hx cx hcx hPos).1
  have hSlot' := (P.indexed r hr y hy cy hcy hPos').1
  intro hEq
  have hStart := AllocationRegion.slot_inj hBound (P.ordinary r hr) hLow (by omega) hUnit hSlot
    hLow' (by omega) hUnit' hSlot' hEq
  exact hne (P.start_inj ⟨r, hr, hx⟩ ⟨r, hr, hy⟩ hcx hcy hPos hPos' hStart)

end Placement

open Function RegionManager Nat Option

namespace Placement

variable {L : Layout} {recycled recycled' : List ChunkHandle} {regions : List AllocationRegion}
  {cells cells' : Nat → Option Cell} {head head' : Option ChunkHandle} {r r' : AllocationRegion}
  {x y z : ChunkHandle} {cx cy : Cell}

section

variable (P : Placement L recycled regions cells head)

include P

theorem mem_split (hr : r ∈ regions)
    (hr' : r' ∈ regions) :
    z ∈ update L r.ptr (y :: L r.ptr) r'.ptr ↔ z ∈ L r'.ptr ∨ r' = r ∧ z = y := by
  by_cases hPtr : r'.ptr = r.ptr
  · obtain rfl := ordinary_ptr_inj P.ordinary P.sorted hr' hr hPtr
    rw [update_self, mem_cons, or_comm, and_iff_right rfl]
  · rw [update_of_ne hPtr]
    exact (or_iff_left fun h => hPtr (congrArg _ h.1)).symm

theorem live_split (hr : r ∈ regions) (index : Nat)
    (value : Option ChunkHandle) :
    Live (update L r.ptr (y :: L r.ptr)) (regions.map (putHandle r.ptr index value)) z ↔
      Live L regions z ∨ z = y := by
  constructor
  · rintro ⟨r₁, hr₁, hz⟩
    obtain ⟨r', hr', rfl⟩ := mem_map.mp hr₁
    rw [putHandle_ptr, P.mem_split hr hr'] at hz
    exact hz.imp (fun hz => ⟨r', hr', hz⟩) And.right
  · rintro (⟨r', hr', hz⟩ | rfl)
    · refine ⟨_, mem_map_of_mem hr', ?_⟩
      rw [putHandle_ptr, P.mem_split hr hr']
      exact .inl hz
    · refine ⟨_, mem_map_of_mem hr, ?_⟩
      rw [putHandle_ptr, P.mem_split hr hr]
      exact .inr ⟨rfl, rfl⟩

/-- A chunk keeps some of its bytes, possibly none, and a new chunk gets the others. -/
theorem split (hr : r ∈ regions) (hx : x ∈ L r.ptr)
    (hcx : cells x = some cx) {kept : Nat} (hUnit : 256 ∣ kept) (hSize : kept < cx.size)
    (hy : ¬Live L regions y) (hRelinks : Relinks cells cells' x y cx.next y)
    (hx' : cells' x = some { cx with size := kept, next := some y })
    (hy' : cells' y = some ⟨cx.start + kept, cx.size - kept, some x, cx.next⟩)
    (hSlot : r.HasSlot (cx.start + kept)) (hFree : FreeList cells head' recycled')
    (hNodup : recycled'.Nodup) (hRecycled : ∀ h, h ∈ recycled' ↔ h ∈ recycled ∧ h ≠ y) :
    Placement (update L r.ptr (y :: L r.ptr)) recycled'
      (regions.map (putHandle r.ptr (r.slot (cx.start + kept)) (some y))) cells' head' := by
  have hyL {r' : AllocationRegion} (hr' : r' ∈ regions) : y ∉ L r'.ptr :=
    fun hMem => hy ⟨r', hr', hMem⟩
  have hxy : x ≠ y := fun hEq => hyL hr (hEq ▸ hx)
  obtain ⟨hLow, hOffset, hHigh⟩ := P.lies hr hx hcx
  have hMem {r' : AllocationRegion} (hr' : r' ∈ regions) {z : ChunkHandle} :=
    P.mem_split (y := y) (z := z) hr hr'
  have hLive {z : ChunkHandle} := P.live_split (y := y) (z := z) hr
    (r.slot (cx.start + kept)) (some y)
  -- a chunk other than the two keeps its bytes and its successor
  have hBack {z : ChunkHandle} {cell' : Cell} (hz : Live L regions z) (hzx : z ≠ x)
      (hCell' : cells' z = some cell') : ∃ cell, cells z = some cell ∧ cell'.start = cell.start ∧
        cell'.size = cell.size ∧ cell'.next = cell.next := by
    obtain ⟨cell, q, hCell, rfl, _⟩ :=
      relinks_back hRelinks hzx (fun hEq => hy (hEq ▸ hz)) hCell'
    exact ⟨cell, hCell, rfl, rfl, rfl⟩
  have hForth {z : ChunkHandle} {cell : Cell} (hz : Live L regions z) (hzx : z ≠ x)
      (hCell : cells z = some cell) : ∃ q, cells' z = some { cell with prev := q } ∧
        (cx.next = some z ∧ q = some y ∨ cx.next ≠ some z ∧ q = cell.prev) :=
    relinks_forth hRelinks hzx (fun hEq => hy (hEq ▸ hz)) hCell
  refine ⟨?_, ?_, ?_, ?_, ?_, ?_, ?_, ?_, ?_, hFree.congr ?_, hNodup, ?_, ?_⟩
  · intro r₁ hr₁
    obtain ⟨r', hr', rfl⟩ := mem_map.mp hr₁
    exact (P.ordinary r' hr').putHandle _ _ _
  · rw [pairwise_map]
    simpa using P.sorted
  · intro r₁ hr₁ r₂ hr₂ z hz hz'
    obtain ⟨r', hr', rfl⟩ := mem_map.mp hr₁
    obtain ⟨r'', hr'', rfl⟩ := mem_map.mp hr₂
    rw [putHandle_ptr, hMem hr'] at hz
    rw [putHandle_ptr, hMem hr''] at hz'
    rcases hz with hz | ⟨rfl, rfl⟩
    · rcases hz' with hz' | ⟨rfl, rfl⟩
      · rw [P.unique r' hr' r'' hr'' z hz hz']
      · exact absurd hz (hyL hr')
    · rcases hz' with hz' | ⟨rfl, _⟩
      · exact absurd hz' (hyL hr'')
      · rfl
  · intro r₁ hr₁ z hz
    obtain ⟨r', hr', rfl⟩ := mem_map.mp hr₁
    rw [putHandle_ptr, hMem hr'] at hz
    rw [putHandle_ptr, putHandle_memorySize]
    rcases hz with hz | ⟨rfl, rfl⟩
    · by_cases hzx : z = x
      · subst hzx
        obtain rfl := P.unique r' hr' r hr z hz hx
        exact ⟨_, hx', hLow, hOffset, by simp only; omega⟩
      · obtain ⟨cell, hCell, hInside⟩ := P.inside r' hr' z hz
        obtain ⟨q, hCell', _⟩ := hForth ⟨r', hr', hz⟩ hzx hCell
        exact ⟨_, hCell', hInside⟩
    · refine ⟨_, hy', ?_, ?_, ?_⟩
      · simp only
        omega
      · rw [Nat.sub_add_comm hLow]
        exact Nat.dvd_add hOffset hUnit
      · simp only
        omega
  · -- the parts of the old chunk are apart from what it was apart from
    have hOther {z : ChunkHandle} {cz : Cell} (hz : Live L regions z) (hzx : z ≠ x)
        (hcz : cells' z = some cz) (hPos : 0 < cz.size) :
        cz.start + cz.size ≤ cx.start ∨ cx.start + cx.size ≤ cz.start := by
      obtain ⟨cell, hCell, hStart, hSize', _⟩ := hBack hz hzx hcz
      have hSide := P.disjoint z x cell cx hz ⟨r, hr, hx⟩ hzx hCell hcx (by omega) (by omega)
      omega
    intro z w cz cw hzLive hwLive hne hcz hcw hPos hPos'
    rcases hLive.mp hzLive with hz | rfl
    · rcases hLive.mp hwLive with hw | rfl
      · by_cases hzx : z = x
        · subst hzx
          cases hx'.symm.trans hcz
          have hSide := hOther hw (Ne.symm hne) hcw hPos'
          simp only at hPos ⊢
          omega
        · by_cases hwx : w = x
          · subst hwx
            cases hx'.symm.trans hcw
            have hSide := hOther hz hzx hcz hPos
            simp only at hPos' ⊢
            omega
          · obtain ⟨cell, hCell, hStart, hSize', _⟩ := hBack hz hzx hcz
            obtain ⟨cell', hCell', hStart', hSize'', _⟩ := hBack hw hwx hcw
            have hSide := P.disjoint z w cell cell' hz hw hne hCell hCell' (by omega) (by omega)
            omega
      · cases hy'.symm.trans hcw
        by_cases hzx : z = x
        · subst hzx
          cases hx'.symm.trans hcz
          simp only
          omega
        · have hSide := hOther hz hzx hcz hPos
          simp only
          omega
    · cases hy'.symm.trans hcz
      rcases hLive.mp hwLive with hw | rfl
      · by_cases hwx : w = x
        · subst hwx
          cases hx'.symm.trans hcw
          simp only
          omega
        · have hSide := hOther hw hwx hcw hPos'
          simp only
          omega
      · exact absurd rfl hne
  · intro r₁ hr₁ z hz cz n hcz hNext
    obtain ⟨r', hr', rfl⟩ := mem_map.mp hr₁
    rw [putHandle_ptr, hMem hr'] at hz ⊢
    rcases hz with hz | ⟨rfl, rfl⟩
    · by_cases hzx : z = x
      · subst hzx
        cases hx'.symm.trans hcz
        cases hNext
        exact ⟨.inr ⟨P.unique r' hr' r hr z hz hx, rfl⟩, hxy.symm, _, hy', rfl, rfl⟩
      · obtain ⟨cell, hCell, hStart, hSize', hNext'⟩ := hBack ⟨r', hr', hz⟩ hzx hcz
        obtain ⟨hn, hne, cn, hcn, hPrev, hStart'⟩ :=
          P.next r' hr' z hz cell n hCell (hNext'.symm.trans hNext)
        refine ⟨.inl hn, hne, ?_⟩
        by_cases hnx : n = x
        · subst hnx
          cases hcx.symm.trans hcn
          exact ⟨_, hx', hPrev, by simp only; omega⟩
        · obtain ⟨q, hcn', hLink⟩ := hForth ⟨r', hr', hn⟩ hnx hcn
          refine ⟨_, hcn', ?_, by simp only; omega⟩
          rcases hLink with ⟨hFollows, _⟩ | ⟨_, rfl⟩
          · -- the successor of the old chunk has no other predecessor
            obtain ⟨_, _, cn', hcn'', hPrev', _⟩ := P.next r hr x hx cx n hcx hFollows
            cases hcn.symm.trans hcn''
            exact absurd (some.inj (hPrev.symm.trans hPrev')) hzx
          · exact hPrev
    · cases hy'.symm.trans hcz
      obtain ⟨hn, hne, cn, hcn, hPrev, hStart'⟩ := P.next r' hr' x hx cx n hcx hNext
      obtain ⟨q, hcn', hLink⟩ := hForth ⟨r', hr', hn⟩ hne hcn
      refine ⟨.inl hn, fun hEq => hyL hr' (hEq ▸ hn), _, hcn', ?_, by simp only; omega⟩
      rcases hLink with ⟨_, rfl⟩ | ⟨hFollows, _⟩
      · rfl
      · exact absurd hNext hFollows
  · intro r₁ hr₁ z hz cz q hcz hPrev
    obtain ⟨r', hr', rfl⟩ := mem_map.mp hr₁
    rw [putHandle_ptr, hMem hr'] at hz ⊢
    rcases hz with hz | ⟨rfl, rfl⟩
    · by_cases hzx : z = x
      · subst hzx
        cases hx'.symm.trans hcz
        obtain ⟨hq, cq, hcq, hNext⟩ := P.prev r' hr' z hz cx q hcx hPrev
        have hqz : q ≠ z := by
          rintro rfl
          cases hcx.symm.trans hcq
          exact (P.next r' hr' q hq cx q hcx hNext).2.1 rfl
        obtain ⟨p, hcq', _⟩ := hForth ⟨r', hr', hq⟩ hqz hcq
        exact ⟨.inl hq, _, hcq', hNext⟩
      · obtain ⟨cell, p, hCell, rfl, hLink⟩ :=
          relinks_back hRelinks hzx (fun hEq => hyL hr' (hEq ▸ hz)) hcz
        rcases hLink with ⟨hFollows, rfl⟩ | ⟨hFollows, rfl⟩
        · cases hPrev
          obtain ⟨hn, _⟩ := P.next r hr x hx cx z hcx hFollows
          exact ⟨.inr ⟨P.unique r' hr' r hr z hz hn, rfl⟩, _, hy', hFollows⟩
        · obtain ⟨hq, cq, hcq, hNext⟩ := P.prev r' hr' z hz cell q hCell hPrev
          have hqx : q ≠ x := by
            rintro rfl
            cases hcx.symm.trans hcq
            exact hFollows hNext
          obtain ⟨p, hcq', _⟩ := hForth ⟨r', hr', hq⟩ hqx hcq
          exact ⟨.inl hq, _, hcq', hNext⟩
    · cases hy'.symm.trans hcz
      cases hPrev
      exact ⟨.inl hx, _, hx', rfl⟩
  · intro r₁ hr₁ i z hz
    obtain ⟨r', hr', rfl⟩ := mem_map.mp hr₁
    rw [putHandle_handles] at hz
    simp only [putHandle_ptr, hMem hr', putHandle_slot]
    split at hz
    · rename_i hHere
      cases hz
      obtain rfl := ordinary_ptr_inj P.ordinary P.sorted hr' hr hHere.1
      exact ⟨.inr ⟨rfl, rfl⟩, _, hy', by simp only; omega, hHere.2⟩
    · rename_i hElsewhere
      obtain ⟨hz, cell, hCell, hPos, hAt⟩ := P.stored r' hr' i z hz
      refine ⟨.inl hz, ?_⟩
      by_cases hzx : z = x
      · subst hzx
        cases hcx.symm.trans hCell
        obtain rfl := P.unique r' hr' r hr z hz hx
        refine ⟨_, hx', ?_, hAt⟩
        -- without bytes the old chunk has lost its slot to the new one
        by_contra hZero
        obtain rfl : kept = 0 := by
          simp only at hZero
          omega
        exact hElsewhere ⟨rfl, hAt⟩
      · obtain ⟨q, hCell', _⟩ := hForth ⟨r', hr', hz⟩ hzx hCell
        exact ⟨_, hCell', hPos, hAt⟩
  · intro r₁ hr₁ z hz cz hcz hPos
    obtain ⟨r', hr', rfl⟩ := mem_map.mp hr₁
    rw [putHandle_ptr, hMem hr'] at hz
    rw [putHandle_hasSlot, putHandle_memorySize, putHandle_slot, putHandle_handles]
    rcases hz with hz | ⟨rfl, rfl⟩
    · obtain ⟨cell, hCell, hStart, hPos₀, hApart⟩ : ∃ cell, cells z = some cell ∧
          cz.start = cell.start ∧ 0 < cell.size ∧ cell.start ≠ cx.start + kept := by
        by_cases hzx : z = x
        · subst hzx
          cases hx'.symm.trans hcz
          exact ⟨cx, hcx, rfl, by omega, by simp only at hPos; omega⟩
        · obtain ⟨cell, hCell, hStart, hSize', _⟩ := hBack ⟨r', hr', hz⟩ hzx hcz
          have hSide := P.disjoint z x cell cx ⟨r', hr', hz⟩ ⟨r, hr, hx⟩ hzx hCell hcx (by omega)
            (by omega)
          exact ⟨cell, hCell, hStart, by omega, by omega⟩
      obtain ⟨hHas, hNames⟩ := P.indexed r' hr' z hz cell hCell hPos₀
      rw [hStart]
      refine ⟨hHas, fun hBound => ?_⟩
      rw [if_neg, hNames hBound]
      rintro ⟨hPtr, hAt⟩
      obtain rfl := ordinary_ptr_inj P.ordinary P.sorted hr' hr hPtr
      obtain ⟨hLow', hOffset', hHigh'⟩ := P.lies hr' hz hCell
      refine hApart (AllocationRegion.slot_inj hBound (P.ordinary r' hr') hLow' (by omega) hOffset'
        hHas (by omega) (by omega) ?_ hSlot hAt)
      rw [Nat.sub_add_comm hLow]
      exact Nat.dvd_add hOffset hUnit
    · cases hy'.symm.trans hcz
      exact ⟨hSlot, fun _ => if_pos ⟨rfl, rfl⟩⟩
  · intro z hz
    obtain ⟨hz, hzy⟩ := (hRecycled z).mp hz
    have hzx : z ≠ x := fun hEq => P.not_recycled hr hx (hEq ▸ hz)
    refine hRelinks.same hzx hzy fun hNext => ?_
    exact P.not_recycled hr (P.next r hr x hx cx z hcx hNext).1 hz
  · intro z hz hLive'
    obtain ⟨hz, hzy⟩ := (hRecycled z).mp hz
    exact P.apart z hz ((hLive.mp hLive').resolve_right hzy)
  · intro z cell hCell'
    rw [hRecycled]
    by_cases hzy : z = y
    · exact .inr (hLive.mpr (.inr hzy))
    · by_cases hzx : z = x
      · exact .inr (hLive.mpr (.inl (hzx ▸ ⟨r, hr, hx⟩)))
      · obtain ⟨cell', hOld⟩ := Geometry.isSome_of_relinks hRelinks hzx hzy hCell'
        exact (P.covered z cell' hOld).imp (fun hz => ⟨hz, hzy⟩) fun hz => hLive.mpr (.inl hz)

end

def without (L : Layout) (y : ChunkHandle) : Layout := fun p => (L p).filter fun z => z ≠ y

theorem mem_without {p : Nat} : z ∈ without L y p ↔ z ∈ L p ∧ z ≠ y := by
  rw [without, mem_filter, decide_eq_true_iff]

theorem live_without (base index : Nat) (value : Option ChunkHandle) :
    Live (without L y) (regions.map (putHandle base index value)) z ↔
      Live L regions z ∧ z ≠ y := by
  constructor
  · rintro ⟨r₁, hr₁, hz⟩
    obtain ⟨r', hr', rfl⟩ := mem_map.mp hr₁
    rw [putHandle_ptr, mem_without] at hz
    exact ⟨⟨r', hr', hz.1⟩, hz.2⟩
  · rintro ⟨⟨r', hr', hz⟩, hzy⟩
    refine ⟨_, mem_map_of_mem hr', ?_⟩
    rw [putHandle_ptr, mem_without]
    exact ⟨hz, hzy⟩

/-- A chunk takes the bytes of its successor. -/
theorem merge (P : Placement L recycled regions cells head) (hr : r ∈ regions) (hx : x ∈ L r.ptr)
    (hcx : cells x = some cx) (hNext : cx.next = some y) (hcy : cells y = some cy)
    (hPos : 0 < cx.size) (hPos' : 0 < cy.size) (hRelinks : Relinks cells cells' x y cy.next x)
    (hx' : cells' x = some { cx with size := cx.size + cy.size, next := cy.next })
    (hy' : ∃ cell, cells' y = some cell ∧ cell.next = head) :
    Placement (without L y) (y :: recycled)
      (regions.map (putHandle r.ptr (r.slot cy.start) none)) cells' (some y) := by
  obtain ⟨hy, hyx, cy', hcy', hPrevY, hStartY⟩ := P.next r hr x hx cx y hcx hNext
  cases hcy.symm.trans hcy'
  obtain ⟨hLow, hOffset, hHigh⟩ := P.lies hr hx hcx
  obtain ⟨hLowY, hOffsetY, hHighY⟩ := P.lies hr hy hcy
  -- the successor of the second chunk is a third one
  have hThird {n : ChunkHandle} (hn : cy.next = some n) : n ≠ x := by
    rintro rfl
    obtain ⟨_, _, cn, hcn, _, hStart⟩ := P.next r hr y hy cy n hcy hn
    cases hcx.symm.trans hcn
    omega
  have hBack {z : ChunkHandle} {cell' : Cell} (hzx : z ≠ x) (hzy : z ≠ y)
      (hCell' : cells' z = some cell') : ∃ cell, cells z = some cell ∧ cell'.start = cell.start ∧
        cell'.size = cell.size ∧ cell'.next = cell.next := by
    obtain ⟨cell, q, hCell, rfl, _⟩ := relinks_back hRelinks hzx hzy hCell'
    exact ⟨cell, hCell, rfl, rfl, rfl⟩
  refine ⟨?_, ?_, ?_, ?_, ?_, ?_, ?_, ?_, ?_, ?_, ?_, ?_, ?_⟩
  · intro r₁ hr₁
    obtain ⟨r', hr', rfl⟩ := mem_map.mp hr₁
    exact (P.ordinary r' hr').putHandle _ _ _
  · rw [pairwise_map]
    simpa using P.sorted
  · intro r₁ hr₁ r₂ hr₂ z hz hz'
    obtain ⟨r', hr', rfl⟩ := mem_map.mp hr₁
    obtain ⟨r'', hr'', rfl⟩ := mem_map.mp hr₂
    rw [putHandle_ptr, mem_without] at hz hz'
    rw [P.unique r' hr' r'' hr'' z hz.1 hz'.1]
  · intro r₁ hr₁ z hz
    obtain ⟨r', hr', rfl⟩ := mem_map.mp hr₁
    rw [putHandle_ptr, mem_without] at hz
    rw [putHandle_ptr, putHandle_memorySize]
    by_cases hzx : z = x
    · subst hzx
      obtain rfl := P.unique r' hr' r hr z hz.1 hx
      exact ⟨_, hx', hLow, hOffset, by simp only; omega⟩
    · obtain ⟨cell, hCell, hInside⟩ := P.inside r' hr' z hz.1
      obtain ⟨q, hCell', _⟩ := relinks_forth hRelinks hzx hz.2 hCell
      exact ⟨_, hCell', hInside⟩
  · -- what is apart from both chunks is apart from their union
    have hOther {z : ChunkHandle} {cz : Cell} (hz : Live L regions z) (hzx : z ≠ x) (hzy : z ≠ y)
        (hcz : cells' z = some cz) (hPosZ : 0 < cz.size) : cz.start + cz.size ≤ cx.start ∨
          cx.start + (cx.size + cy.size) ≤ cz.start := by
      obtain ⟨cell, hCell, hStart, hSize, _⟩ := hBack hzx hzy hcz
      have hSide := P.disjoint z x cell cx hz ⟨r, hr, hx⟩ hzx hCell hcx (by omega) hPos
      have hSide' := P.disjoint z y cell cy hz ⟨r, hr, hy⟩ hzy hCell hcy (by omega) hPos'
      omega
    intro z w cz cw hzLive hwLive hne hcz hcw hPosZ hPosW
    obtain ⟨hz, hzy⟩ := (live_without _ _ _).mp hzLive
    obtain ⟨hw, hwy⟩ := (live_without _ _ _).mp hwLive
    by_cases hzx : z = x
    · subst hzx
      cases hx'.symm.trans hcz
      exact (hOther hw (Ne.symm hne) hwy hcw hPosW).symm
    · by_cases hwx : w = x
      · subst hwx
        cases hx'.symm.trans hcw
        exact hOther hz hzx hzy hcz hPosZ
      · obtain ⟨cell, hCell, hStart, hSize, _⟩ := hBack hzx hzy hcz
        obtain ⟨cell', hCell', hStart', hSize', _⟩ := hBack hwx hwy hcw
        have hSide := P.disjoint z w cell cell' hz hw hne hCell hCell' (by omega) (by omega)
        omega
  · intro r₁ hr₁ z hz cz n hcz hNextZ
    obtain ⟨r', hr', rfl⟩ := mem_map.mp hr₁
    rw [putHandle_ptr, mem_without] at hz ⊢
    by_cases hzx : z = x
    · subst hzx
      cases hx'.symm.trans hcz
      obtain rfl := P.unique r' hr' r hr z hz.1 hx
      obtain ⟨hn, hny, cn, hcn, _, hStart⟩ := P.next r' hr' y hy cy n hcy hNextZ
      have hnz : n ≠ z := hThird hNextZ
      obtain ⟨q, hcn', hLink⟩ := relinks_forth hRelinks hnz hny hcn
      refine ⟨⟨hn, hny⟩, hnz, _, hcn', ?_, by simp only; omega⟩
      rcases hLink with ⟨_, rfl⟩ | ⟨hFollows, _⟩
      · rfl
      · exact absurd hNextZ hFollows
    · obtain ⟨cell, hCell, hStart, hSize, hNext'⟩ := hBack hzx hz.2 hcz
      obtain ⟨hn, hne, cn, hcn, hPrev, hStart'⟩ :=
        P.next r' hr' z hz.1 cell n hCell (hNext'.symm.trans hNextZ)
      have hny : n ≠ y := by
        rintro rfl
        cases hcy.symm.trans hcn
        exact hzx (some.inj (hPrev.symm.trans hPrevY))
      refine ⟨⟨hn, hny⟩, hne, ?_⟩
      by_cases hnx : n = x
      · subst hnx
        cases hcx.symm.trans hcn
        exact ⟨_, hx', hPrev, by simp only; omega⟩
      · obtain ⟨q, hcn', hLink⟩ := relinks_forth hRelinks hnx hny hcn
        refine ⟨_, hcn', ?_, by simp only; omega⟩
        rcases hLink with ⟨hFollows, _⟩ | ⟨_, rfl⟩
        · obtain ⟨_, _, cn', hcn'', hPrev', _⟩ := P.next r hr y hy cy n hcy hFollows
          cases hcn.symm.trans hcn''
          exact absurd (some.inj (hPrev.symm.trans hPrev')) hz.2
        · exact hPrev
  · intro r₁ hr₁ z hz cz q hcz hPrev
    obtain ⟨r', hr', rfl⟩ := mem_map.mp hr₁
    rw [putHandle_ptr, mem_without] at hz ⊢
    by_cases hzx : z = x
    · subst hzx
      cases hx'.symm.trans hcz
      obtain ⟨hq, cq, hcq, hNextQ⟩ := P.prev r' hr' z hz.1 cx q hcx hPrev
      have hqz : q ≠ z := by
        rintro rfl
        exact (P.next r' hr' q hq cq q hcq hNextQ).2.1 rfl
      have hqy : q ≠ y := by
        rintro rfl
        cases hcy.symm.trans hcq
        exact hThird hNextQ rfl
      obtain ⟨p, hcq', _⟩ := relinks_forth hRelinks hqz hqy hcq
      exact ⟨⟨hq, hqy⟩, _, hcq', hNextQ⟩
    · obtain ⟨cell, p, hCell, rfl, hLink⟩ := relinks_back hRelinks hzx hz.2 hcz
      rcases hLink with ⟨hFollows, rfl⟩ | ⟨hFollows, rfl⟩
      · cases hPrev
        obtain ⟨hn, _⟩ := P.next r hr y hy cy z hcy hFollows
        obtain rfl := P.unique r' hr' r hr z hz.1 hn
        exact ⟨⟨hx, hyx.symm⟩, _, hx', hFollows⟩
      · obtain ⟨hq, cq, hcq, hNextQ⟩ := P.prev r' hr' z hz.1 cell q hCell hPrev
        have hqy : q ≠ y := by
          rintro rfl
          cases hcy.symm.trans hcq
          exact hFollows hNextQ
        have hqx : q ≠ x := by
          rintro rfl
          cases hcx.symm.trans hcq
          exact hz.2 (some.inj (hNextQ.symm.trans hNext))
        obtain ⟨p, hcq', _⟩ := relinks_forth hRelinks hqx hqy hcq
        exact ⟨⟨hq, hqy⟩, _, hcq', hNextQ⟩
  · intro r₁ hr₁ i z hz
    obtain ⟨r', hr', rfl⟩ := mem_map.mp hr₁
    rw [putHandle_handles] at hz
    simp only [putHandle_ptr, mem_without, putHandle_slot]
    split at hz
    · cases hz
    · rename_i hElsewhere
      obtain ⟨hz, cell, hCell, hPosZ, hAt⟩ := P.stored r' hr' i z hz
      have hzy : z ≠ y := by
        rintro rfl
        cases hcy.symm.trans hCell
        obtain rfl := P.unique r' hr' r hr z hz hy
        exact hElsewhere ⟨rfl, hAt⟩
      refine ⟨⟨hz, hzy⟩, ?_⟩
      by_cases hzx : z = x
      · subst hzx
        cases hcx.symm.trans hCell
        exact ⟨_, hx', Nat.add_pos_left hPos _, hAt⟩
      · obtain ⟨q, hCell', _⟩ := relinks_forth hRelinks hzx hzy hCell
        exact ⟨_, hCell', hPosZ, hAt⟩
  · intro r₁ hr₁ z hz cz hcz hPosZ
    obtain ⟨r', hr', rfl⟩ := mem_map.mp hr₁
    rw [putHandle_ptr, mem_without] at hz
    rw [putHandle_hasSlot, putHandle_memorySize, putHandle_slot, putHandle_handles]
    obtain ⟨cell, hCell, hStart, hPos₀⟩ : ∃ cell, cells z = some cell ∧
        cz.start = cell.start ∧ 0 < cell.size := by
      by_cases hzx : z = x
      · subst hzx
        cases hx'.symm.trans hcz
        exact ⟨cx, hcx, rfl, hPos⟩
      · obtain ⟨cell, hCell, hStart, hSize, _⟩ := hBack hzx hz.2 hcz
        exact ⟨cell, hCell, hStart, by omega⟩
    obtain ⟨hHas, hNames⟩ := P.indexed r' hr' z hz.1 cell hCell hPos₀
    rw [hStart]
    refine ⟨hHas, fun hBound => ?_⟩
    rw [if_neg, hNames hBound]
    rintro ⟨hPtr, hAt⟩
    obtain rfl := ordinary_ptr_inj P.ordinary P.sorted hr' hr hPtr
    exact P.slot_ne hr' hBound hz.1 hy hz.2 hCell hcy hPos₀ hPos' hAt
  · obtain ⟨cell, hCell, rfl⟩ := hy'
    refine ⟨rfl, cell, hCell, P.freeList.congr fun z hz => ?_⟩
    have hzx : z ≠ x := fun hEq => P.not_recycled hr hx (hEq ▸ hz)
    have hzy : z ≠ y := fun hEq => P.not_recycled hr hy (hEq ▸ hz)
    refine hRelinks.same hzx hzy fun hNextY => ?_
    exact P.not_recycled hr (P.next r hr y hy cy z hcy hNextY).1 hz
  · exact nodup_cons.mpr ⟨P.not_recycled hr hy, P.nodup⟩
  · intro z hz hLive
    obtain ⟨hLive, hzy⟩ := (live_without _ _ _).mp hLive
    exact P.apart z ((mem_cons.mp hz).resolve_left hzy) hLive
  · intro z cell hCell'
    by_cases hzy : z = y
    · exact .inl (hzy ▸ mem_cons_self)
    · by_cases hzx : z = x
      · exact .inr ((live_without _ _ _).mpr ⟨hzx ▸ ⟨r, hr, hx⟩, hzy⟩)
      · obtain ⟨cell', hOld⟩ := Geometry.isSome_of_relinks hRelinks hzx hzy hCell'
        exact (P.covered z cell' hOld).imp (mem_cons_of_mem _) fun hz =>
          (live_without _ _ _).mpr ⟨hz, hzy⟩

section Extend

variable {p bytes : Nat}

theorem live_extend (hApart : ∀ r' ∈ regions, p + bytes ≤ r'.ptr ∨ r'.ptr + r'.memorySize ≤ p)
    (hPos : 0 < bytes) (hOrdinary : ∀ r' ∈ regions, r'.Ordinary) (index : Nat) :
    Live (update L p [y]) ((insertRegion ⟨p, bytes, fun _ => none⟩
      regions).map (putHandle p index (some y))) z ↔ Live L regions z ∨ z = y := by
  have hOther {r' : AllocationRegion} (hr' : r' ∈ regions) : r'.ptr ≠ p := by
    have hSide := hApart r' hr'
    have hPos' := (hOrdinary r' hr').nonEmpty
    omega
  constructor
  · rintro ⟨r₁, hr₁, hz⟩
    obtain ⟨r', hr', rfl⟩ := mem_map.mp hr₁
    rw [putHandle_ptr] at hz
    rcases mem_insertRegion.mp hr' with rfl | hr'
    · rw [update_self] at hz
      exact .inr (mem_singleton.mp hz)
    · rw [update_of_ne (hOther hr')] at hz
      exact .inl ⟨r', hr', hz⟩
  · rintro (⟨r', hr', hz⟩ | rfl)
    · refine ⟨_, mem_map_of_mem (mem_insertRegion.mpr (.inr hr')), ?_⟩
      rw [putHandle_ptr, update_of_ne (hOther hr')]
      exact hz
    · refine ⟨_, mem_map_of_mem (mem_insertRegion.mpr (.inl rfl)), ?_⟩
      rw [putHandle_ptr, update_self]
      exact mem_singleton_self _

theorem extend (P : Placement L recycled regions cells head)
    (hr : AllocationRegion.Ordinary ⟨p, bytes, fun _ => none⟩)
    (hApart : ∀ r' ∈ regions, p + bytes ≤ r'.ptr ∨ r'.ptr + r'.memorySize ≤ p)
    (hy : ¬Live L regions y) (hSame : ∀ z, z ≠ y → cells' z = cells z)
    (hy' : cells' y = some ⟨p, bytes, none, none⟩) {index : Nat}
    (hIndex : index = AllocationRegion.slot ⟨p, bytes, fun _ => none⟩ p)
    (hSlot : AllocationRegion.HasSlot ⟨p, bytes, fun _ => none⟩ p)
    (hFree : FreeList cells head' recycled') (hNodup : recycled'.Nodup)
    (hRecycled : ∀ h, h ∈ recycled' ↔ h ∈ recycled ∧ h ≠ y) :
    Placement (update L p [y]) recycled'
      ((insertRegion ⟨p, bytes, fun _ => none⟩ regions).map
        (putHandle p index (some y))) cells' head' := by
  have hPos : 0 < bytes := hr.nonEmpty
  have hOther {r' : AllocationRegion} (hr' : r' ∈ regions) : r'.ptr ≠ p := by
    have hSide := hApart r' hr'
    have hPos' := (P.ordinary r' hr').nonEmpty
    omega
  -- the regions are the new one, with one handle, and the old ones
  have hRegions {r₁ : AllocationRegion}
      (hr₁ : r₁ ∈ (insertRegion ⟨p, bytes, fun _ => none⟩ regions).map
        (putHandle p index (some y))) :
      r₁ = putHandle p index (some y) ⟨p, bytes, fun _ => none⟩ ∨ r₁ ∈ regions := by
    obtain ⟨r', hr', rfl⟩ := mem_map.mp hr₁
    rcases mem_insertRegion.mp hr' with rfl | hr'
    · exact .inl rfl
    · rw [putHandle, if_neg (hOther hr')]
      exact .inr hr'
  have hNew {z : ChunkHandle} : z ∈ update L p [y]
      (putHandle p index (some y) ⟨p, bytes, fun _ => none⟩).ptr ↔ z = y := by
    rw [putHandle_ptr, update_self, mem_singleton]
  have hOld {r' : AllocationRegion} (hr' : r' ∈ regions) : update L p [y] r'.ptr = L r'.ptr :=
    update_of_ne (hOther hr') ..
  have hyL {r' : AllocationRegion} (hr' : r' ∈ regions) {z : ChunkHandle} (hz : z ∈ L r'.ptr) :
      z ≠ y := fun hEq => hy (hEq ▸ ⟨r', hr', hz⟩)
  have hLive {z : ChunkHandle} := live_extend (L := L) (y := y) (z := z) hApart hPos
    P.ordinary index
  refine ⟨?_, ?_, ?_, ?_, ?_, ?_, ?_, ?_, ?_, hFree.congr ?_, hNodup, ?_, ?_⟩
  · intro r₁ hr₁
    rcases hRegions hr₁ with rfl | hr'
    · exact hr.putHandle _ _ _
    · exact P.ordinary r₁ hr'
  · rw [pairwise_map]
    simpa using sorted_insertRegion (fun r hr => (P.ordinary r hr).ends) P.sorted hApart
  · intro r₁ hr₁ r₂ hr₂ z hz hz'
    rcases hRegions hr₁ with rfl | hr₁
    · rcases hRegions hr₂ with rfl | hr₂
      · rfl
      · rw [hOld hr₂] at hz'
        exact absurd (hNew.mp hz) (hyL hr₂ hz')
    · rw [hOld hr₁] at hz
      rcases hRegions hr₂ with rfl | hr₂
      · exact absurd (hNew.mp hz') (hyL hr₁ hz)
      · rw [hOld hr₂] at hz'
        exact P.unique r₁ hr₁ r₂ hr₂ z hz hz'
  · intro r₁ hr₁ z hz
    rcases hRegions hr₁ with rfl | hr'
    · obtain rfl := hNew.mp hz
      rw [putHandle_ptr, putHandle_memorySize]
      exact ⟨_, hy', Nat.le_refl _, by simp, Nat.le_refl _⟩
    · rw [hOld hr'] at hz
      rw [hSame z (hyL hr' hz)]
      exact P.inside r₁ hr' z hz
  · -- an old chunk lies in an old region
    have hSide {z : ChunkHandle} {cz : Cell} (hz : Live L regions z) (hcz : cells z = some cz)
        (hPosZ : 0 < cz.size) : cz.start + cz.size ≤ p ∨ p + bytes ≤ cz.start := by
      obtain ⟨r', hr', hz⟩ := hz
      obtain ⟨hLow, _, hHigh⟩ := P.lies hr' hz hcz
      have hSide := hApart r' hr'
      omega
    have hCell {z : ChunkHandle} (hz : Live L regions z) : cells' z = cells z := by
      obtain ⟨r', hr', hz⟩ := hz
      exact hSame z (hyL hr' hz)
    intro z w cz cw hzLive hwLive hne hcz hcw hPosZ hPosW
    rcases hLive.mp hzLive with hz | rfl
    · rw [hCell hz] at hcz
      rcases hLive.mp hwLive with hw | rfl
      · rw [hCell hw] at hcw
        exact P.disjoint z w cz cw hz hw hne hcz hcw hPosZ hPosW
      · cases hy'.symm.trans hcw
        exact hSide hz hcz hPosZ
    · cases hy'.symm.trans hcz
      rcases hLive.mp hwLive with hw | rfl
      · rw [hCell hw] at hcw
        exact (hSide hw hcw hPosW).symm
      · exact absurd rfl hne
  · intro r₁ hr₁ z hz cz n hcz hNext
    rcases hRegions hr₁ with rfl | hr'
    · obtain rfl := hNew.mp hz
      cases hy'.symm.trans hcz
      cases hNext
    · rw [hOld hr'] at hz ⊢
      rw [hSame z (hyL hr' hz)] at hcz
      obtain ⟨hn, hne, hCell⟩ := P.next r₁ hr' z hz cz n hcz hNext
      rw [hSame n (hyL hr' hn)]
      exact ⟨hn, hne, hCell⟩
  · intro r₁ hr₁ z hz cz q hcz hPrev
    rcases hRegions hr₁ with rfl | hr'
    · obtain rfl := hNew.mp hz
      cases hy'.symm.trans hcz
      cases hPrev
    · rw [hOld hr'] at hz ⊢
      rw [hSame z (hyL hr' hz)] at hcz
      obtain ⟨hq, hCell⟩ := P.prev r₁ hr' z hz cz q hcz hPrev
      rw [hSame q (hyL hr' hq)]
      exact ⟨hq, hCell⟩
  · intro r₁ hr₁ i z hz
    rcases hRegions hr₁ with rfl | hr'
    · rw [putHandle_handles] at hz
      split at hz
      · rename_i hHere
        cases hz
        refine ⟨hNew.mpr rfl, _, hy', hPos, ?_⟩
        rw [putHandle_slot, hHere.2, hIndex]
      · cases hz
    · obtain ⟨hz, hCell⟩ := P.stored r₁ hr' i z hz
      rw [hOld hr', hSame z (hyL hr' hz)]
      exact ⟨hz, hCell⟩
  · intro r₁ hr₁ z hz cz hcz hPosZ
    rcases hRegions hr₁ with rfl | hr'
    · obtain rfl := hNew.mp hz
      cases hy'.symm.trans hcz
      refine ⟨putHandle_hasSlot.mpr hSlot, fun _ => ?_⟩
      rw [putHandle_handles, putHandle_slot, if_pos ⟨rfl, hIndex.symm⟩]
    · rw [hOld hr'] at hz
      rw [hSame z (hyL hr' hz)] at hcz
      exact P.indexed r₁ hr' z hz cz hcz hPosZ
  · intro z hz
    exact hSame z ((hRecycled z).mp hz).2
  · intro z hz hLive'
    obtain ⟨hz, hzy⟩ := (hRecycled z).mp hz
    exact P.apart z hz ((hLive.mp hLive').resolve_right hzy)
  · intro z cell hCell
    by_cases hzy : z = y
    · exact .inr (hLive.mpr (.inr hzy))
    · rw [hSame z hzy] at hCell
      exact (P.covered z cell hCell).imp (fun hz => (hRecycled z).mpr ⟨hz, hzy⟩) fun hz =>
        hLive.mpr (.inl hz)

end Extend

end Placement

end TensorFlowOnSpark.CommonRuntime
