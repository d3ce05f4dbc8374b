import TensorFlowOnSpark.CommonRuntime.BfcFiling
import TensorFlowOnSpark.CommonRuntime.BfcCalls

/-!
# The search for the best fit

A bin is searched in its order, and the bins are searched from the one of the request on.
-/

namespace TensorFlowOnSpark.CommonRuntime

open Linked Fallible BFCAllocator List Nat

section Bins

theorem binNumForSize_mono {m n : Nat} (h : m ≤ n) : binNumForSize m ≤ binNumForSize n := by
  have hUnits : max m 256 / 256 ≤ max n 256 / 256 := Nat.div_le_div_right (by omega)
  have hPos : max m 256 / 256 ≠ 0 := by omega
  have hPos' : max n 256 / 256 ≠ 0 := by omega
  have hLog : log2 (max m 256 / 256) ≤ log2 (max n 256 / 256) :=
    (le_log2 hPos').mpr (le_trans (log2_self_le hPos) hUnits)
  change min 20 (log2 (max m 256 / 256)) ≤ min 20 (log2 (max n 256 / 256))
  omega

theorem binNumForSize_le (n : Nat) : binNumForSize n ≤ 20 := min_le_left ..

theorem binNumForSize_eq_last {n : Nat} : binNumForSize n = 20 ↔ 256 * 2 ^ 20 ≤ n := by
  have hPos : max n 256 / 256 ≠ 0 := by omega
  have hLog : 20 ≤ log2 (max n 256 / 256) ↔ 2 ^ 20 ≤ max n 256 / 256 := le_log2 hPos
  change min 20 (log2 (max n 256 / 256)) = 20 ↔ _
  omega

end Bins

section Search

variable {s : BFCAllocator} {rounded : Nat} {h x : ChunkHandle}

def Suits (s : BFCAllocator) (rounded : Nat) (h : ChunkHandle) : Prop :=
  ∃ c, s.chunks[h]? = some c ∧ rounded ≤ c.size

theorem findInBin_first (rounded : Nat) {l : FreeChunkSet}
    (hChunks : ∀ h ∈ l, ∃ c, s.chunks[h]? = some c)
    (hSorted : l.Pairwise fun x y => chunkLess s.chunks x y) :
    ∃ found, s.findInBin rounded l = .ok found ∧
      (found = none → ∀ h ∈ l, ¬Suits s rounded h) ∧
      ∀ h, found = some h → h ∈ l ∧ Suits s rounded h ∧
        ∀ x ∈ l, Suits s rounded x → x = h ∨ chunkLess s.chunks h x := by
  induction l with
  | nil => exact ⟨none, rfl, fun _ => by simp, by simp⟩
  | cons first rest ih =>
    obtain ⟨hFirst, hRest⟩ := pairwise_cons.mp hSorted
    obtain ⟨c, hc⟩ := hChunks first mem_cons_self
    simp only [findInBin, chunkFromHandle_eq hc, bind, Except.bind]
    split
    · rename_i hFits
      refine ⟨some first, rfl, by simp, ?_⟩
      rintro h ⟨⟩
      refine ⟨mem_cons_self, ⟨c, hc, hFits⟩, ?_⟩
      intro x hx _
      exact (mem_cons.mp hx).imp id (hFirst x)
    · rename_i hSmall
      have hNot : ¬Suits s rounded first := by
        rintro ⟨d, hd, hFits⟩
        cases hc.symm.trans hd
        exact hSmall hFits
      obtain ⟨found, hFound, hNone, hSome⟩ :=
        ih (fun h hh => hChunks h (mem_cons_of_mem _ hh)) hRest
      refine ⟨found, hFound, ?_, ?_⟩
      · intro hEmpty
        exact forall_mem_cons.mpr ⟨hNot, hNone hEmpty⟩
      · intro h hh
        obtain ⟨hMem, hFits, hLeast⟩ := hSome h hh
        refine ⟨mem_cons_of_mem _ hMem, hFits, ?_⟩
        intro x hx hx'
        rcases mem_cons.mp hx with rfl | hx
        · exact absurd hx' hNot
        · exact hLeast x hx hx'

variable {L : Layout} {recycled held loose : List ChunkHandle}

theorem Arranged.findChunk_first (A : Arranged L recycled held loose s) (rounded : Nat)
    {bins : List BinNum} (hOrder : bins.Pairwise (· < ·)) :
    ∃ found, s.findChunk rounded bins = .ok found ∧
      (found = none → ∀ b ∈ bins, ∀ h ∈ s.bins b, ¬Suits s rounded h) ∧
      ∀ b h, found = some (b, h) → b ∈ bins ∧ h ∈ s.bins b ∧ Suits s rounded h ∧
        ∀ b' ∈ bins, ∀ x ∈ s.bins b', Suits s rounded x →
          b < b' ∨ b' = b ∧ (x = h ∨ chunkLess s.chunks h x) := by
  induction bins with
  | nil => exact ⟨none, rfl, fun _ => by simp, by simp⟩
  | cons first rest ih =>
    obtain ⟨hFirst, hRest⟩ := pairwise_cons.mp hOrder
    obtain ⟨found, hFound, hNone, hSome⟩ := findInBin_first rounded
      (fun h hh => A.live_chunk (A.live_of_binned (b := first) hh)) (A.marks.sorted first)
    simp only [findChunk, hFound]
    cases found with
    | some h =>
      obtain ⟨hMem, hFits, hLeast⟩ := hSome h rfl
      refine ⟨some (first, h), rfl, by simp, ?_⟩
      rintro b' h' ⟨⟩
      refine ⟨mem_cons_self, hMem, hFits, ?_⟩
      intro b' hb' x hx hx'
      rcases mem_cons.mp hb' with rfl | hb'
      · exact .inr ⟨rfl, hLeast x hx hx'⟩
      · exact .inl (hFirst b' hb')
    | none =>
      obtain ⟨found, hFound', hNone', hSome'⟩ := ih hRest
      refine ⟨found, hFound', ?_, ?_⟩
      · intro hEmpty
        exact forall_mem_cons.mpr ⟨hNone rfl, hNone' hEmpty⟩
      · intro b h hh
        obtain ⟨hMem, hBin, hFits, hLeast⟩ := hSome' b h hh
        refine ⟨mem_cons_of_mem _ hMem, hBin, hFits, ?_⟩
        intro b' hb' x hx hx'
        rcases mem_cons.mp hb' with rfl | hb'
        · exact absurd hx' (hNone rfl x hx)
        · exact hLeast b' hb' x hx hx'

def Arranged.Free (L : Layout) (s : BFCAllocator) (h : ChunkHandle) (c : Chunk) : Prop :=
  Live L s.regions h ∧ s.chunks[h]? = some c ∧ c.inUse = false

theorem Arranged.binned_iff (A : Arranged L recycled [] loose s) {b : BinNum} :
    h ∈ s.bins b ↔ ∃ c, Arranged.Free L s h c ∧ b = binNumForSize c.size := by
  constructor
  · intro hh
    obtain ⟨c, hc⟩ := A.live_chunk (A.live_of_binned hh)
    obtain ⟨hFree, _, hBin, _⟩ := A.of_binned hh hc
    exact ⟨c, ⟨A.live_of_binned hh, hc, hFree⟩, hBin⟩
  · rintro ⟨c, ⟨hLive, hc, hFree⟩, rfl⟩
    exact (A.marks.binned _ h).mpr ⟨c, hc, A.free_binNum hLive not_mem_nil hc hFree⟩

theorem searched_bins {rounded : Nat} {b : BinNum} :
    b ∈ (range kNumBins).drop (binNumForSize rounded) ↔ binNumForSize rounded ≤ b ∧ b ≤ 20 := by
  have hLast := binNumForSize_le rounded
  rw [range_eq_range', drop_range', mem_range'_1, kNumBins, zero_add,
    mul_one, add_sub_of_le (le_succ_of_le hLast), Nat.lt_succ_iff]

theorem Arranged.findChunk_best (A : Arranged L recycled [] loose s) (rounded : Nat) :
    ∃ found, s.findChunk rounded ((range kNumBins).drop (binNumForSize rounded)) =
        .ok found ∧
      (found = none → ∀ x d, Arranged.Free L s x d → d.size < rounded) ∧
      ∀ b h, found = some (b, h) → h ∈ s.bins b ∧ ∃ c, Arranged.Free L s h c ∧ rounded ≤ c.size ∧
        ∀ x d, Arranged.Free L s x d → rounded ≤ d.size →
          x = h ∨ c.size < d.size ∨ c.size = d.size ∧ c.ptr < d.ptr := by
  have hOrder : ((range kNumBins).drop (binNumForSize rounded)).Pairwise (· < ·) :=
    pairwise_lt_range.sublist (drop_sublist ..)
  obtain ⟨found, hFound, hNone, hSome⟩ := A.findChunk_first rounded hOrder
  -- every free chunk that fits is in one of the bins that are searched
  have hSearched {x : ChunkHandle} {d : Chunk} (hx : Arranged.Free L s x d)
      (hFits : rounded ≤ d.size) : binNumForSize d.size ∈
        (range kNumBins).drop (binNumForSize rounded) ∧ x ∈ s.bins (binNumForSize d.size) :=
    ⟨searched_bins.mpr ⟨binNumForSize_mono hFits, binNumForSize_le _⟩,
      A.binned_iff.mpr ⟨d, hx, rfl⟩⟩
  refine ⟨found, hFound, ?_, ?_⟩
  · intro hEmpty x d hx
    by_contra hNot
    obtain ⟨hBin, hMem⟩ := hSearched hx (not_lt.mp hNot)
    exact hNone hEmpty _ hBin x hMem ⟨d, hx.2.1, not_lt.mp hNot⟩
  · intro b h hh
    obtain ⟨_, hMem, ⟨c, hc, hFits⟩, hLeast⟩ := hSome b h hh
    obtain ⟨c', hFree, hb⟩ := A.binned_iff.mp hMem
    cases hc.symm.trans hFree.2.1
    refine ⟨hMem, c, hFree, hFits, ?_⟩
    intro x d hx hFits'
    obtain ⟨hBin, hMem'⟩ := hSearched hx hFits'
    rcases hLeast _ hBin x hMem' ⟨d, hx.2.1, hFits'⟩ with hLater | ⟨_, hEq | hLess⟩
    · -- a chunk of a later bin is larger
      refine .inr (.inl ?_)
      by_contra hNot
      have hMono := binNumForSize_mono (not_lt.mp hNot)
      rw [hb] at hLater
      exact not_lt.mpr hMono hLater
    · exact .inl hEq
    · rw [chunkLess_iff hc hx.2.1] at hLess
      exact .inr hLess

end Search

section Take

namespace Arranged

variable {L : Layout} {recycled loose : List ChunkHandle} {s s' : BFCAllocator}
  {h : ChunkHandle} {c : Chunk}

theorem markInUse (A : Arranged L recycled [h] loose s) (numBytes : Nat)
    (hLoose : ∀ z ∈ loose, z = h) (hc : s.chunks[h]? = some c) (hIds : 0 < s.nextAllocationId) :
    ∃ s' c', s.markInUse h numBytes = .ok (c.ptr, s') ∧ Arranged L recycled [] [] s' ∧
      Taken s s' c.ptr c.size numBytes ∧ s'.chunks[h]? = some c' ∧ c'.inUse ∧
      c'.ptr = c.ptr ∧ c'.size = c.size := by
  obtain ⟨hLive, hFree, hNone⟩ := A.held_chunk mem_cons_self hc
  let used : Chunk := { c with requestedSize := numBytes, allocationId := s.nextAllocationId }
  have hUse : used.inUse := by
    simp only [used, Chunk.inUse, decide_eq_true_eq]
    omega
  let bytesInUse := s.stats.bytesInUse + c.size
  refine ⟨{ s.setChunk h used with
    nextAllocationId := s.nextAllocationId + 1
    stats :=
      { numAllocs := s.stats.numAllocs + 1
        bytesInUse := bytesInUse
        maxBytesInUse := max s.stats.maxBytesInUse bytesInUse
        maxAllocSize := max s.stats.maxAllocSize c.size } }, used, ?_,
    ⟨A.placement_set hc rfl,
      A.marks.use hLoose (A.not_recycled hLive) hc rfl hUse hNone hNone, ?_⟩,
    ⟨⟨rfl, rfl, rfl, rfl⟩, rfl, rfl, usage_set_inUse hc hFree hUse⟩, getElem?_set_self hc, hUse,
    rfl, rfl⟩
  · rw [BFCAllocator.markInUse, chunkFromHandle_eq hc]
    rfl
  · intro x d hx hd hFree' _
    by_cases hEq : x = h
    · subst hEq
      cases (getElem?_set_self hc).symm.trans hd
      exact absurd (hUse.symm.trans hFree') (by simp)
    · exact A.positive x d hx ((getElem?_set_ne hEq).symm.trans hd) hFree'
        (by simpa using hEq)

/-- What a call of `FindChunkPtr` leaves: nothing has changed, or the best fit is in use. -/
def Found (s : BFCAllocator) (rounded numBytes : Nat) (found : Option Nat) (s' : BFCAllocator) :
    Prop :=
  (found = none ∧ s' = s ∧
    s.findChunk rounded ((range kNumBins).drop (binNumForSize rounded)) = .ok none) ∨
  ∃ b h c p size L' recycled' c', found = some p ∧
    s.findChunk rounded ((range kNumBins).drop (binNumForSize rounded)) = .ok (some (b, h)) ∧
    s.chunks[h]? = some c ∧ p = c.ptr ∧ rounded ≤ size ∧ Arranged L' recycled' [] [] s' ∧
    Taken s s' p size numBytes ∧ s'.chunks[h]? = some c' ∧ c'.inUse ∧ c'.ptr = p ∧ c'.size = size

/-- A call of `FindChunkPtr` returns if there is room. -/
theorem findChunkPtr_goes (A : Arranged L recycled [] [] s) (hIds : 0 < s.nextAllocationId)
    {rounded : Nat} (numBytes : Nat) (hUnit : 256 ∣ rounded)
    (hGoes : (∃ result, s.findChunkPtr (binNumForSize rounded) rounded numBytes = .ok result) ∨
      Roomy s 1) :
    ∃ found s', s.findChunkPtr (binNumForSize rounded) rounded numBytes = .ok (found, s') ∧
      Found s rounded numBytes found s' := by
  obtain ⟨place, hFound, hSpec⟩ := A.findChunk_best rounded
  cases place with
  | none =>
    refine ⟨none, s, ?_, .inl ⟨rfl, rfl, hFound⟩⟩
    exact congrArg (fun result => result >>= _) hFound
  | some place =>
    obtain ⟨b, h⟩ := place
    obtain ⟨hh, c, ⟨hLive, hc, hFree⟩, hFits, _⟩ := hSpec.2 b h rfl
    obtain ⟨s₁, hRemove, A₁, hFrame₁, hRegions, hChunks⟩ := A.removeFreeChunkIter hh hc
    have hc₁ : s₁.chunks[h]? = some { c with binNum := none } := by
      rw [hChunks, getElem?_set_self hc]
    have hIds₁ : 0 < s₁.nextAllocationId := by
      rw [hFrame₁.nextId]
      exact hIds
    obtain ⟨r, hr, hhr⟩ := hLive
    have hPos := A.positive h c ⟨r, hr, hhr⟩ hc hFree not_mem_nil
    have hSize := (A.placement.lies hr hhr (cellsOf_eq hc)).2.2
    have hHalf := (A.placement.ordinary r hr).half
    have hLow := (A.placement.lies hr hhr (cellsOf_eq hc)).1
    simp only [Chunk.cell] at hSize hLow
    -- a chunk has less than half of the address space, so that the doubling does not wrap
    have hDouble : sizeT (rounded * 2) = rounded * 2 := sizeT_of_lt (by omega)
    have hCall : s.findChunkPtr (binNumForSize rounded) rounded numBytes =
        (if rounded * 2 ≤ c.size then s₁.splitChunk h rounded else .ok s₁) >>= fun s =>
          s.markInUse h numBytes >>= fun result => .ok (some result.1, result.2) := by
      rw [BFCAllocator.findChunkPtr, hFound]
      simp only [ok_bind, hRemove, chunkFromHandle_eq hc₁, hDouble]
      split <;> rfl
    rw [hCall] at hGoes ⊢
    split
    · rename_i hLarge
      rw [if_pos hLarge] at hGoes
      have hSplits : (∃ s', s₁.splitChunk h rounded = .ok s') ∨ Roomy s₁ 1 := by
        rcases hGoes with hReturns | hRoomy
        · obtain ⟨_, hOk⟩ := hReturns
          obtain ⟨s', hSplit, _⟩ := bind_eq_ok.mp hOk
          exact .inl ⟨s', hSplit⟩
        · refine .inr ⟨hRegions ▸ hRoomy.indexed, ?_⟩
          rw [hChunks, length_set]
          exact hRoomy.room
      obtain ⟨s₂, L', recycled', hSplit, A₂, hFrame₂, c₂, hc₂, hPtr₂, hSize₂⟩ :=
        A₁.splitChunk hc₁ hUnit (show rounded < c.size by omega) hSplits
      obtain ⟨s₃, c₃, hMark, A₃, hTaken, hc₃, hUse, hPtr₃, hSize₃⟩ :=
        A₂.markInUse numBytes (by simp) hc₂ (by rw [hFrame₂.nextId]; exact hIds₁)
      refine ⟨some c₂.ptr, s₃, ?_, .inr ⟨b, h, c, c₂.ptr, c₂.size, L', recycled', c₃, rfl, hFound,
        hc, hPtr₂, ?_, A₃, (hFrame₁.trans hFrame₂).taken hTaken, hc₃, hUse, hPtr₃, hSize₃⟩⟩
      · rw [hSplit, ok_bind, hMark]
        rfl
      · rw [hSize₂]
    · obtain ⟨s₃, c₃, hMark, A₃, hTaken, hc₃, hUse, hPtr₃, hSize₃⟩ :=
        A₁.markInUse numBytes (by simp) hc₁ hIds₁
      refine ⟨some c.ptr, s₃, ?_, .inr ⟨b, h, c, c.ptr, c.size, L, recycled, c₃, rfl, hFound, hc,
        rfl, hFits, A₃, hFrame₁.taken hTaken, hc₃, hUse, hPtr₃, hSize₃⟩⟩
      rw [ok_bind, hMark]
      rfl

theorem findChunkPtr (A : Arranged L recycled [] [] s) (hIds : 0 < s.nextAllocationId)
    {rounded numBytes : Nat} (hUnit : 256 ∣ rounded) {found : Option Nat}
    (hOk : s.findChunkPtr (binNumForSize rounded) rounded numBytes = .ok (found, s')) :
    Found s rounded numBytes found s' := by
  obtain ⟨found', s₁, hOk', hFound⟩ := A.findChunkPtr_goes hIds numBytes hUnit (.inl ⟨_, hOk⟩)
  cases hOk.symm.trans hOk'
  exact hFound

end Arranged

end Take

end TensorFlowOnSpark.CommonRuntime
