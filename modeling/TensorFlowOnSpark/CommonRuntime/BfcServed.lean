import TensorFlowOnSpark.CommonRuntime.BfcGrants

/-!
# What is handed out is as large as what was asked for

A request of more than `2 ^ 64 - 256` bytes is rounded to zero bytes, and in a region of
more than `2 ^ 39` bytes there are addresses without an `int` index.
-/

namespace TensorFlowOnSpark.CommonRuntime

open Linked Transition Fallible BFCAllocator List Bool Nat

def Sensible (s : BfcState) : BfcAction → Prop
  | .allocateRaw numBytes answers =>
    numBytes ≤ 2 ^ 64 - 256 ∧ Promised (2 ^ 39) s (.allocateRaw numBytes answers)
  | .deallocateRaw ptr => ∃ numBytes, (ptr, numBytes) ∈ s.live

def OneFreeRegion (s s' : BFCAllocator) : Prop :=
  ∃ p bytes y c, Arranged.AddsRegion s s' p bytes y c ∧
    ∀ b h, h ∈ s'.bins b ↔ h ∈ s.bins b ∨ h = y ∧ b = binNumForSize bytes

/-- What `AllocateRaw` promises: a pointer is to enough bytes, away from all that is out, and
without a pointer nothing is gone. -/
def NeverLess (s : BfcState) (s' : BFCAllocator) (numBytes : Nat) : Option Nat → Prop
  | some p => ∃ size, s'.allocatedSize p = .ok size ∧ numBytes ≤ size ∧ ∀ a ∈ s.live,
      ∃ other, s'.allocatedSize a.1 = .ok other ∧ (p + size ≤ a.1 ∨ a.1 + other ≤ p)
  | none => (s'.chunks = s.allocator.chunks ∧ s'.bins = s.allocator.bins) ∨
      OneFreeRegion s.allocator s'

structure Steady (L : Layout) (recycled : List ChunkHandle) (s : BFCAllocator) : Prop
    extends Filed L recycled s where
  sized : ∀ u ∈ usage s.chunks, 0 < u.2.1 ∧ u.2.2 ≤ u.2.1

variable {answers rest : List (Option Nat)}

section Chunks

variable {L : Layout} {recycled : List ChunkHandle} {s s' : BFCAllocator} {h : ChunkHandle}
  {c : Chunk} {p size numBytes : Nat}

theorem Arranged.live_of_inUse (A : Arranged L recycled [] [] s) (hc : s.chunks[h]? = some c)
    (hUse : c.inUse) : Live L s.regions h := by
  refine (A.live_or_recycled hc).resolve_left fun hMem => ?_
  obtain ⟨d, hd, hFree, _⟩ := A.marks.idle h hMem
  cases hc.symm.trans hd
  exact absurd (hUse.symm.trans hFree) (by simp)

theorem Steady.getHandle (h : Steady L recycled s) {u : Nat × Nat × Nat}
    (hu : u ∈ usage s.chunks) : ∃ x c, RegionManager.getHandle u.1 s.regions = .ok (some x) ∧
      Live L s.regions x ∧ s.chunks[x]? = some c ∧ c.inUse ∧ 0 < u.1 ∧
      u = (c.ptr, c.size, c.requestedSize) := by
  have P := h.arranged.placement
  have hPos := (h.sized u hu).1
  obtain ⟨x, c, hc, hUse, rfl⟩ := mem_usage.mp hu
  obtain ⟨r, hr, hx⟩ := h.arranged.live_of_inUse hc hUse
  obtain ⟨hLow, _, hHigh⟩ := P.lies hr hx (cellsOf_eq hc)
  obtain ⟨hSlot, hHandle⟩ := P.indexed r hr x hx _ (cellsOf_eq hc) hPos
  have hNonNull := (P.ordinary r hr).nonNull
  simp only [Chunk.cell] at hLow hHigh hSlot hHandle hPos
  refine ⟨x, c, ?_, ⟨r, hr, hx⟩, hc, hUse, lt_of_lt_of_le hNonNull hLow, rfl⟩
  rw [getHandle_ordinary P.ordinary P.sorted hr hLow (by omega)]
  refine (if_pos hSlot).trans ?_
  exact congrArg Except.ok (hHandle (le_trans (h.bounded r hr) (by decide)))

theorem Steady.allocatedSize_eq (h : Steady L recycled s) {u : Nat × Nat × Nat}
    (hu : u ∈ usage s.chunks) : s.allocatedSize u.1 = .ok u.2.1 := by
  obtain ⟨x, c, hHandle, _, hc, _, _, rfl⟩ := h.getHandle hu
  rw [allocatedSize, hHandle, ok_bind]
  simp only [chunkFromHandle_eq hc]
  rfl

theorem Steady.usage_disjoint (h : Steady L recycled s) :
    (usage s.chunks).Pairwise fun u v => u.1 + u.2.1 ≤ v.1 ∨ v.1 + v.2.1 ≤ u.1 := by
  have hSized := h.sized
  rw [usage, forall_mem_map] at hSized
  rw [usage, pairwise_map, pairwise_filter, pairwise_iff_getElem]
  intro i j hi hj hij hUse hUse'
  have hci : s.chunks[i]? = some s.chunks[i] := getElem?_eq_getElem hi
  have hcj : s.chunks[j]? = some s.chunks[j] := getElem?_eq_getElem hj
  exact h.arranged.placement.disjoint i j _ _ (h.arranged.live_of_inUse hci hUse)
    (h.arranged.live_of_inUse hcj hUse') (Nat.ne_of_lt hij) (cellsOf_eq hci) (cellsOf_eq hcj)
    (hSized _ (mem_filter.mpr ⟨getElem_mem hi, hUse⟩)).1
    (hSized _ (mem_filter.mpr ⟨getElem_mem hj, hUse'⟩)).1

theorem sized_of_perm {entries entries' : List (Nat × Nat × Nat)}
    (hPerm : entries'.Perm ((p, size, numBytes) :: entries))
    (hSized : ∀ u ∈ entries, 0 < u.2.1 ∧ u.2.2 ≤ u.2.1) (hPos : 0 < size)
    (hEnough : numBytes ≤ size) : ∀ u ∈ entries', 0 < u.2.1 ∧ u.2.2 ≤ u.2.1 := by
  intro u hu
  rcases mem_cons.mp (hPerm.mem_iff.mp hu) with rfl | hu
  · exact ⟨hPos, hEnough⟩
  · exact hSized u hu

theorem Steady.findChunkPtr (h : Steady L recycled s) (hPos : numBytes ≠ 0)
    (hBytes : numBytes ≤ 2 ^ 64 - 256) {found : Option Nat}
    (hOk : s.findChunkPtr (binNumForSize (roundedBytes numBytes)) (roundedBytes numBytes)
      numBytes = .ok (found, s')) :
    (found = none ∧ s' = s) ∨ ∃ p size L' recycled', found = some p ∧ Steady L' recycled' s' ∧
      numBytes ≤ size ∧ (usage s'.chunks).Perm ((p, size, numBytes) :: usage s.chunks) := by
  have hSame := SamePolicy.findChunkPtr hOk
  have hRounded := (roundedBytes_spec hBytes).1
  rcases h.arranged.findChunkPtr h.ids (roundedBytes_unit numBytes) hOk with
    ⟨hNone, hEq, _⟩ | ⟨_, _, _, p, size, L', recycled', _, hSome, _, _, _, hFits, A', hTaken, _⟩
  · exact .inl ⟨hNone, hEq⟩
  · have hEnough := le_trans hRounded hFits
    have hIds := h.ids
    refine .inr ⟨p, size, L', recycled', hSome,
      ⟨⟨A', ?_, hSame.curr ▸ h.units, hSame.bounded h.bounded⟩,
        sized_of_perm hTaken.usage h.sized (by omega) hEnough⟩, hEnough, hTaken.usage⟩
    rw [hTaken.nextId]
    omega

theorem Arranged.AddsRegion.bins {L' : Layout} {recycled' : List ChunkHandle} {bytes : Nat}
    (A : Arranged L recycled [] [] s) (A' : Arranged L' recycled' [] [] s')
    (hAdds : Arranged.AddsRegion s s' p bytes h c) (b : BinNum) (x : ChunkHandle) :
    x ∈ s'.bins b ↔ x ∈ s.bins b ∨ x = h ∧ b = binNumForSize bytes := by
  rw [A'.marks.binned, A.marks.binned]
  by_cases hEq : x = h
  · subst hEq
    constructor
    · rintro ⟨d, hd, hBin⟩
      cases hAdds.chunk.symm.trans hd
      exact .inr ⟨rfl, Option.some.inj (hBin.symm.trans hAdds.filed)⟩
    · rintro (⟨d, hd, hBin⟩ | ⟨_, rfl⟩)
      · cases hBin.symm.trans (hAdds.unused d hd).2
      · exact ⟨c, hAdds.chunk, hAdds.filed⟩
  · rw [hAdds.others x hEq, or_iff_left fun hNew => hEq hNew.1]

theorem Steady.extend (h : Steady L recycled s) {rounded : Nat} {extended : Bool}
    (hPromise : ∀ p asked, grant s rounded answers = some (p, asked) →
      0 < asked ∧ asked ≤ 2 ^ 39 ∧ Granted s p asked)
    (hOk : s.extend rounded answers = .ok (extended, rest, s')) :
    usage s'.chunks = usage s.chunks ∧ (∃ L' recycled', Steady L' recycled' s') ∧
      s'.chunks.length ≤ s.chunks.length + 1 ∧
      ((s'.chunks = s.chunks ∧ s'.bins = s.bins) ∨ OneFreeRegion s s') := by
  obtain ⟨L', recycled', hFiled⟩ := h.toFiled.extend hPromise hOk
  have hSteady (hUsage : usage s'.chunks = usage s.chunks) : Steady L' recycled' s' :=
    ⟨hFiled, hUsage ▸ h.sized⟩
  rcases h.arranged.extend h.units hPromise hOk with ⟨_, _, hChunks, hBins, _, _⟩ |
    ⟨_, _, _, p, _, recorded, y, c, A', _, _, _, _, _, _, hAdds⟩
  · have hUsage := congrArg usage hChunks
    refine ⟨hUsage, ⟨L', recycled', hSteady hUsage⟩, ?_, .inl ⟨hChunks, hBins⟩⟩
    rw [hChunks]
    exact le_succ _
  · exact ⟨hAdds.usage, ⟨L', recycled', hSteady hAdds.usage⟩, hAdds.grows,
      .inr ⟨p, recorded, y, c, hAdds, hAdds.bins h.arranged A'⟩⟩

theorem Steady.deallocateRaw (h : Steady L recycled s)
    (hMem : (p, size, numBytes) ∈ usage s.chunks) (hOk : s.deallocateRawInternal p = .ok s') :
    ∃ L' recycled', Steady L' recycled' s' ∧
      (usage s.chunks).Perm ((p, size, numBytes) :: usage s'.chunks) := by
  obtain ⟨x, c, hHandle, hLive, hc, hUse, hNonNull, hEq⟩ := h.getHandle hMem
  have hPos := (h.sized _ hMem).1
  cases hEq
  rcases deallocateRaw_eq_ok hOk with ⟨hNull, _⟩ | ⟨x', hHandle', hFree⟩
  · exact absurd hNull (ne_of_gt hNonNull)
  · cases hHandle.symm.trans hHandle'
    have hSame := SamePolicy.freeAndMaybeCoalesce hFree
    obtain ⟨_, L', recycled', A', hFrame⟩ := h.arranged.freeAndMaybeCoalesce hLive hc hPos hFree
    have hPerm : (usage s.chunks).Perm ((c.ptr, c.size, c.requestedSize) :: usage s'.chunks) := by
      rw [hFrame.usage]
      exact usage_set_free hc hUse rfl
    refine ⟨L', recycled', ⟨⟨A', ?_, hSame.curr ▸ h.units, hSame.bounded h.bounded⟩, ?_⟩, hPerm⟩
    · rw [hFrame.nextId]
      exact h.ids
    · intro u hu
      exact h.sized u (hPerm.mem_iff.mpr (mem_cons_of_mem _ hu))

end Chunks

section Runs

variable {L : Layout} {recycled : List ChunkHandle} {state state' : BfcState}

structure Served (L : Layout) (recycled : List ChunkHandle) (s : BfcState) : Prop where
  steady : Steady L recycled s.allocator
  live : ∀ a ∈ s.live, ∃ size, (a.1, size, a.2) ∈ usage s.allocator.chunks

/-- What an attempt to allocate leaves. -/
theorem Served.allocateRaw (h : Served L recycled state) {numBytes : Nat} {found : Option Nat}
    {s' : BFCAllocator} (hSensible : Sensible state (.allocateRaw numBytes answers))
    (hOk : state.allocator.allocateRawInternal numBytes answers = .ok (found, rest, s')) :
    NeverLess state s' numBytes found ∧
      ∃ L' recycled', Served L' recycled' ⟨s', handedOut state.live numBytes found⟩ := by
  obtain ⟨hBytes, hPromise⟩ := hSensible
  -- a chunk that is taken from a state in which the same chunks are in use
  have hTake {s₁ s' : BFCAllocator} {p size : Nat} {L' : Layout}
      {recycled' : List ChunkHandle} (hUsage : usage s₁.chunks = usage state.allocator.chunks)
      (h' : Steady L' recycled' s') (hEnough : numBytes ≤ size)
      (hPerm : (usage s'.chunks).Perm ((p, size, numBytes) :: usage s₁.chunks)) :
      NeverLess state s' numBytes (some p) ∧
        ∃ L' recycled', Served L' recycled' ⟨s', handedOut state.live numBytes (some p)⟩ := by
    rw [hUsage] at hPerm
    have hApart := (hPerm.pairwise_iff fun h => h.symm).mp h'.usage_disjoint
    have hNew := h'.allocatedSize_eq (hPerm.mem_iff.mpr mem_cons_self)
    refine ⟨⟨size, hNew, hEnough, ?_⟩, L', recycled', h', ?_⟩
    · intro a ha
      obtain ⟨other, hMem⟩ := h.live a ha
      have hOther := h'.allocatedSize_eq (hPerm.mem_iff.mpr (mem_cons_of_mem _ hMem))
      exact ⟨other, hOther, (pairwise_cons.mp hApart).1 _ hMem⟩
    · intro a ha
      rcases mem_cons.mp ha with rfl | ha
      · exact ⟨size, hPerm.mem_iff.mpr mem_cons_self⟩
      · obtain ⟨other, hMem⟩ := h.live a ha
        exact ⟨other, hPerm.mem_iff.mpr (mem_cons_of_mem _ hMem)⟩
  cases allocateRaw_eq_ok hOk with
  | nothing zero => exact ⟨.inl ⟨rfl, rfl⟩, L, recycled, h⟩
  | found positive find =>
    rcases h.steady.findChunkPtr positive hBytes find with ⟨hNone, _⟩ |
      ⟨p, size, L', recycled', hSome, h', hEnough, hPerm⟩
    · cases hNone
    · cases hSome
      exact hTake rfl h' hEnough hPerm
  | refused positive find extend =>
    obtain ⟨hUsage, ⟨L', recycled', h'⟩, _, hLeft⟩ := h.steady.extend hPromise extend
    refine ⟨hLeft, L', recycled', h', ?_⟩
    rw [hUsage]
    exact h.live
  | extended positive find extend again =>
    obtain ⟨hUsage, ⟨L₁, recycled₁, h₁⟩, _, hLeft⟩ := h.steady.extend hPromise extend
    rcases h₁.findChunkPtr positive hBytes again with ⟨rfl, rfl⟩ |
      ⟨p, size, L', recycled', hSome, h', hEnough, hPerm⟩
    · refine ⟨hLeft, L₁, recycled₁, h₁, ?_⟩
      rw [hUsage]
      exact h.live
    · cases hSome
      exact hTake hUsage h' hEnough hPerm

theorem Steady.findChunkPtr_goes {s : BFCAllocator} (h : Steady L recycled s)
    (hRoom : s.chunks.length < 2 ^ 31) (numBytes : Nat) :
    ∃ result, s.findChunkPtr (binNumForSize (roundedBytes numBytes)) (roundedBytes numBytes)
      numBytes = .ok result := by
  obtain ⟨found, s', hOk, _⟩ := h.arranged.findChunkPtr_goes h.ids numBytes
    (roundedBytes_unit numBytes) (.inr ⟨h.bounded, hRoom⟩)
  exact ⟨_, hOk⟩

/-- An attempt to allocate fails no check; at most it needs more answers, or it doubles for ever. -/
theorem Served.allocateRaw_goes (h : Served L recycled state) {numBytes : Nat}
    (hSensible : Sensible state (.allocateRaw numBytes answers))
    (hRoom : state.allocator.chunks.length + 2 ≤ 2 ^ 31) :
    Ends (fun _ => True) Hangs (state.allocator.allocateRawInternal numBytes answers) := by
  rw [allocateRawInternal]
  split
  · trivial
  obtain ⟨⟨found, s₁⟩, hFind⟩ := h.steady.findChunkPtr_goes (by omega) numBytes
  refine .bind (Q := fun _ => True) (hFind ▸ trivial) fun result hResult _ => ?_
  cases hFind.symm.trans hResult
  cases found with
  | some p => trivial
  | none =>
    obtain ⟨rfl, _⟩ := findChunkPtr_none hFind
    refine .bind (h.steady.arranged.extend_goes h.steady.units hSensible.2 (by omega))
      fun result hExtend _ => ?_
    obtain ⟨extended, rest, s₂⟩ := result
    cases extended with
    | false => trivial
    | true =>
      obtain ⟨_, ⟨_, _, h₂⟩, hGrows, _⟩ := h.steady.extend hSensible.2 hExtend
      obtain ⟨⟨ptr, s₃⟩, hAgain⟩ := h₂.findChunkPtr_goes (by omega) numBytes
      exact .bind (Q := fun _ => True) (hAgain ▸ trivial) fun _ _ _ => trivial

theorem Served.step (h : Served L recycled state) {action : BfcAction}
    (hSensible : Sensible state action) (hNext : state.step action = .next state') :
    ∃ L' recycled', Served L' recycled' state' := by
  cases action with
  | allocateRaw numBytes answers =>
    obtain ⟨found, hAllocate, hLive⟩ := step_allocateRaw hNext
    obtain ⟨_, L', recycled', h'⟩ := h.allocateRaw hSensible hAllocate
    refine ⟨L', recycled', h'.steady, ?_⟩
    rw [hLive]
    exact h'.live
  | deallocateRaw ptr =>
    obtain ⟨hFree, hLive⟩ := step_deallocateRaw hNext
    obtain ⟨numBytes, hOut⟩ := hSensible
    obtain ⟨size, hMem⟩ := h.live _ hOut
    obtain ⟨L', recycled', h', hPerm⟩ := h.steady.deallocateRaw hMem hFree
    refine ⟨L', recycled', h', ?_⟩
    rw [hLive]
    intro a ha
    obtain ⟨ha, hNe⟩ := mem_filter.mp ha
    obtain ⟨other, hOther⟩ := h.live a ha
    refine ⟨other, (mem_cons.mp (hPerm.mem_iff.mp hOther)).resolve_left fun hEq => ?_⟩
    exact of_decide_eq_true hNe (congrArg Prod.fst hEq)

theorem served_of_reach {totalMemory : Nat} {allowGrowth : Bool}
    (hRun : Reach BfcState.step Sensible (BfcState.init totalMemory allowGrowth) state) :
    ∃ L recycled, Served L recycled state := by
  refine hRun.invariant (fun state => ∃ L recycled, Served L recycled state)
    ⟨_, _, ⟨filed_init totalMemory allowGrowth, nofun⟩, nofun⟩ ?_
  rintro state action state' ⟨L, recycled, h⟩ hSensible hNext
  exact h.step hSensible hNext

def sensible (s : BfcState) : BfcAction → Bool
  | .allocateRaw numBytes answers => numBytes ≤ 2 ^ 64 - 256 &&
      promised (2 ^ 39) s (.allocateRaw numBytes answers)
  | .deallocateRaw ptr => s.live.any fun a => a.1 = ptr

theorem sensible_of_test (s : BfcState) (action : BfcAction) (h : sensible s action) :
    Sensible s action := by
  cases action with
  | allocateRaw numBytes answers =>
    obtain ⟨hBytes, hPromised⟩ := (and_eq_true ..).mp h
    exact ⟨of_decide_eq_true hBytes, promised_of_test _ _ _ hPromised⟩
  | deallocateRaw ptr =>
    obtain ⟨a, ha, hEq⟩ := any_eq_true.mp h
    refine ⟨a.2, ?_⟩
    rw [← of_decide_eq_true hEq]
    exact ha

def passes (test : Option Nat → BFCAllocator → Bool) :
    Except Stop (Option Nat × List (Option Nat) × BFCAllocator) → Bool
  | .ok (found, _, s') => test found s'
  | .error _ => false

theorem eq_ok_of_passes {test : Option Nat → BFCAllocator → Bool}
    {result : Except Stop (Option Nat × List (Option Nat) × BFCAllocator)}
    (h : passes test result) :
    ∃ found rest s', result = .ok (found, rest, s') ∧ test found s' := by
  cases result with
  | error stop => cases h
  | ok value => exact ⟨value.1, value.2.1, value.2.2, rfl, h⟩

end Runs

end TensorFlowOnSpark.CommonRuntime
