import Mathlib.Data.List.Nodup

/-!
# Doubly linked lists that tile an interval

A cell covers an interval of addresses and names the cells before and after it.
-/

namespace TensorFlowOnSpark.Linked

open List Option Nat

theorem eq_or_of_pairwise {α : Type} {R : α → α → Prop} {l : List α} (h : l.Pairwise R) {x y : α}
    (hx : x ∈ l) (hy : y ∈ l) : x = y ∨ R x y ∨ R y x := by
  obtain ⟨before, after, rfl⟩ := append_of_mem hx
  rw [pairwise_append, pairwise_cons] at h
  rcases mem_append.mp hy with hBefore | hAfter
  · exact .inr (.inr (h.2.2 y hBefore x mem_cons_self))
  · rcases mem_cons.mp hAfter with rfl | hAfter
    · exact .inl rfl
    · exact .inr (.inl (h.2.1.1 y hAfter))

structure Cell where
  start : Nat
  size : Nat
  prev : Option Nat
  next : Option Nat

/-- From `start` to `stop` through the given cells, with the links of the two ends. -/
def Segment (unit : Nat) (cells : Nat → Option Cell) :
    Option Nat → Nat → List Nat → Option Nat → Nat → Prop
  | _, start, [], _, stop => start = stop
  | prev, start, h :: rest, next, stop => ∃ size, 0 < size ∧ unit ∣ size ∧
      cells h = some ⟨start, size, prev, rest.head?.or next⟩ ∧
      Segment unit cells (some h) (start + size) rest next stop

variable {unit : Nat} {cells cells' : Nat → Option Cell} {prev next : Option Nat}
  {start stop : Nat} {hs : List Nat}

theorem segment_append {xs ys : List Nat} :
    Segment unit cells prev start (xs ++ ys) next stop ↔
      ∃ middle, Segment unit cells prev start xs (ys.head?.or next) middle ∧
        Segment unit cells (xs.getLast?.or prev) middle ys next stop := by
  induction xs generalizing prev start with
  | nil => simp [Segment]
  | cons x xs ih =>
    have hHead : (xs ++ ys).head?.or next = xs.head?.or (ys.head?.or next) := by
      rw [head?_append, Option.or_assoc]
    have hLast : (x :: xs).getLast?.or prev = xs.getLast?.or (some x) := by
      cases xs with
      | nil => rfl
      | cons y ys =>
        rw [getLast?_cons_cons, getLast?_cons, some_or, some_or]
    rw [hLast]
    constructor
    · rintro ⟨size, hPos, hUnit, hCell, hRest⟩
      obtain ⟨middle, hFirst, hSecond⟩ := ih.mp hRest
      exact ⟨middle, ⟨size, hPos, hUnit, hHead ▸ hCell, hFirst⟩, hSecond⟩
    · rintro ⟨middle, ⟨size, hPos, hUnit, hCell, hFirst⟩, hSecond⟩
      exact ⟨size, hPos, hUnit, hHead.symm ▸ hCell, ih.mpr ⟨middle, hFirst, hSecond⟩⟩

section

variable (h : Segment unit cells prev start hs next stop)
include h

theorem Segment.congr
    (hSame : ∀ x ∈ hs, cells' x = cells x) : Segment unit cells' prev start hs next stop := by
  induction hs generalizing prev start with
  | nil => exact h
  | cons x xs ih =>
    obtain ⟨size, hPos, hUnit, hCell, hRest⟩ := h
    refine ⟨size, hPos, hUnit, ?_, ih hRest fun y hy => hSame y (mem_cons_of_mem _ hy)⟩
    rw [hSame x mem_cons_self, hCell]

theorem Segment.rehead {prev' : Option Nat}
    (hHead : ∀ x, hs.head? = some x →
      cells' x = (cells x).map fun cell => { cell with prev := prev' })
    (hTail : ∀ x ∈ hs.tail, cells' x = cells x) :
    Segment unit cells' prev' start hs next stop := by
  cases hs with
  | nil => exact h
  | cons x xs =>
    obtain ⟨size, hPos, hUnit, hCell, hRest⟩ := h
    refine ⟨size, hPos, hUnit, ?_, hRest.congr hTail⟩
    rw [hHead x rfl, hCell, map_some]

theorem Segment.le : start ≤ stop := by
  induction hs generalizing prev start with
  | nil => exact Nat.le_of_eq h
  | cons x xs ih =>
    obtain ⟨size, _, _, _, hRest⟩ := h
    have hLe := ih hRest
    omega

theorem Segment.mem {x : Nat} (hx : x ∈ hs) :
    ∃ cell, cells x = some cell ∧ 0 < cell.size ∧ unit ∣ cell.size ∧ start ≤ cell.start ∧
      unit ∣ cell.start - start ∧ cell.start + cell.size ≤ stop := by
  induction hs generalizing prev start with
  | nil => cases hx
  | cons y ys ih =>
    obtain ⟨size, hPos, hUnit, hCell, hRest⟩ := h
    rcases mem_cons.mp hx with rfl | hx
    · exact ⟨_, hCell, hPos, hUnit, Nat.le_refl _, by simp, hRest.le⟩
    · obtain ⟨cell, hCell', hPos', hUnit', hLow, hOffset, hHigh⟩ := ih hRest hx
      refine ⟨cell, hCell', hPos', hUnit', by omega, ?_, hHigh⟩
      have hSum : cell.start - start = size + (cell.start - (start + size)) := by omega
      rw [hSum]
      exact Nat.dvd_add hUnit hOffset

theorem Segment.pairwise :
    hs.Pairwise fun x y => ∀ cx cy, cells x = some cx → cells y = some cy →
      cx.start + cx.size ≤ cy.start := by
  induction hs generalizing prev start with
  | nil => exact .nil
  | cons x xs ih =>
    obtain ⟨size, _, _, hCell, hRest⟩ := h
    refine pairwise_cons.mpr ⟨?_, ih hRest⟩
    intro y hy cx cy hx hy'
    obtain ⟨cell, hCell', _, _, hLow, _⟩ := hRest.mem hy
    cases hCell.symm.trans hx
    cases hCell'.symm.trans hy'
    exact hLow

theorem Segment.nodup : hs.Nodup := by
  refine h.pairwise.imp_of_mem ?_
  intro x y hx _ hLe hEq
  obtain ⟨cell, hCell, hPos, _⟩ := h.mem hx
  have hSelf := hLe cell cell hCell (hEq ▸ hCell)
  omega

theorem Segment.disjoint {x y : Nat} (hx : x ∈ hs) (hy : y ∈ hs) (hne : x ≠ y) {cx cy : Cell}
    (hcx : cells x = some cx) (hcy : cells y = some cy) :
    cx.start + cx.size ≤ cy.start ∨ cy.start + cy.size ≤ cx.start := by
  rcases eq_or_of_pairwise h.pairwise hx hy with hEq | hLess | hLess
  · exact absurd hEq hne
  · exact .inl (hLess cx cy hcx hcy)
  · exact .inr (hLess cy cx hcy hcx)

theorem Segment.length : hs.length * unit ≤ stop - start := by
  induction hs generalizing prev start with
  | nil => simp
  | cons x xs ih =>
    obtain ⟨size, hPos, hUnit, _, hRest⟩ := h
    have hLength := ih hRest
    have hLe := hRest.le
    have hSize := le_of_dvd hPos hUnit
    rw [length_cons, succ_mul]
    omega

end

section Surgery

variable {before after : List Nat} {x y : Nat}

theorem segment_at :
    Segment unit cells prev start (before ++ x :: after) next stop ↔
      ∃ middle size, 0 < size ∧ unit ∣ size ∧
        cells x = some ⟨middle, size, before.getLast?.or prev, after.head?.or next⟩ ∧
        Segment unit cells prev start before (some x) middle ∧
        Segment unit cells (some x) (middle + size) after next stop := by
  rw [segment_append]
  constructor
  · rintro ⟨middle, hBefore, size, hPos, hUnit, hCell, hAfter⟩
    exact ⟨middle, size, hPos, hUnit, hCell, hBefore, hAfter⟩
  · rintro ⟨middle, size, hPos, hUnit, hCell, hBefore, hAfter⟩
    exact ⟨middle, hBefore, size, hPos, hUnit, hCell, hAfter⟩

variable {cx : Cell}

theorem Segment.length_lt (h : Segment unit cells prev start hs next stop) (hx : x ∈ hs)
    (hcx : cells x = some cx) (hSize : 2 * unit ≤ cx.size) :
    (hs.length + 1) * unit ≤ stop - start := by
  obtain ⟨before, after, rfl⟩ := append_of_mem hx
  obtain ⟨middle, size, _, _, hAt, hBefore, hAfter⟩ := segment_at.mp h
  cases hcx.symm.trans hAt
  have hLength := hBefore.length
  have hLength' := hAfter.length
  have hLe := hBefore.le
  have hLe' := hAfter.le
  rw [length_append, length_cons]
  simp only [Nat.add_mul]
  simp only at hSize
  omega

theorem Segment.split_next (h : Segment unit cells prev start hs none stop) (hx : x ∈ hs)
    (hcx : cells x = some cx) (hNext : cx.next = some y) :
    ∃ before after, hs = before ++ x :: y :: after ∧
      ∃ cy, cells y = some cy ∧ cy.prev = some x ∧ cy.start = cx.start + cx.size := by
  obtain ⟨before, after, rfl⟩ := append_of_mem hx
  obtain ⟨middle, size, _, _, hAt, _, hAfter⟩ := segment_at.mp h
  cases hcx.symm.trans hAt
  cases after with
  | nil => cases hNext
  | cons z rest =>
    cases hNext
    obtain ⟨size', _, _, hCell, _⟩ := hAfter
    exact ⟨before, rest, rfl, _, hCell, rfl, rfl⟩

theorem Segment.split_prev (h : Segment unit cells none start hs next stop) (hx : x ∈ hs)
    (hcx : cells x = some cx) (hPrev : cx.prev = some y) :
    ∃ before after, hs = before ++ y :: x :: after ∧
      ∃ cy, cells y = some cy ∧ cy.next = some x ∧ cx.start = cy.start + cy.size := by
  obtain ⟨before, after, rfl⟩ := append_of_mem hx
  obtain ⟨middle, size, _, _, hAt, hBefore, _⟩ := segment_at.mp h
  cases hcx.symm.trans hAt
  rw [or_none] at hPrev
  obtain ⟨rest, rfl⟩ := getLast?_eq_some_iff.mp hPrev
  obtain ⟨middle', size', _, _, hCell, _, hEnd⟩ := segment_at.mp hBefore
  exact ⟨rest, after, by simp, _, hCell, rfl, hEnd.symm⟩

def Relinks (cells cells' : Nat → Option Cell) (x y : Nat) (follows : Option Nat) (link : Nat) :
    Prop :=
  ∀ z, z ≠ x → z ≠ y → cells' z =
    if follows = some z then (cells z).map fun cell => { cell with prev := some link }
    else cells z

variable {follows : Option Nat}

theorem Relinks.same {link : Nat} (h : Relinks cells cells' x y follows link)
    {z : Nat} (hx : z ≠ x) (hy : z ≠ y) (hz : follows ≠ some z) : cells' z = cells z := by
  rw [h z hx hy, if_neg hz]

theorem Relinks.rest {link : Nat} (h : Relinks cells cells' x y follows link)
    (hSegment : Segment unit cells prev start after none stop) (hx : x ∉ after) (hy : y ∉ after)
    (hFollows : follows = after.head?) : Segment unit cells' (some link) start after none stop := by
  have hNodup := hSegment.nodup
  subst hFollows
  refine hSegment.rehead ?_ ?_
  · intro z hz
    have hMem := mem_of_head? hz
    rw [h z (fun hEq => hx (hEq ▸ hMem)) (fun hEq => hy (hEq ▸ hMem)), if_pos hz]
  · intro z hz
    have hMem := mem_of_mem_tail hz
    refine h.same (fun hEq => hx (hEq ▸ hMem)) (fun hEq => hy (hEq ▸ hMem)) ?_
    intro hHead
    cases after with
    | nil => cases hHead
    | cons w rest =>
      cases hHead
      exact (nodup_cons.mp hNodup).1 hz

theorem Segment.insert (h : Segment unit cells prev start (before ++ x :: after) none stop)
    {cell : Cell} (hCell : cells x = some cell) {kept : Nat} (hKept : 0 < kept)
    (hUnit : unit ∣ kept) (hSize : kept < cell.size) (hy : y ∉ before ++ x :: after)
    (hRelinks : Relinks cells cells' x y cell.next y)
    (hx' : cells' x = some { cell with size := kept, next := some y })
    (hy' : cells' y = some ⟨cell.start + kept, cell.size - kept, some x, cell.next⟩) :
    Segment unit cells' prev start (before ++ x :: y :: after) none stop := by
  have hNodup := h.nodup
  rw [nodup_append, nodup_cons] at hNodup
  obtain ⟨middle, size, hPos, hUnit', hAt, hBefore, hAfter⟩ := segment_at.mp h
  cases hCell.symm.trans hAt
  simp only [mem_append, mem_cons, not_or] at hy
  simp only at hSize hRelinks hx' hy'
  refine segment_at.mpr ⟨middle, kept, hKept, hUnit, hx', ?_, size - kept, by omega, ?_, ?_, ?_⟩
  · refine hBefore.congr fun z hz => hRelinks.same ?_ ?_ ?_
    · exact hNodup.2.2 z hz x mem_cons_self
    · exact fun hEq => hy.1 (hEq ▸ hz)
    · rw [or_none]
      intro hHead
      exact hNodup.2.2 z hz z (mem_cons_of_mem _ (mem_of_head? hHead)) rfl
  · exact dvd_sub hUnit' hUnit
  · exact hy'
  · have hEnd : middle + kept + (size - kept) = middle + size := by omega
    rw [hEnd]
    exact hRelinks.rest hAfter hNodup.2.1.1 hy.2.2 (or_none ..)

theorem Segment.remove (h : Segment unit cells prev start (before ++ x :: y :: after) none stop)
    {cy : Cell} (hcx : cells x = some cx) (hcy : cells y = some cy)
    (hRelinks : Relinks cells cells' x y cy.next x)
    (hx' : cells' x = some { cx with size := cx.size + cy.size, next := cy.next }) :
    Segment unit cells' prev start (before ++ x :: after) none stop := by
  have hNodup := h.nodup
  rw [nodup_append, nodup_cons, nodup_cons] at hNodup
  obtain ⟨middle, size, hPos, hUnit, hAt, hBefore, size', hPos', hUnit', hAt', hAfter⟩ :=
    segment_at.mp h
  cases hcx.symm.trans hAt
  cases hcy.symm.trans hAt'
  refine segment_at.mpr ⟨middle, size + size', by omega, Nat.dvd_add hUnit hUnit', ?_, ?_, ?_⟩
  · exact hx'
  · refine hBefore.congr fun z hz => hRelinks.same ?_ ?_ ?_
    · exact hNodup.2.2 z hz x mem_cons_self
    · exact hNodup.2.2 z hz y (mem_cons_of_mem _ mem_cons_self)
    · rw [or_none]
      intro hHead
      have hMem := mem_cons_of_mem x (mem_cons_of_mem y (mem_of_head? hHead))
      exact hNodup.2.2 z hz z hMem rfl
  · rw [← Nat.add_assoc]
    refine hRelinks.rest hAfter ?_ hNodup.2.1.2.1 (or_none ..)
    exact fun hMem => hNodup.2.1.1 (mem_cons_of_mem _ hMem)

end Surgery

end TensorFlowOnSpark.Linked
