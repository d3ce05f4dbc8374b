import TensorFlowOnSpark.CommonRuntime.Executor

/-!
# When a node becomes ready

The inputs that an iteration has delivered to a node decide whether the node is ready and
whether it is dead; the counts of the node are a summary of these inputs.
-/

namespace TensorFlowOnSpark.CommonRuntime

open Nat

universe u v

open List

variable {N : Type u} {V : Type v}

structure Token (N : Type u) (V : Type v) where
  edge : Edge N
  isDead : Bool
  entry : Option V

namespace Token

def isControl (k : Token N V) : Bool := k.edge.isControlEdge

def isLive (k : Token N V) : Bool := !k.edge.isControlEdge && k.entry.isSome

def isDeadData (k : Token N V) : Bool := !k.edge.isControlEdge && k.entry.isNone

def makesDead (k : Token N V) : Bool := k.isDead || k.isDeadData

end Token

def numControlEdges (g : Graph N) (n : N) : Nat := (g.inEdges n).countP Edge.isControlEdge

def complete (g : Graph N) (n : N) (ks : List (Token N V)) : Bool :=
  if g.isMerge n then
    ks.countP Token.isControl = numControlEdges g n &&
      (ks.any Token.isLive || ks.countP Token.isDeadData = g.numInputs n)
  else ks.length = (g.inEdges n).length

def enteredDead (g : Graph N) (n : N) (ks : List (Token N V)) : Bool :=
  g.isMerge n && ks.countP Token.isControl = numControlEdges g n &&
    ks.getLast?.any fun k => k.isDeadData && g.isEnter k.edge.src

def readyWith (g : Graph N) (n : N) (ks : List (Token N V)) : Bool :=
  complete g n ks || enteredDead g n ks

/-- Whether a node with these inputs is dead. A `ControlTrigger` is not, unless the input
that makes it ready is a dead exit. -/
def deadWith (g : Graph N) (n : N) (ks : List (Token N V)) : Bool :=
  if g.isMerge n then !(g.inEdges n).isEmpty && !ks.any Token.isLive
  else ks.any Token.makesDead && (!g.isControlTrigger n ||
    ks.getLast?.any fun k => k.isDead && g.isExit k.edge.src)

def Fits (g : Graph N) (n : N) (ks : List (Token N V)) : Prop :=
  (ks.map Token.edge).Subperm (g.inEdges n)

def pendingOf (g : Graph N) (n : N) (ks : List (Token N V)) : Nat :=
  if g.isMerge n then
    (if ks.any Token.isLive then 0 else 1) + 2 * (numControlEdges g n - ks.countP Token.isControl)
  else (g.inEdges n).length - ks.length

def deadCountOf (g : Graph N) (n : N) (ks : List (Token N V)) : Nat :=
  if g.isMerge n then ks.countP Token.isDeadData else ks.countP Token.makesDead

structure Waits (g : Graph N) (n : N) (ks : List (Token N V)) (c : Counts) : Prop where
  waiting : readyWith g n ks = false
  counts : c.Holds (g.inEdges n).length (pendingOf g n ks) (deadCountOf g n ks)

variable {g : Graph N} {n : N} {ks : List (Token N V)} {k : Token N V}

theorem Waits.incomplete {c : Counts} (h : Waits g n ks c) : complete g n ks = false :=
  (Bool.or_eq_false_iff.mp h.waiting).1

theorem readyWith_append (hEntered : k.isDeadData → g.isEnter k.edge.src = false) :
    readyWith g n (ks ++ [k]) = complete g n (ks ++ [k]) := by
  have hNot : (k.isDeadData && g.isEnter k.edge.src) = false := by
    cases hDead : k.isDeadData with
    | false => rfl
    | true => exact hEntered hDead
  simp [readyWith, enteredDead, hNot]

theorem Fits.length_le (h : Fits g n ks) : ks.length ≤ (g.inEdges n).length := by
  have hLength := Subperm.length_le h
  rwa [length_map] at hLength

theorem Fits.controls_le (h : Fits g n ks) : ks.countP Token.isControl ≤ numControlEdges g n := by
  have hCount := Subperm.countP_le Edge.isControlEdge h
  rwa [countP_map] at hCount

theorem countP_data (ks : List (Token N V)) :
    ks.countP Token.isLive + ks.countP Token.isDeadData =
      ks.countP fun k => !k.edge.isControlEdge := by
  induction ks with
  | nil => rfl
  | cons k ks ih =>
    cases hControl : k.edge.isControlEdge <;> cases hEntry : k.entry <;>
      simp [Token.isLive, Token.isDeadData, hControl, hEntry] <;> omega

theorem Fits.data_le (h : Fits g n ks) :
    ks.countP Token.isLive + ks.countP Token.isDeadData ≤ g.numInputs n := by
  have hCount := Subperm.countP_le (fun e => !e.isControlEdge) h
  rw [g.countP_dataEdges, countP_map] at hCount
  rw [countP_data]
  exact hCount

theorem Fits.of_append {ks' : List (Token N V)} (h : Fits g n (ks ++ ks')) : Fits g n ks := by
  refine Subperm.trans ?_ h
  rw [map_append]
  exact (sublist_append_left _ _).subperm

theorem Fits.numInputs_le : g.numInputs n ≤ (g.inEdges n).length := by
  rw [← g.countP_dataEdges]
  exact countP_le_length

theorem any_iff_countP_pos {α : Type u} (p : α → Bool) (l : List α) :
    l.any p ↔ 0 < l.countP p := by
  rw [countP_pos_iff, any_eq_true]

theorem countP_append_singleton {α : Type u} (p : α → Bool) (l : List α) (a : α) :
    (l ++ [a]).countP p = l.countP p + if p a then 1 else 0 := by
  rw [countP_append, countP_singleton]

theorem Fits.ne_nil (h : Fits g n (ks ++ [k])) : g.inEdges n ≠ [] := by
  have hLength := h.length_le
  rw [length_append, length_singleton] at hLength
  exact ne_nil_of_length_pos (by omega)

section Merge

variable (hMerge : g.isMerge n = true)

include hMerge

theorem complete_merge : complete g n ks ↔ ks.countP Token.isControl = numControlEdges g n ∧
    (0 < ks.countP Token.isLive ∨ ks.countP Token.isDeadData = g.numInputs n) := by
  simp only [complete, hMerge, if_true, Bool.and_eq_true, Bool.or_eq_true, decide_eq_true_eq,
    any_iff_countP_pos]

theorem deadWith_merge :
    deadWith g n ks ↔ g.inEdges n ≠ [] ∧ ks.countP Token.isLive = 0 := by
  rw [deadWith, if_pos hMerge, Bool.and_eq_true, Bool.not_eq_true', Bool.not_eq_true',
    isEmpty_eq_false_iff, ← Bool.not_eq_true, any_iff_countP_pos, pos_iff_ne_zero, not_not]

theorem pendingOf_merge : pendingOf g n ks = (if 0 < ks.countP Token.isLive then 0 else 1) +
    2 * (numControlEdges g n - ks.countP Token.isControl) := by
  simp only [pendingOf, hMerge, if_true, any_iff_countP_pos]

theorem deadCountOf_merge : deadCountOf g n ks = ks.countP Token.isDeadData := by
  simp only [deadCountOf, hMerge, if_true]

end Merge

/-- What an input does to a node that waits. -/
structure ArriveSpec (g : Graph N) (n : N) (ks : List (Token N V)) (k : Token N V)
    (a : Arrival) : Prop where
  ready : a.dstReady ↔ readyWith g n (ks ++ [k])
  dead : a.dstReady → (a.dstDead ↔ deadWith g n (ks ++ [k]))
  counts : a.dstReady = false →
    a.counts.Holds (g.inEdges n).length (pendingOf g n (ks ++ [k])) (deadCountOf g n (ks ++ [k]))
  settled : a.dstReady → g.isMerge n → 0 < (ks ++ [k]).countP Token.isLive →
    a.counts.Settled
  needInput : g.isMerge n →
    (a.dstNeedInput ↔ k.isLive ∧ ks.countP Token.isLive = 0)
  input : g.isMerge n = false → k.isControl = false → a.dstNeedInput ∨ k.entry = none

variable {c : Counts} {node : N}

section Merge

variable (hMerge : g.isMerge n = true) (hDst : k.edge.dst = n) (hFits : Fits g n (ks ++ [k]))
  (h : Waits g n ks c)

include hMerge hDst hFits h

theorem arrive_mergeControl (hControl : k.isControl) :
    ArriveSpec g n ks k (arrive g node k.isDead k.edge k.entry c) := by
  have hEdge : k.edge.isControlEdge := hControl
  have hLive : k.isLive = false := by simp [Token.isLive, hEdge]
  have hDeadData : k.isDeadData = false := by simp [Token.isDeadData, hEdge]
  have hControls := hFits.controls_le
  have hData := hFits.data_le
  have hCounts := h.counts
  rw [pendingOf_merge hMerge, deadCountOf_merge hMerge] at hCounts
  simp only [countP_append_singleton, hControl, if_true] at hControls hData
  have hAfter := hCounts.decrementPending (v := 2) (by omega)
  simp only [arrive, hDst, hMerge, hEdge, if_true, hAfter.pending_eq, hAfter.deadCount_eq]
  constructor
  · rw [readyWith_append (by simp [hDeadData]), complete_merge hMerge]
    simp only [countP_append_singleton, hLive, hDeadData, Bool.false_eq_true, if_false,
      Bool.or_eq_true, Bool.and_eq_true, decide_eq_true_eq]
    split <;> omega
  · rw [deadWith_merge hMerge]
    intro hReady
    simp only [countP_append_singleton, hLive, Bool.false_eq_true, if_false, Bool.or_eq_true,
      Bool.and_eq_true, decide_eq_true_eq] at hReady ⊢
    have hNonempty := hFits.ne_nil
    split at hReady
    · constructor
      · intro hDead
        omega
      · rintro ⟨-, hZero⟩
        omega
    · constructor
      · intro hDead
        exact ⟨hNonempty, by omega⟩
      · intro _
        omega
  · intro _
    rw [pendingOf_merge hMerge, deadCountOf_merge hMerge]
    simp only [countP_append_singleton, hControl, hLive, hDeadData, if_true, Bool.false_eq_true,
      if_false, add_zero]
    convert hAfter using 1
    omega
  · intro hReady _ hSome
    simp only [countP_append_singleton, hLive, Bool.false_eq_true, if_false, add_zero] at hSome
    simp only [hSome, if_true, Bool.or_eq_true, Bool.and_eq_true,
      decide_eq_true_eq] at hReady hAfter
    have hZero : 0 + 2 * (numControlEdges g n - ks.countP Token.isControl) - 2 = 0 := by omega
    rw [hZero] at hAfter
    exact hAfter.settled
  · simp [hLive]
  · simp [hMerge]

omit hDst in
theorem pending_pos_of_waits : 0 < pendingOf g n ks := by
  have hIncomplete := h.incomplete
  have hControls := hFits.of_append.controls_le
  rw [← Bool.not_eq_true, complete_merge hMerge] at hIncomplete
  rw [pendingOf_merge hMerge]
  split <;> omega

theorem arrive_mergeLive (hLive : k.isLive) :
    ArriveSpec g n ks k (arrive g node k.isDead k.edge k.entry c) := by
  obtain ⟨hEdge, hSome⟩ : k.edge.isControlEdge = false ∧ k.entry.isSome := by
    simpa [Token.isLive] using hLive
  have hControl : k.isControl = false := hEdge
  have hDeadData : k.isDeadData = false := by simp [Token.isDeadData, hSome]
  have hControls := hFits.of_append.controls_le
  have hIncomplete := h.incomplete
  rw [← Bool.not_eq_true, complete_merge hMerge] at hIncomplete
  have hCounts := h.counts
  rw [pendingOf_merge hMerge, deadCountOf_merge hMerge] at hCounts
  have hAfter := hCounts.markLive
  simp only [arrive, hDst, hMerge, hEdge, hSome, if_true, Bool.false_eq_true, if_false,
    hCounts.pending_eq]
  constructor
  · rw [readyWith_append (by simp [hDeadData]), complete_merge hMerge]
    simp only [countP_append_singleton, hControl, Bool.false_eq_true, if_false,
      decide_eq_true_eq]
    split <;> omega
  · intro _
    rw [deadWith_merge hMerge]
    simp only [countP_append_singleton, hLive, if_true, Bool.false_eq_true, false_iff]
    omega
  · intro _
    rw [pendingOf_merge hMerge, deadCountOf_merge hMerge]
    simp only [countP_append_singleton, hControl, hLive, hDeadData, if_true, Bool.false_eq_true,
      if_false, add_zero]
    convert hAfter using 1
    split <;> split <;> omega
  · intro hReady _ _
    simp only [decide_eq_true_eq] at hReady
    have hOne : ((if 0 < ks.countP Token.isLive then 0 else 1) +
        2 * (numControlEdges g n - ks.countP Token.isControl)) / 2 * 2 = 0 := by omega
    rw [hOne] at hAfter
    exact hAfter.settled
  · intro _
    simp only [hLive, true_and, decide_eq_true_eq]
    split <;> omega
  · simp [hMerge]

theorem arrive_mergeDead (hSrc : k.edge.src = node) (hDeadData : k.isDeadData) :
    ArriveSpec g n ks k (arrive g node k.isDead k.edge k.entry c) := by
  obtain ⟨hEdge, hNone⟩ : k.edge.isControlEdge = false ∧ k.entry.isSome = false := by
    simpa [Token.isDeadData] using hDeadData
  have hControl : k.isControl = false := hEdge
  have hLive : k.isLive = false := by simp [Token.isLive, hNone]
  have hControls := hFits.of_append.controls_le
  have hData := hFits.data_le
  have hInputs := Fits.numInputs_le (g := g) (n := n)
  have hIncomplete := h.incomplete
  rw [← Bool.not_eq_true, complete_merge hMerge] at hIncomplete
  have hPos := pending_pos_of_waits hMerge hFits h
  have hCounts := h.counts
  rw [pendingOf_merge hMerge] at hPos
  rw [pendingOf_merge hMerge, deadCountOf_merge hMerge] at hCounts
  simp only [countP_append_singleton, hDeadData, if_true] at hData
  have hAfter := hCounts.incrementDeadCount hPos (by omega)
  simp only [arrive, hDst, hMerge, hEdge, hNone, if_true, Bool.false_eq_true, if_false,
    hAfter.pending_eq, hAfter.deadCount_eq]
  constructor
  · cases hEnter : g.isEnter node with
    | false =>
      rw [readyWith_append (by rw [hSrc]; exact fun _ => hEnter), complete_merge hMerge]
      simp only [countP_append_singleton, hControl, hLive, Bool.false_eq_true, if_false,
        Bool.or_false, Bool.and_eq_true, decide_eq_true_eq]
      split <;> omega
    | true =>
      rw [readyWith, Bool.or_eq_true, complete_merge hMerge]
      simp only [enteredDead, getLast?_concat, Option.any_some, hMerge, hDeadData, hSrc,
        hEnter, countP_append_singleton, hControl, hLive, if_true, Bool.false_eq_true, if_false,
        Bool.or_true, Bool.and_true, Bool.true_and, decide_eq_true_eq]
      split <;> omega
  · intro hReady
    rw [deadWith_merge hMerge]
    simp only [countP_append_singleton, hLive, Bool.false_eq_true, if_false, Bool.and_eq_true,
      decide_eq_true_eq] at hReady ⊢
    constructor
    · intro _
      refine ⟨hFits.ne_nil, ?_⟩
      split at hReady <;> omega
    · intro _
      exact hReady.2
  · intro _
    rw [pendingOf_merge hMerge, deadCountOf_merge hMerge]
    simpa only [countP_append_singleton, hControl, hLive, hDeadData, if_true, Bool.false_eq_true,
      if_false, add_zero] using hAfter
  · intro hReady _ hSome
    simp only [countP_append_singleton, hLive, Bool.false_eq_true, if_false] at hSome
    simp only [Bool.and_eq_true, decide_eq_true_eq] at hReady
    omega
  · simp [hLive]
  · simp [hMerge]

end Merge

theorem arrive_other (hMerge : g.isMerge n = false) (hDst : k.edge.dst = n)
    (hFits : Fits g n (ks ++ [k])) (h : Waits g n ks c)
    (hExit : k.isDead → g.isExit k.edge.src = false) :
    ArriveSpec g n ks k (arrive g node k.isDead k.edge k.entry c) := by
  have hLength := hFits.length_le
  rw [length_append, length_singleton] at hLength
  have hCounts := h.counts
  simp only [pendingOf, deadCountOf, hMerge, Bool.false_eq_true, if_false] at hCounts
  have hLe : ks.countP Token.makesDead ≤ ks.length := countP_le_length
  obtain ⟨c', hc', hMarked⟩ : ∃ c', c' = (if k.isDead || (!k.edge.isControlEdge && k.entry.isNone)
      then c.incrementDeadCount else c) ∧ c'.Holds (g.inEdges n).length
        ((g.inEdges n).length - ks.length) ((ks ++ [k]).countP Token.makesDead) := by
    refine ⟨_, rfl, ?_⟩
    rw [countP_append_singleton]
    split
    · rename_i hDead
      have hMakes : k.makesDead := hDead
      rw [hMakes]
      exact hCounts.incrementDeadCount (by omega) (by omega)
    · rename_i hDead
      have hMakes : k.makesDead ≠ true := hDead
      rw [if_neg hMakes]
      exact hCounts
  have hAfter := hMarked.decrementPending (v := 1) (by omega)
  simp only [arrive, hDst, hMerge, ← hc', hMarked.deadCount_eq, hAfter.stored_eq]
  constructor
  · simp only [readyWith, enteredDead, complete, hMerge, Bool.false_eq_true, if_false,
      length_append, length_singleton, Bool.false_and, Bool.or_false, decide_eq_true_eq]
    omega
  · intro _
    have hNot : (k.isDead && g.isExit k.edge.src) = false := by
      cases hDead : k.isDead with
      | false => rfl
      | true => exact hExit hDead
    simp only [deadWith, hMerge, Bool.false_eq_true, if_false, Bool.and_eq_true, any_iff_countP_pos,
      decide_eq_true_eq, Int.natCast_pos, getLast?_concat, Option.any_some, hNot, Bool.or_false]
  · intro _
    simp only [pendingOf, deadCountOf, hMerge, Bool.false_eq_true, if_false, length_append,
      length_singleton]
    convert hAfter using 1
    omega
  · intro _ hTrue
    rw [hMerge] at hTrue
    cases hTrue
  · simp [hMerge]
  · intro _ hControl
    exact Or.inl (by simpa [Token.isControl] using hControl)

theorem arrive_spec (hSrc : k.edge.src = node) (hDst : k.edge.dst = n)
    (hFits : Fits g n (ks ++ [k])) (h : Waits g n ks c)
    (hExit : k.isDead → g.isExit k.edge.src = false) :
    ArriveSpec g n ks k (arrive g node k.isDead k.edge k.entry c) := by
  cases hMerge : g.isMerge n with
  | false => exact arrive_other hMerge hDst hFits h hExit
  | true =>
    cases hControl : k.isControl with
    | true => exact arrive_mergeControl hMerge hDst hFits h hControl
    | false =>
      have hEdge : k.edge.isControlEdge = false := hControl
      cases hEntry : k.entry with
      | some value =>
        have hLive : k.isLive := by simp [Token.isLive, hEdge, hEntry]
        rw [← hEntry]
        exact arrive_mergeLive hMerge hDst hFits h hLive
      | none =>
        have hDeadData : k.isDeadData := by simp [Token.isDeadData, hEdge, hEntry]
        have hSpec := arrive_mergeDead hMerge hDst hFits h hSrc hDeadData
        rwa [hEntry] at hSpec

/-- An input that comes when the node is ready can only be a data input of a `Merge` which a
live input made ready. -/
theorem complete_append (hFits : Fits g n (ks ++ [k])) (hComplete : complete g n ks) :
    g.isMerge n ∧ 0 < ks.countP Token.isLive ∧ k.isControl = false := by
  cases hMerge : g.isMerge n with
  | false =>
    have hLength := hFits.length_le
    simp only [complete, hMerge, Bool.false_eq_true, if_false, decide_eq_true_eq] at hComplete
    rw [length_append, length_singleton] at hLength
    omega
  | true =>
    have hControls := hFits.controls_le
    have hData := hFits.data_le
    rw [complete_merge hMerge] at hComplete
    simp only [countP_append_singleton] at hControls hData
    cases hControl : k.isControl with
    | true =>
      rw [hControl, if_pos rfl] at hControls
      omega
    | false =>
      have hEdge : k.edge.isControlEdge = false := hControl
      refine ⟨rfl, ?_, rfl⟩
      cases hEntry : k.entry with
      | none =>
        have hDead : k.isDeadData := by simp [Token.isDeadData, hEdge, hEntry]
        rw [hDead, if_pos rfl] at hData
        omega
      | some value =>
        have hLive : k.isLive := by simp [Token.isLive, hEdge, hEntry]
        rw [hLive, if_pos rfl] at hData
        omega

theorem complete_append_of_complete (hFits : Fits g n (ks ++ [k]))
    (hComplete : complete g n ks) : complete g n (ks ++ [k]) := by
  obtain ⟨hMerge, hLive, hControl⟩ := complete_append hFits hComplete
  rw [complete_merge hMerge] at hComplete ⊢
  simp only [countP_append_singleton, hControl]
  exact ⟨hComplete.1, Or.inl (lt_of_lt_of_le hLive (le_add_right _ _))⟩

theorem ArriveSpec.waits {a : Arrival} (h : ArriveSpec g n ks k a) (hReady : a.dstReady = false) :
    Waits g n (ks ++ [k]) a.counts := by
  refine ⟨?_, h.counts hReady⟩
  rw [← Bool.not_eq_true, ← h.ready, hReady]
  exact Bool.false_ne_true

theorem arrive_settled (hMerge : g.isMerge n) (hDst : k.edge.dst = n)
    (hControl : k.isControl = false) (hSettled : c.Settled) :
    arrive g node k.isDead k.edge k.entry c =
      ⟨c, !k.entry.isSome && (c.deadCount = g.numInputs n || g.isEnter node), false, false⟩ := by
  have hEdge : k.edge.isControlEdge = false := hControl
  cases hEntry : k.entry with
  | some value =>
    simp [arrive, hDst, hMerge, hEdge, hSettled.pending_eq, hSettled.markLive_eq]
  | none =>
    simp [arrive, hDst, hMerge, hEdge, hSettled.pending_eq, hSettled.incrementDeadCount_eq]

theorem waits_initial (x : ExecutorImpl N V) (hSome : x.graph.inEdges n ≠ []) :
    Waits x.graph n ([] : List (Token N V)) (x.initialCounts n) := by
  have hPos : 0 < (x.graph.inEdges n).length := length_pos_of_ne_nil hSome
  unfold ExecutorImpl.initialCounts
  cases hMerge : x.graph.isMerge n with
  | false =>
    constructor
    · simp only [readyWith, enteredDead, complete, hMerge, Bool.false_eq_true, if_false,
        Bool.false_and, Bool.or_false, decide_eq_false_iff_not]
      exact Nat.ne_of_lt hPos
    · simp only [pendingOf, deadCountOf, hMerge]
      exact Counts.holds_setInitialCount _ _
  | true =>
    constructor
    · have hData := x.graph.countP_dataEdges n
      have hSplit := length_eq_countP_add_countP Edge.isControlEdge (l := x.graph.inEdges n)
      have hEntered : enteredDead x.graph n ([] : List (Token N V)) = false := by
        simp [enteredDead]
      rw [readyWith, hEntered, Bool.or_false, ← Bool.not_eq_true, complete_merge hMerge]
      simp only [countP_nil, numControlEdges]
      simp only [Bool.decide_eq_false, Bool.not_eq_true] at hSplit
      omega
    · simp only [pendingOf, deadCountOf, hMerge]
      exact Counts.holds_setInitialCount _ _

end TensorFlowOnSpark.CommonRuntime
