import TensorFlowOnSpark.CommonRuntime.ExecutorTracking

/-!
# What a loop-free graph computes

In an acyclic graph without loops each node is visited once.
-/

namespace TensorFlowOnSpark.CommonRuntime

open Dependency List Token Bool

universe u v

variable {N : Type u} {V : Type v}

structure Visit (V : Type v) where
  dead : Bool
  inputs : List (Option V)
  outputs : List (Option V)

def tokenOf (visits : N → Visit V) (e : Edge N) : Token N V :=
  ⟨e, (visits e.src).dead, e.entry (visits e.src).outputs⟩

theorem tokenOf_injective (visits : N → Visit V) : Function.Injective (tokenOf visits) :=
  fun _ _ hEq => congrArg edge hEq

def inputAt (ks : List (Token N V)) (slot : Nat) : Option V :=
  (ks.find? fun k => k.edge.dstInput = some slot).bind entry

namespace ExecutorImpl

variable (x : ExecutorImpl N V)

def visit (visits : N → Visit V) (n : N) : Visit V :=
  let ks := (x.graph.inEdges n).map (tokenOf visits)
  let dead := deadWith x.graph n ks
  let inputs := (range (x.graph.numInputs n)).map (inputAt ks)
  ⟨dead, inputs, (x.process n dead inputs).toOption.getD []⟩

def meaning : N → Visit V := x.visit^[x.graph.nodes.length] fun _ => ⟨false, [], []⟩

def allTokens (n : N) : List (Token N V) := (x.graph.inEdges n).map (tokenOf x.meaning)

/-- No `Merge` gets two live data inputs. -/
def OneLive : Prop :=
  ∀ n, x.graph.isMerge n → (x.allTokens n).countP isLive ≤ 1

def KernelsSucceed : Prop :=
  ∀ n, ∃ outputs, x.process n (x.meaning n).dead (x.meaning n).inputs = .ok outputs

/-- There is no `Enter`, `Exit` or `NextIteration` node. -/
def LoopFree : Prop :=
  ∀ n, x.graph.isEnter n = false ∧ x.graph.isExit n = false ∧ x.graph.isNextIteration n = false

variable {x}

theorem visit_local : Local x.graph.Feeds x.visit := by
  intro visits visits' n hSame
  have hTokens : (x.graph.inEdges n).map (tokenOf visits) =
      (x.graph.inEdges n).map (tokenOf visits') := by
    apply map_congr_left
    intro e hMem
    simp only [tokenOf, hSame e.src ⟨e, hMem, rfl⟩]
  simp only [visit, hTokens]

theorem meaning_eq (hAcyclic : x.graph.Acyclic) : x.visit x.meaning = x.meaning := by
  have := x.graph.finite
  exact iterate_fixed hAcyclic visit_local _ x.graph.mem_nodes

section Equations

variable (hAcyclic : x.graph.Acyclic) (n : N)

include hAcyclic

theorem meaning_dead : (x.meaning n).dead = deadWith x.graph n (x.allTokens n) := by
  conv_lhs => rw [← meaning_eq hAcyclic]
  rfl

theorem meaning_inputs :
    (x.meaning n).inputs = (range (x.graph.numInputs n)).map (inputAt (x.allTokens n)) := by
  conv_lhs => rw [← meaning_eq hAcyclic]
  rfl

theorem meaning_outputs :
    (x.meaning n).outputs =
      (x.process n (x.meaning n).dead (x.meaning n).inputs).toOption.getD [] := by
  conv_lhs => rw [← meaning_eq hAcyclic]
  rw [meaning_dead hAcyclic, meaning_inputs hAcyclic]
  rfl

end Equations

end ExecutorImpl

variable {x : ExecutorImpl N V} {n : N} {ks : List (Token N V)}

def Genuine (x : ExecutorImpl N V) (ks : List (Token N V)) : Prop :=
  ∀ k ∈ ks, k = tokenOf x.meaning k.edge

theorem Genuine.subperm (h : Genuine x ks) (hFits : Fits x.graph n ks) :
    ks.Subperm (x.allTokens n) := by
  have hEq : ks = (ks.map edge).map (tokenOf x.meaning) := by
    rw [map_map]
    exact (map_id'' (fun k => rfl) ks).symm.trans (map_congr_left fun k hk => h k hk)
  rw [hEq]
  exact Subperm.map (tokenOf_injective _) hFits

theorem countP_allTokens :
    (x.allTokens n).countP isLive + (x.allTokens n).countP isDeadData =
      x.graph.numInputs n := by
  rw [countP_data, ExecutorImpl.allTokens, countP_map, ← x.graph.countP_dataEdges n]
  rfl

theorem Genuine.no_live (h : Genuine x ks) (hFits : Fits x.graph n ks)
    (hDead : ks.countP isDeadData = x.graph.numInputs n) : (x.allTokens n).countP isLive = 0 := by
  have hLe := (h.subperm hFits).countP_le isDeadData
  have hSum := countP_allTokens (x := x) (n := n)
  omega

theorem Genuine.perm (h : Genuine x ks) (hFits : Fits x.graph n ks)
    (hMerge : x.graph.isMerge n = false) (hComplete : complete x.graph n ks) :
    ks.Perm (x.allTokens n) := by
  apply (h.subperm hFits).perm_of_length_le
  simp only [complete, hMerge, false_eq_true, if_false, decide_eq_true_eq] at hComplete
  rw [ExecutorImpl.allTokens, length_map, hComplete]

variable {slot : Nat} {k : Token N V}

theorem mem_allTokens_of_slot (hSlot : slot < x.graph.numInputs n) :
    ∃ e ∈ x.graph.inEdges n, e.dstInput = some slot := by
  have hMem : slot ∈ (x.graph.inEdges n).filterMap Edge.dstInput :=
    (x.graph.inputs_filled n).mem_iff.mpr (mem_range.mpr hSlot)
  exact mem_filterMap.mp hMem

theorem inputAt_eq (hMem : k ∈ ks)
    (hEdges : ∀ k' ∈ ks, k'.edge ∈ x.graph.inEdges n) (hGenuine : Genuine x ks)
    (hSlot : k.edge.dstInput = some slot) : inputAt ks slot = k.entry := by
  unfold inputAt
  cases hFind : ks.find? fun k => k.edge.dstInput = some slot with
  | none =>
    have hNot := find?_eq_none.mp hFind k hMem
    simp [hSlot] at hNot
  | some k' =>
    have hMem' := mem_of_find?_eq_some hFind
    have hSlot' : k'.edge.dstInput = some slot := by simpa using find?_some hFind
    have hSame := x.graph.eq_of_dstInput_eq (hEdges k' hMem') (hEdges k hMem) hSlot' hSlot
    rw [Option.bind_some, hGenuine k' hMem', hGenuine k hMem, hSame]

theorem genuine_allTokens : Genuine x (x.allTokens n) := by
  intro k hMem
  obtain ⟨e, -, rfl⟩ := mem_map.mp hMem
  rfl

theorem edge_mem_of_allTokens (hMem : k ∈ x.allTokens n) : k.edge ∈ x.graph.inEdges n := by
  obtain ⟨e, hEdge, rfl⟩ := mem_map.mp hMem
  exact hEdge

theorem inputAt_allTokens {e : Edge N} (hMem : e ∈ x.graph.inEdges n)
    (hSlot : e.dstInput = some slot) : inputAt (x.allTokens n) slot = (tokenOf x.meaning e).entry :=
  inputAt_eq (mem_map_of_mem hMem) (fun _ => edge_mem_of_allTokens) genuine_allTokens hSlot

theorem isControl_of_slot (hSlot : k.edge.dstInput = some slot) : k.edge.isControlEdge = false := by
  cases hSlots : k.edge.slots with
  | none => simp [Edge.dstInput, hSlots] at hSlot
  | some slots => simp [Edge.isControlEdge, hSlots]

theorem entry_none_of_not_live (hControl : k.edge.isControlEdge = false)
    (hNot : ¬ k.isLive) : k.entry = none := by
  simpa [isLive, hControl] using hNot

theorem eq_of_countP_le_one {α : Type u} {p : α → Bool} {l : List α} {a b : α} (h : l.countP p ≤ 1)
    (ha : a ∈ l) (hb : b ∈ l) (hpa : p a) (hpb : p b) : a = b := by
  rw [countP_eq_length_filter] at h
  have hMem : a ∈ l.filter p := mem_filter.mpr ⟨ha, hpa⟩
  have hMem' : b ∈ l.filter p := mem_filter.mpr ⟨hb, hpb⟩
  match hFilter : l.filter p with
  | [] =>
    rw [hFilter] at hMem
    cases hMem
  | [c] =>
    rw [hFilter, mem_singleton] at hMem hMem'
    rw [hMem, hMem']
  | c :: d :: rest =>
    rw [hFilter] at h
    simp at h

/-- What a ready node finds in its slots is what the edges bring. -/
theorem Genuine.storedAt_eq (h : Genuine x ks) (hFits : Fits x.graph n ks)
    (hComplete : complete x.graph n ks) (hOne : x.OneLive)
    (hSlot : slot < x.graph.numInputs n) :
    storedAt x.graph n ks slot = inputAt (x.allTokens n) slot := by
  obtain ⟨e, hEdge, hDst⟩ := mem_allTokens_of_slot hSlot
  rw [inputAt_allTokens hEdge hDst]
  have hEdges : ∀ k ∈ ks, k.edge ∈ x.graph.inEdges n :=
    fun k hk => Subperm.subset hFits (mem_map_of_mem hk)
  cases hMerge : x.graph.isMerge n with
  | false =>
    have hMem : tokenOf x.meaning e ∈ ks :=
      (h.perm hFits hMerge hComplete).mem_iff.mpr (mem_map_of_mem hEdge)
    have hAt := inputAt_eq hMem hEdges h hDst
    simp only [storedAt, hMerge]
    exact hAt
  | true =>
    simp only [storedAt, hMerge, if_true]
    have hControl : (tokenOf x.meaning e).edge.isControlEdge = false := isControl_of_slot hDst
    cases hFind : ks.find? isLive with
    | none =>
      have hZero : ks.countP isLive = 0 := by
        rw [countP_eq_zero]
        exact find?_eq_none.mp hFind
      rw [complete_merge hMerge, hZero] at hComplete
      have hNone := h.no_live hFits (hComplete.2.resolve_left (Nat.lt_irrefl 0))
      rw [countP_eq_zero] at hNone
      exact (entry_none_of_not_live hControl (hNone _ (mem_map_of_mem hEdge))).symm
    | some k =>
      have hMem := mem_of_find?_eq_some hFind
      have hLive : k.isLive := find?_some hFind
      rw [Option.bind_some]
      split
      · rename_i hSame
        rw [h k hMem, x.graph.eq_of_dstInput_eq (hEdges k hMem) hEdge hSame hDst]
      · rename_i hOther
        symm
        apply entry_none_of_not_live hControl
        intro hAlso
        have hSub := (h.subperm hFits).subset hMem
        have hEq := eq_of_countP_le_one (hOne n hMerge) hSub (mem_map_of_mem hEdge) hLive hAlso
        rw [hEq] at hOther
        exact hOther hDst

theorem Genuine.deadWith_eq (h : Genuine x ks) (hFits : Fits x.graph n ks)
    (hComplete : complete x.graph n ks) (hFree : x.LoopFree) :
    deadWith x.graph n ks = deadWith x.graph n (x.allTokens n) := by
  cases hMerge : x.graph.isMerge n with
  | false =>
    have hPerm := h.perm hFits hMerge hComplete
    have hExit : ∀ k : Token N V, x.graph.isExit k.edge.src = false := fun k => (hFree _).2.1
    have hAny : ks.any makesDead = (x.allTokens n).any makesDead := by
      rw [Bool.eq_iff_iff, any_eq_true, any_eq_true]
      simp only [hPerm.mem_iff]
    simp [deadWith, hMerge, hAny, hExit]
  | true =>
    rw [Bool.eq_iff_iff, deadWith_merge hMerge, deadWith_merge hMerge]
    have hLe := (h.subperm hFits).countP_le isLive
    rw [complete_merge hMerge] at hComplete
    refine and_congr_right fun _ => ⟨?_, fun hZero => by omega⟩
    intro hZero
    exact h.no_live hFits (hComplete.2.resolve_left (by omega))

theorem complete_of_perm {g : Graph N} {ks : List (Token N V)}
    (h : (ks.map edge).Perm (g.inEdges n)) : complete g n ks := by
  cases hMerge : g.isMerge n with
  | false =>
    simp only [complete, hMerge, false_eq_true, if_false, decide_eq_true_eq]
    rw [← h.length_eq, length_map]
  | true =>
    rw [complete_merge hMerge]
    have hControls := h.countP_eq Edge.isControlEdge
    have hData := h.countP_eq (fun e => !e.isControlEdge)
    rw [countP_map] at hControls hData
    rw [g.countP_dataEdges] at hData
    have hSplit := countP_data ks
    refine ⟨hControls, ?_⟩
    have hSum : ks.countP isLive + ks.countP isDeadData = g.numInputs n :=
      hSplit.trans hData
    omega

open Transition FrameState

structure IsRoot (f : FrameState N V) (it : IterationState N V) : Prop where
  slots : f.slots = 1
  iteration : f.iterations 0 = some it
  number : it.number = 0
  frameCount : it.outstandingFrameCount = 0
  pendingInputs : f.numPendingInputs = 0
  iterationCount : f.iterationCount = 0
  outstanding : f.numOutstandingIterations = 1
  roots : f.nextIterRoots = []

namespace IsRoot

variable {f : FrameState N V} {it it' : IterationState N V}

theorem use (h : IsRoot f it) : f.useIteration 0 = .ok it := by
  unfold useIteration getIteration
  rw [h.slots, h.iteration]
  exact if_pos h.number

theorem setIteration (h : IsRoot f it) (hNumber : it'.number = 0)
    (hFrames : it'.outstandingFrameCount = 0) : IsRoot (f.setIteration 0 (some it')) it' :=
  { h with
    iteration := by
      change Function.update f.iterations (0 % f.slots) (some it') 0 = some it'
      rw [h.slots, Function.update_self]
    number := hNumber
    frameCount := hFrames }

end IsRoot

variable [DecidableEq N]

section Propagation

variable {x : ExecutorImpl N V} {frames : Frames N V} {f : FrameState N V}
  {it : IterationState N V}

theorem cleanup_busy (h : IsRoot f it) (hOps : it.outstandingOps ≠ 0) (out : Output N V) :
    f.cleanupIterations x [] 0 out = .ok (false, f, out) := by
  have hDone : f.isIterationDone 0 = .ok false := by
    rw [isIterationDone, h.use]
    simp [Except.bind, hOps]
  rw [cleanupIterations, cleanupLoop, hDone]
  simp [Except.bind, isFrameDone, h.outstanding]

theorem cleanup_idle (h : IsRoot f it) (hOps : it.outstandingOps = 0) (out : Output N V) :
    ∃ f', f.cleanupIterations x [] 0 out = .ok (true, f', out) := by
  have hDone : f.isIterationDone 0 = .ok true := by
    rw [isIterationDone, h.use]
    simp [Except.bind, hOps, h.frameCount, h.pendingInputs]
  let f' : FrameState N V :=
    { f.setIteration 0 none with numOutstandingIterations := f.numOutstandingIterations - 1 }
  have hFrameDone : f'.isFrameDone := by
    simp [f', isFrameDone, setIteration, h.outstanding, h.pendingInputs]
  have hLoop : f.cleanupLoop x [] 3 0 out = .ok (f', out) := by
    have hRoots : f'.nextIterRoots.isEmpty := by
      simp [f', setIteration, h.roots]
    rw [cleanupLoop, hDone]
    change (if f'.nextIterRoots.isEmpty then cleanupLoop x [] 2 f' 1 out
      else _) = _
    rw [if_pos hRoots, cleanupLoop, if_neg]
    change ¬ 1 ≤ f.iterationCount
    rw [h.iterationCount]
    exact Nat.not_succ_le_zero 0
  refine ⟨f', ?_⟩
  rw [cleanupIterations, h.iterationCount, hLoop]
  simp only [Except.bind, hFrameDone]

variable {t : TaggedNode N} (hFree : x.LoopFree) (hFrame : t.inputFrame = [])
  (hIter : t.inputIter = 0) (hFind : frames [] = some f) (hRoot : IsRoot f it)
  (outputs : List (Option V))

include hFree hFrame hIter hFind hRoot

/-- Propagating the outputs of a node in the root frame. -/
theorem propagateOutputs_root {r : IterationState N V × Output N V}
    (hr : r = activateEdges x [] t.node t.isDead 0 outputs (x.graph.outEdges t.node)
      (it, ⟨[], []⟩)) :
    if r.1.outstandingOps = 1 then
      ∃ frames', propagateOutputs x frames t outputs = .ok (frames', r.2) ∧ frames' [] = none
    else ∃ f', propagateOutputs x frames t outputs = .ok (frames.set [] (some f'), r.2) ∧
      IsRoot f' { r.1 with outstandingOps := r.1.outstandingOps - 1 } := by
  obtain ⟨events, hGrew⟩ := activateEdges_grew x [] t.node t.isDead 0 outputs
    (x.graph.outEdges t.node) (it, ⟨[], []⟩)
  rw [← hr] at hGrew
  have hNumber : r.1.number = 0 := hGrew.number.trans hRoot.number
  have hCount : r.1.outstandingFrameCount = 0 := hGrew.frames.trans hRoot.frameCount
  let f' := f.setIteration 0 (some r.1)
  let r' : IterationState N V := { r.1 with outstandingOps := r.1.outstandingOps - 1 }
  have hRoot' : IsRoot f' r.1 := hRoot.setIteration hNumber hCount
  have hRoot'' : IsRoot (f'.setIteration 0 (some r')) r' := hRoot'.setIteration hNumber hCount
  have hActivate : f.activateNodes x [] t.node t.isDead 0 outputs ⟨[], []⟩ = .ok (f', r.2) := by
    rw [activateNodes, hRoot.use]
    simp only [Except.bind, ← hr]
    rfl
  have hInFrame : f.propagateInFrame x t outputs =
      (f'.setIteration 0 (some r')).cleanupIterations x [] 0 r.2 := by
    unfold propagateInFrame
    simp only [(hFree t.node).2.2, Bool.false_eq_true, if_false, hFrame, hIter, hActivate,
      Except.bind, decrementOutstandingOps, hRoot'.use]
    rfl
  have hPropagate : propagateOutputs x frames t outputs =
      ((f'.setIteration 0 (some r')).cleanupIterations x [] 0 r.2).bind
        fun r => frames.completeFrame x [] r := by
    rw [← hInFrame]
    have hKind := hFree t.node
    unfold propagateOutputs
    split
    · rename_i hEnter
      simp [Graph.isEnter, hEnter] at hKind
    · rename_i hExit
      simp [Graph.isExit, hExit] at hKind
    · rw [hFrame, Frames.find, hFind]
      rfl
  split
  · rename_i hOne
    have hZero : r'.outstandingOps = 0 := by
      change r.1.outstandingOps - 1 = 0
      omega
    obtain ⟨f'', hClean⟩ := cleanup_idle (x := x) hRoot'' hZero r.2
    rw [hPropagate, hClean]
    refine ⟨_, rfl, ?_⟩
    simp [Frames.set]
  · rename_i hMore
    have hBusy : r'.outstandingOps ≠ 0 := by
      change r.1.outstandingOps - 1 ≠ 0
      omega
    rw [hPropagate, cleanup_busy hRoot'' hBusy]
    exact ⟨_, rfl, hRoot''⟩

end Propagation

namespace ExecutorState

def held (s : ExecutorState N V) : List (TaggedNode N) :=
  s.leaving.flatMap fun p => p.2.toOption.getD []

def active (s : ExecutorState N V) : List (TaggedNode N) :=
  s.ready ++ s.running.map Prod.fst ++ s.held

end ExecutorState

def Event.propagatedTag : Event N V → Option (TaggedNode N)
  | .propagated t => some t
  | _ => none

def propagatedIn (log : List (Event N V)) : List (TaggedNode N) :=
  log.filterMap Event.propagatedTag

/-- What the log says. -/
structure LogSound (x : ExecutorImpl N V) (log : List (Event N V)) : Prop where
  justified : Justified x.graph log
  recorded : ∀ n, n ≠ x.graph.sink → Recorded x.graph log [] 0 n
  readied : ∀ t ∈ readiedIn log, t.inputFrame = [] ∧ t.inputIter = 0 ∧
    t.isDead = (x.meaning t.node).dead ∧ (t.node = x.graph.sink → x.graph.inEdges t.node = [])
  sources : ∀ n, n ≠ x.graph.sink → ∀ k ∈ tokensAt log [] 0 n,
    k = tokenOf x.meaning k.edge ∧ ∃ t ∈ propagatedIn log, t.node = k.edge.src
  sent : ∀ t ∈ propagatedIn log, ∀ e ∈ x.graph.outEdges t.node, e.dst ≠ x.graph.sink →
    ∃ k ∈ tokensAt log [] 0 e.dst, k.edge = e
  started : ∀ t inputs, .started t inputs ∈ log →
    t.isDead = (x.meaning t.node).dead ∧ inputs = (x.meaning t.node).inputs

/-- `Finish` is called once, when the count becomes zero. -/
def FinishesAtZero (count : Int) (log : List (Event N V)) : Prop :=
  if count = 0 then ∃ log', log = log' ++ [.finished] ∧ ∀ event ∈ log', event ≠ .finished
  else ∀ event ∈ log, event ≠ .finished

omit [DecidableEq N] in
theorem FinishesAtZero.append {count count' : Int} {log events : List (Event N V)}
    (h : FinishesAtZero count log) (hCount : count ≠ 0) (hCount' : count' ≠ 0)
    (hEvents : ∀ event ∈ events, event ≠ .finished) : FinishesAtZero count' (log ++ events) := by
  rw [FinishesAtZero, if_neg hCount] at h
  rw [FinishesAtZero, if_neg hCount']
  intro event hMem
  rw [mem_append] at hMem
  exact hMem.elim (h event) (hEvents event)

structure RootSound (x : ExecutorImpl N V) (s : ExecutorState N V) (f : FrameState N V)
    (it : IterationState N V) : Prop where
  found : s.frames [] = some f
  root : IsRoot f it
  ops : it.outstandingOps = s.active.length
  reflects : ∀ n, n ≠ x.graph.sink → Reflects x.graph (tokensAt s.log [] 0 n) it n
  begun : x.vlog → ∀ p ∈ s.running, p.1.node ≠ x.graph.sink → (it.counts p.1.node).Begun

structure LoopFreeSound (x : ExecutorImpl N V) (s : ExecutorState N V) : Prop where
  log : LogSound x s.log
  flow : (readiedIn s.log).Perm (s.active ++ propagatedIn s.log)
  sinkOnce : timesReadied s.log [] 0 x.graph.sink ≤ 1
  inputs : ∀ p ∈ s.running, p.2 = (x.meaning p.1.node).inputs
  succeed : ∀ p ∈ s.leaving, ∃ ready, p.2 = .ok ready
  count : s.numOutstandingOps = (s.ready.length + s.running.length + s.leaving.length : Nat)
  root : (∃ f it, RootSound x s f it) ∨ s.active = []
  finished : FinishesAtZero s.numOutstandingOps s.log

variable {x : ExecutorImpl N V} {s : ExecutorState N V}

section Meaning

variable (hAcyclic : x.graph.Acyclic) (hFree : x.LoopFree) (hOne : x.OneLive)

omit [DecidableEq N] in
include hFree in
theorem not_enteredDead (n : N) (ks : List (Token N V)) : enteredDead x.graph n ks = false := by
  simp [enteredDead, (hFree _).1]

include hFree in
theorem LogSound.complete_of_readied (h : LogSound x s.log) {n : N} (hn : n ≠ x.graph.sink)
    {t : TaggedNode N} (hMem : t ∈ readiedIn s.log) (hNode : t.node = n) :
    complete x.graph n (tokensAt s.log [] 0 n) = true := by
  have hOnce := (h.recorded n hn).once
  have hPos : 0 < timesReadied s.log [] 0 n := by
    refine countP_pos_iff.mpr ⟨t, hMem, ?_⟩
    obtain ⟨hFrame, hIter, -, -⟩ := h.readied t hMem
    simp [TaggedNode.at, hFrame, hIter, hNode]
  split at hOnce
  · rename_i hReady
    exact complete_of_ready hReady (not_enteredDead hFree n _)
  · omega

theorem LogSound.genuine (h : LogSound x s.log) {n : N} (hn : n ≠ x.graph.sink) :
    Genuine x (tokensAt s.log [] 0 n) := fun k hk => (h.sources n hn k hk).1

include hAcyclic hFree hOne in
theorem RootSound.inputs_eq {f : FrameState N V} {it : IterationState N V} (hLog : LogSound x s.log)
    (h : RootSound x s f it) {t : TaggedNode N} (hMem : t ∈ readiedIn s.log) :
    (List.range (x.graph.numInputs t.node)).map (it.inputTensors t.node) =
      (x.meaning t.node).inputs := by
  rw [ExecutorImpl.meaning_inputs hAcyclic]
  apply map_congr_left
  intro slot hSlot
  rw [mem_range] at hSlot
  by_cases hSink : t.node = x.graph.sink
  · have hNone := (hLog.readied t hMem).2.2.2 hSink
    have hZero := x.graph.countP_dataEdges t.node
    rw [hNone, countP_nil] at hZero
    omega
  · rw [(h.reflects t.node hSink).inputs slot]
    exact (hLog.genuine hSink).storedAt_eq (hLog.recorded t.node hSink).fits
      (hLog.complete_of_readied hFree hSink hMem rfl) hOne hSlot

end Meaning

section Log

variable {log events : List (Event N V)}

omit [DecidableEq N] in
theorem propagatedIn_append (log events : List (Event N V)) :
    propagatedIn (log ++ events) = propagatedIn log ++ propagatedIn events :=
  filterMap_append

def Event.isQuiet (event : Event N V) : Bool := !event.isActivation

omit [DecidableEq N] in
theorem readiedIn_quiet (h : ∀ event ∈ events, event.isQuiet = true) : readiedIn events = [] := by
  rw [readiedIn, filterMap_eq_nil_iff]
  intro event hMem
  have hQuiet := h event hMem
  cases event with
  | readied t => cases hQuiet
  | delivered name iter e isDead entry => rfl
  | started t inputs => rfl
  | propagated t => rfl
  | finished => rfl

theorem tokensAt_quiet (h : ∀ event ∈ events, event.isQuiet) (name : FrameName)
    (iter : Nat) (n : N) : tokensAt events name iter n = [] := by
  rw [tokensAt, filterMap_eq_nil_iff]
  intro event hMem
  have hQuiet := h event hMem
  cases event with
  | delivered name iter e isDead entry => cases hQuiet
  | readied t => rfl
  | started t inputs => rfl
  | propagated t => rfl
  | finished => rfl

omit [DecidableEq N] in
theorem propagatedIn_activation (h : ∀ event ∈ events, event.isActivation = true) :
    propagatedIn events = [] := by
  rw [propagatedIn, filterMap_eq_nil_iff]
  intro event hMem
  have hKind := h event hMem
  cases event with
  | propagated t => cases hKind
  | delivered name iter e isDead entry => rfl
  | readied t => rfl
  | started t inputs => rfl
  | finished => rfl

theorem tokensAt_append_quiet (h : ∀ event ∈ events, event.isQuiet) (name : FrameName)
    (iter : Nat) (n : N) : tokensAt (log ++ events) name iter n = tokensAt log name iter n := by
  rw [tokensAt_append, tokensAt_quiet h, append_nil]

omit [DecidableEq N] in
theorem readiedIn_append_quiet (h : ∀ event ∈ events, event.isQuiet = true) :
    readiedIn (log ++ events) = readiedIn log := by
  rw [readiedIn_append, readiedIn_quiet h, append_nil]

theorem Justified.append_quiet {g : Graph N} (hLog : Justified g log)
    (h : ∀ event ∈ events, event.isQuiet) : Justified g (log ++ events) := by
  apply hLog.append
  intro event hMem
  have hQuiet := h event hMem
  cases event with
  | readied t => cases hQuiet
  | delivered name iter e isDead entry => rfl
  | started t inputs => rfl
  | propagated t => rfl
  | finished => rfl

theorem LogSound.append_quiet (h : LogSound x log)
    (hQuiet : ∀ event ∈ events, event.isQuiet) (hNone : propagatedIn events = [])
    (hStarted : ∀ t inputs, .started t inputs ∈ events →
      t.isDead = (x.meaning t.node).dead ∧ inputs = (x.meaning t.node).inputs) :
    LogSound x (log ++ events) := by
  have hTokens : ∀ n, tokensAt (log ++ events) [] 0 n = tokensAt log [] 0 n :=
    tokensAt_append_quiet hQuiet [] 0
  have hPropagated : propagatedIn (log ++ events) = propagatedIn log := by
    rw [propagatedIn_append, hNone, append_nil]
  constructor
  · exact h.justified.append_quiet hQuiet
  · intro n hn
    apply (h.recorded n hn).of_events (tokensAt_quiet hQuiet _ _ _)
    rw [timesReadied, readiedIn_quiet hQuiet, countP_nil]
  · rw [readiedIn_append_quiet hQuiet]
    exact h.readied
  · intro n hn k hMem
    rw [hTokens] at hMem
    rw [hPropagated]
    exact h.sources n hn k hMem
  · intro t hMem e hEdge hNe
    rw [hPropagated] at hMem
    rw [hTokens]
    exact h.sent t hMem e hEdge hNe
  · intro t inputs hMem
    rw [mem_append] at hMem
    exact hMem.elim (h.started t inputs) (hStarted t inputs)

end Log

section Lists

variable {α β : Type u}

theorem perm_eraseIdx {l : List α} {i : Nat} {a : α} (h : l[i]? = some a) :
    l.Perm (a :: l.eraseIdx i) := by
  obtain ⟨hLess, rfl⟩ := List.getElem?_eq_some_iff.mp h
  exact (getElem_cons_eraseIdx_perm hLess).symm

end Lists

section

variable (h : LoopFreeSound x s)

include h

theorem LoopFreeSound.nodup :
    ((readiedIn s.log).map TaggedNode.node).Nodup := by
  rw [nodup_iff_count_le_one]
  intro n
  have hCount : ((readiedIn s.log).map TaggedNode.node).count n = timesReadied s.log [] 0 n := by
    rw [List.count, countP_map]
    apply countP_congr
    intro t hMem
    obtain ⟨hFrame, hIter, -, -⟩ := h.log.readied t hMem
    simp [TaggedNode.at, hFrame, hIter]
  rw [hCount]
  by_cases hn : n = x.graph.sink
  · rw [hn]
    exact h.sinkOnce
  · rw [(h.log.recorded n hn).once]
    split <;> omega

theorem LoopFreeSound.active_readied {t : TaggedNode N}
    (hMem : t ∈ s.active) : t ∈ readiedIn s.log :=
  h.flow.mem_iff.mpr (mem_append_left _ hMem)

theorem LoopFreeSound.not_propagated {t t' : TaggedNode N}
    (hMem : t ∈ s.active) (hMem' : t' ∈ propagatedIn s.log) : t'.node ≠ t.node := by
  have hNodup := (h.flow.map TaggedNode.node).nodup_iff.mp h.nodup
  rw [map_append, nodup_append] at hNodup
  exact (hNodup.2.2 _ (mem_map_of_mem hMem) _ (mem_map_of_mem hMem')).symm

theorem LoopFreeSound.root_of_active {t : TaggedNode N}
    (hMem : t ∈ s.active) : ∃ f it, RootSound x s f it := by
  rcases h.root with hRoot | hNone
  · exact hRoot
  · rw [hNone] at hMem
    cases hMem

end

end TensorFlowOnSpark.CommonRuntime
