import TensorFlowOnSpark.Graph.ConvertGraphDef

/-!
# What ConvertGraphDefToGraph promises

The graph has a node for each `NodeDef`, an edge for each input and no cycle without a
`Merge`, and the order of the nodes in the `GraphDef` only changes the ids.
-/

namespace TensorFlowOnSpark.Construction

open Ops Fallible List Nat

variable {R H : Type}

def Graph.IsEmpty (g : Graph) : Prop :=
  (∀ id, g.IsNode id → id = kSourceId ∨ id = kSinkId) ∧ g.edges = [sourceEdge kSinkId]

/-- `v` comes right after `u` and is no `Merge`. -/
def StepsToOther (g : Graph) (u v : Nat) : Prop :=
  (∃ e ∈ g.edges, e.src = u ∧ e.dst = v) ∧
    ∀ node, g.node v = some node → isMerge node.nodeDef = false

/-- The graph holds what the `GraphDef` says; `at_` gives the node of each name. -/
structure Faithful (gdef : GraphDef) (at_ : String → Nat) (g : Graph) : Prop where
  nodup : gdef.node.Nodup
  node : ∀ d ∈ gdef.node, ∃ node, g.node (at_ d.name) = some node ∧ node.nodeDef = d
  isOp : ∀ d ∈ gdef.node, kSinkId < at_ d.name
  inj : ∀ d ∈ gdef.node, ∀ d' ∈ gdef.node, at_ d.name = at_ d'.name → d = d'
  only : ∀ id, g.IsNode id → id = kSourceId ∨ id = kSinkId ∨ ∃ d ∈ gdef.node, at_ d.name = id
  known : ∀ d ∈ gdef.node, ∀ input ∈ d.input, ∃ src ∈ gdef.node, src.name = (inputId input).1
  edges : (g.edges.filter fun e => e.src ≠ kSourceId ∧ e.dst ≠ kSinkId).Perm
    (gdef.node.flatMap (inputEdges at_))
  slot : ∀ d ∈ gdef.node, ∀ (i : Nat) (input : String), d.input[i]? = some input →
    isControlInput input = false →
    (g.edges.filter fun e => e.dst = at_ d.name ∧ e.dstInput = (i : Int)) =
      [⟨at_ (inputId input).1, (inputId input).2, at_ d.name, i⟩]
  control : ∀ d ∈ gdef.node,
    (g.edges.filter fun e => e.dst = at_ d.name ∧ e.isControlEdge ∧ e.src ≠ kSourceId).Perm
      ((d.input.filter isControlInput).map fun input =>
        ⟨at_ (inputId input).1, kControlSlot, at_ d.name, kControlSlot⟩)
  cycles : Dependency.Acyclic (StepsToOther g)

section Edges

variable {at_ : String → Nat}
variable {dst input : String} {i n : Nat}

theorem inputEdge_data (hData : isControlInput input = false) (hIndex : 0 ≤ (inputId input).2) :
    inputEdge at_ dst i input = ⟨at_ (inputId input).1, (inputId input).2, at_ dst, i⟩ := by
  have hEq : inputIndex input = (inputId input).2 := by simp [inputIndex, hData]
  have hNe : (inputId input).2 ≠ kControlSlot := by
    intro hControl
    rw [hControl] at hIndex
    exact absurd hIndex (by decide)
  rw [inputEdge, slotEdge, hEq, if_neg hNe]

theorem inputEdge_control (hControl : isControlInput input) :
    inputEdge at_ dst i input = ⟨at_ (inputId input).1, kControlSlot, at_ dst, kControlSlot⟩ := by
  have hEq : inputIndex input = kControlSlot := by simp [inputIndex, hControl]
  rw [inputEdge, slotEdge, hEq, if_pos rfl]

theorem inputEdge_dstInput_ne (hNe : n ≠ i)
    (hIndex : isControlInput input = false → 0 ≤ (inputId input).2) :
    (inputEdge at_ dst n input).dstInput ≠ (i : Int) := by
  cases hKind : isControlInput input with
  | true =>
    rw [inputEdge_control hKind]
    simp only [kControlSlot]
    omega
  | false =>
    rw [inputEdge_data hKind (hIndex hKind)]
    simp only
    omega

theorem filter_slot {inputs : List String}
    (hInput : inputs[i]? = some input) (hData : isControlInput input = false)
    (hIndex : ∀ input ∈ inputs, isControlInput input = false → 0 ≤ (inputId input).2) :
    ((inputEdgesFrom at_ dst inputs n).filter fun e => e.dstInput = ((n + i : Nat) : Int)) =
      [⟨at_ (inputId input).1, (inputId input).2, at_ dst, ((n + i : Nat) : Int)⟩] := by
  induction inputs generalizing n i with
  | nil => cases hInput
  | cons first rest ih =>
    rw [forall_mem_cons] at hIndex
    rw [inputEdgesFrom, filter_cons]
    cases i with
    | zero =>
      obtain rfl : first = input := Option.some.inj hInput
      have hLater : ((inputEdgesFrom at_ dst rest (n + 1)).filter fun e =>
          e.dstInput = ((n + 0 : Nat) : Int)) = [] := by
        rw [filter_eq_nil_iff]
        intro e hMem
        obtain ⟨k, input', hGet, rfl⟩ := mem_inputEdgesFrom.mp hMem
        rw [decide_eq_true_eq]
        exact inputEdge_dstInput_ne (by omega) (hIndex.2 input' (mem_of_getElem? hGet))
      rw [hLater, inputEdge_data hData (hIndex.1 hData), if_pos (by simp), add_zero]
    | succ i =>
      have hSum : n + (i + 1) = n + 1 + i := by omega
      have hFirst : (inputEdge at_ dst n first).dstInput ≠ ((n + (i + 1) : Nat) : Int) :=
        inputEdge_dstInput_ne (by omega) hIndex.1
      rw [if_neg (by simpa using hFirst), hSum]
      exact ih hInput hIndex.2

theorem filter_control {inputs : List String}
    (hIndex : ∀ input ∈ inputs, isControlInput input = false → 0 ≤ (inputId input).2) :
    ((inputEdgesFrom at_ dst inputs n).filter Edge.isControlEdge) =
      (inputs.filter isControlInput).map fun input =>
        ⟨at_ (inputId input).1, kControlSlot, at_ dst, kControlSlot⟩ := by
  induction inputs generalizing n with
  | nil => rfl
  | cons first rest ih =>
    rw [forall_mem_cons] at hIndex
    rw [inputEdgesFrom, filter_cons, filter_cons, ih hIndex.2]
    cases hKind : isControlInput first with
    | true =>
      rw [inputEdge_control hKind]
      simp [Edge.isControlEdge]
    | false =>
      have hNot : Edge.isControlEdge (inputEdge at_ dst n first) = false := by
        rw [inputEdge_data hKind (hIndex.1 hKind), Edge.isControlEdge, decide_eq_false_iff_not]
        simp only [kControlSlot]
        have := hIndex.1 hKind
        omega
      simp [hNot]

theorem flatMap_only {α β : Type} {xs : List α} {x : α} {f : α → List β} (hNodup : xs.Nodup)
    (hMem : x ∈ xs) (hOther : ∀ y ∈ xs, y ≠ x → f y = []) : xs.flatMap f = f x := by
  induction xs with
  | nil => cases hMem
  | cons y rest ih =>
    obtain ⟨hNew, hRest⟩ := nodup_cons.mp hNodup
    rw [forall_mem_cons] at hOther
    rw [flatMap_cons]
    rcases mem_cons.mp hMem with rfl | hMem
    · have hNil : rest.flatMap f = [] := by
        rw [flatMap_eq_nil_iff]
        intro z hz
        exact hOther.2 z hz fun hEq => hNew (hEq ▸ hz)
      rw [hNil, append_nil]
    · have hNe : y ≠ x := fun hEq => hNew (hEq ▸ hMem)
      rw [hOther.1 hNe]
      exact ih hRest hMem hOther.2

end Edges

section Final

variable {env : Environment R H} {opts : Options} {gdef : GraphDef} {g₀ g : Graph}
  {at_ : String → Nat} {versions : VersionDef}

structure Completed (gdef : GraphDef) (at_ : String → Nat) (g : Graph) : Prop where
  edges : ∃ border, g.edges.Perm (gdef.node.flatMap (inputEdges at_) ++ border) ∧
    ∀ e ∈ border, ∃ id, IsBorderEdge id e
  isOp : ∀ d ∈ gdef.node, kSinkId < at_ d.name
  inj : ∀ d ∈ gdef.node, ∀ d' ∈ gdef.node, at_ d.name = at_ d'.name → d = d'
  nodup : gdef.node.Nodup
  known : ∀ d ∈ gdef.node, ∀ input ∈ d.input, ∃ src ∈ gdef.node, src.name = (inputId input).1
  indices : ∀ d ∈ gdef.node, ∀ input ∈ d.input, isControlInput input = false →
    0 ≤ (inputId input).2

namespace Completed

variable (h : Completed gdef at_ g)
include h

variable {d : Ops.NodeDef}

theorem src_isOp (hMem : d ∈ gdef.node) {input : String} (hInput : input ∈ d.input) :
    kSinkId < at_ (inputId input).1 := by
  obtain ⟨src, hSrc, hName⟩ := h.known d hMem input hInput
  rw [← hName]
  exact h.isOp src hSrc

theorem between {e : Edge} (hMem : e ∈ gdef.node.flatMap (inputEdges at_)) :
    kSinkId < e.src ∧ kSinkId < e.dst := by
  obtain ⟨d, hd, hEdge⟩ := mem_flatMap.mp hMem
  obtain ⟨i, input, hGet, rfl⟩ := mem_inputEdges.mp hEdge
  rw [inputEdge_src, inputEdge_dst]
  exact ⟨h.src_isOp hd (mem_of_getElem? hGet), h.isOp d hd⟩

theorem filter_perm {p : Edge → Bool} (hSource : ∀ id, p (sourceEdge id) = false)
    (hSink : ∀ id, p (sinkEdge id) = false) :
    (g.edges.filter p).Perm ((gdef.node.flatMap (inputEdges at_)).filter p) := by
  obtain ⟨border, hPerm, hBorder⟩ := h.edges
  have hNone : border.filter p = [] := by
    rw [filter_eq_nil_iff]
    intro e hMem
    obtain ⟨id, ⟨-, rfl⟩ | ⟨-, rfl⟩⟩ := hBorder e hMem
    · simp [hSource]
    · simp [hSink]
  have hFilter := hPerm.filter p
  rwa [filter_append, hNone, append_nil] at hFilter

theorem filter_into (hMem : d ∈ gdef.node) {p q : Edge → Bool}
    (hInto : ∀ e ∈ gdef.node.flatMap (inputEdges at_), p e = (decide (e.dst = at_ d.name) && q e)) :
    (gdef.node.flatMap (inputEdges at_)).filter p = (inputEdges at_ d).filter q := by
  rw [filter_congr hInto, filter_flatMap]
  have hOnly := flatMap_only (f := fun d' => (inputEdges at_ d').filter fun e =>
    decide (e.dst = at_ d.name) && q e) h.nodup hMem ?_
  · rw [hOnly]
    apply filter_congr
    intro e hEdge
    obtain ⟨i, input, -, rfl⟩ := mem_inputEdges.mp hEdge
    simp
  · intro d' hMem' hNe
    rw [filter_eq_nil_iff]
    intro e hEdge
    obtain ⟨i, input, -, rfl⟩ := mem_inputEdges.mp hEdge
    have hOther : at_ d'.name ≠ at_ d.name := fun hEq => hNe (h.inj d' hMem' d hMem hEq)
    simp [hOther]

theorem edges_between : (g.edges.filter fun e => e.src ≠ kSourceId ∧ e.dst ≠ kSinkId).Perm
    (gdef.node.flatMap (inputEdges at_)) := by
  apply (h.filter_perm ?_ ?_).trans
  · apply Perm.of_eq
    rw [filter_eq_self]
    intro e hMem
    obtain ⟨hSrc, hDst⟩ := h.between hMem
    rw [decide_eq_true_eq]
    simp only [kSourceId] at *
    omega
  · simp [sourceEdge]
  · simp [sinkEdge]

theorem slot (hMem : d ∈ gdef.node) {i : Nat} {input : String} (hInput : d.input[i]? = some input)
    (hData : isControlInput input = false) :
    (g.edges.filter fun e => e.dst = at_ d.name ∧ e.dstInput = (i : Int)) =
      [⟨at_ (inputId input).1, (inputId input).2, at_ d.name, i⟩] := by
  have hNeg : kControlSlot ≠ (i : Int) := by
    simp only [kControlSlot]
    omega
  have hPerm := h.filter_perm (p := fun e => decide (e.dst = at_ d.name ∧ e.dstInput = (i : Int)))
    (by simp [sourceEdge, hNeg]) (by simp [sinkEdge, hNeg])
  rw [h.filter_into hMem (q := fun e => decide (e.dstInput = (i : Int))) (by simp)] at hPerm
  have hSlot : ((inputEdgesFrom at_ d.name d.input 0).filter fun e =>
      e.dstInput = ((0 + i : Nat) : Int)) =
        [⟨at_ (inputId input).1, (inputId input).2, at_ d.name, ((0 + i : Nat) : Int)⟩] :=
    filter_slot hInput hData (h.indices d hMem)
  simp only [Nat.zero_add] at hSlot
  rw [inputEdges, hSlot] at hPerm
  exact perm_singleton.mp hPerm

theorem control (hMem : d ∈ gdef.node) :
    (g.edges.filter fun e => e.dst = at_ d.name ∧ e.isControlEdge ∧ e.src ≠ kSourceId).Perm
      ((d.input.filter isControlInput).map fun input =>
        ⟨at_ (inputId input).1, kControlSlot, at_ d.name, kControlSlot⟩) := by
  have hOp := h.isOp d hMem
  have hPerm := h.filter_perm
    (p := fun e => decide (e.dst = at_ d.name ∧ e.isControlEdge ∧ e.src ≠ kSourceId))
    (by simp [sourceEdge]) (by
      intro id
      rw [decide_eq_false_iff_not]
      rintro ⟨hDst, -⟩
      simp only [sinkEdge] at hDst
      omega)
  have hInto := h.filter_into hMem
    (p := fun e => decide (e.dst = at_ d.name ∧ e.isControlEdge ∧ e.src ≠ kSourceId))
    (q := Edge.isControlEdge) (by
      intro e hEdge
      have hSrc : e.src ≠ kSourceId := by
        have := (h.between hEdge).1
        simp only [kSourceId] at *
        omega
      simp [hSrc])
  rw [hInto, inputEdges, filter_control (h.indices d hMem)] at hPerm
  exact hPerm

end Completed

variable (h : Assembled env opts gdef.node g₀ at_ g) (hEmpty : g₀.IsEmpty)
  (hConvertible : Convertible env opts gdef.node) (hOutputs : NamesOutputs env opts gdef.node)
include h hEmpty

theorem core_edge (versions : VersionDef) :
    sourceEdge kSinkId ∈ (g.setVersions versions).edges := by
  change sourceEdge kSinkId ∈ g.edges
  rw [h.edges.mem_iff, hEmpty.2]
  simp

include hConvertible hOutputs

theorem Assembled.completed :
    Completed gdef at_ (g.setVersions versions).fixupSourceAndSinkEdges := by
  obtain ⟨hEdges, -, -⟩ := fixup_spec (core_edge h hEmpty versions)
  constructor
  · refine ⟨sourceEdge kSinkId :: (g.setVersions versions).nodeIds.flatMap
      (borderEdges (g.setVersions versions).edges), ?_, ?_⟩
    · have hCore := h.edges
      rw [hEmpty.2] at hCore
      rw [hEdges]
      exact (hCore.append_right _).trans perm_middle.symm
    · intro e hMem
      rcases mem_cons.mp hMem with rfl | hMem
      · exact ⟨kSinkId, Or.inl ⟨by decide, rfl⟩⟩
      · obtain ⟨id, -, hBorder⟩ := mem_flatMap.mp hMem
        exact ⟨id, mem_borderEdges hBorder⟩
  · intro d hMem
    exact lt_of_lt_of_le g₀.sink_live.lt_length (h.fresh d hMem)
  · exact h.inj
  · exact Nodup.of_map _ hConvertible.nodup
  · exact hConvertible.known
  · intro d hMem input hInput hData
    obtain ⟨src, -, -, node, -, hPos, -⟩ := hOutputs d hMem input hInput hData
    exact hPos

theorem Assembled.acyclic :
    Dependency.Acyclic (StepsToOther (g.setVersions versions).fixupSourceAndSinkEdges) := by
  have hCompleted : Completed gdef at_ (g.setVersions versions).fixupSourceAndSinkEdges :=
    h.completed hEmpty hConvertible hOutputs
  obtain ⟨-, hNodes, -⟩ := fixup_spec (core_edge h hEmpty versions)
  obtain ⟨border, hPerm, hBorder⟩ := hCompleted.edges
  apply Dependency.acyclic_of_rank fun id => if id = kSinkId then g.numNodeIds else id
  rintro u v ⟨⟨e, hMem, rfl, rfl⟩, hOther⟩
  obtain ⟨hSrc, hDst⟩ :=
    (g.setVersions versions).fixupSourceAndSinkEdges.ends_live e hMem
  have hLive : ∀ id, (g.setVersions versions).fixupSourceAndSinkEdges.IsNode id →
      id < g.numNodeIds := by
    intro id hId
    rw [Graph.isNode_iff, hNodes] at hId
    exact Graph.IsNode.lt (g := g) hId
  have hSrcLt := hLive _ hSrc
  rcases mem_append.mp (hPerm.mem_iff.mp hMem) with hEdge | hEdge
  · obtain ⟨hSrcOp, hDstOp⟩ := hCompleted.between hEdge
    obtain ⟨d, hd, hInput⟩ := mem_flatMap.mp hEdge
    obtain ⟨i, input, hGet, rfl⟩ := mem_inputEdges.mp hInput
    rw [inputEdge_src] at hSrcOp ⊢
    rw [inputEdge_dst] at hDstOp hOther ⊢
    rw [if_neg (by omega), if_neg (by omega)]
    obtain ⟨node, hMake, hNode⟩ := h.node d hd
    have hMerge := hOther node ((hNodes _).trans hNode)
    rw [makeNode_nodeDef hMake] at hMerge
    exact h.forward d hd hMerge input (mem_of_getElem? hGet)
  · obtain ⟨id, ⟨hNe, rfl⟩ | ⟨hNe, rfl⟩⟩ := hBorder e hEdge
    · have hSource : (sourceEdge id).src = 0 := rfl
      have hTarget : (sourceEdge id).dst = id := rfl
      have hPos : id ≠ 0 := hNe
      rw [hSource] at hSrcLt ⊢
      rw [if_neg (by decide)]
      split <;> omega
    · have hSource : (sinkEdge id).src = id := rfl
      have hTarget : (sinkEdge id).dst = kSinkId := rfl
      rw [hSource] at hSrcLt ⊢
      rw [if_neg hNe]
      exact hSrcLt

end Final

variable (env : Environment R H) (allowInternalOps expectDeviceSpec : Bool)

theorem converted {gdef : GraphDef} {g₀ g : Graph} (hEmpty : g₀.IsEmpty)
    (hOk : convertGraphDefToGraph env allowInternalOps expectDeviceSpec gdef g₀ = (.ok (), g)) :
    checkVersions gdef.versions tfGraphDefVersion 0 = .ok () ∧
    Convertible env (.ofConvert allowInternalOps expectDeviceSpec) gdef.node ∧
    ∃ at_ h, Assembled env (.ofConvert allowInternalOps expectDeviceSpec) gdef.node g₀ at_ h ∧
      g = (h.setVersions gdef.versions).fixupSourceAndSinkEdges := by
  have hTyped : ∀ e ∈ g₀.edges, Typed env g₀ e := by
    intro e hMem
    rw [hEmpty.2, mem_singleton] at hMem
    rw [hMem]
    exact fun hData => absurd rfl hData
  unfold convertGraphDefToGraph construct at hOk
  cases hVersions : checkVersions gdef.versions tfGraphDefVersion 0 with
  | error error =>
    rw [hVersions] at hOk
    cases hOk
  | ok u =>
    rw [hVersions] at hOk
    cases hImport : tryImport env (.ofConvert allowInternalOps expectDeviceSpec) gdef
        (.initial g₀ env.newRefiner) with
    | error failure =>
      simp only [hImport] at hOk
      cases hOk
    | ok s =>
      simp only [hImport] at hOk
      obtain ⟨hConvertible, at_, h, hAssembled, hGraph⟩ := tryImport_assembled rfl hTyped hImport
      exact ⟨rfl, hConvertible, at_, h, hAssembled, (Prod.mk.inj hOk).2.symm.trans hGraph⟩

theorem convert_again {gdef : GraphDef} {g₀ : Graph} (hEmpty : g₀.IsEmpty)
    (hVersions : checkVersions gdef.versions tfGraphDefVersion 0 = .ok ())
    (hConvertible : Convertible env (.ofConvert allowInternalOps expectDeviceSpec) gdef.node)
    (hOutputs : NamesOutputs env (.ofConvert allowInternalOps expectDeviceSpec) gdef.node) :
    ∃ g, convertGraphDefToGraph env allowInternalOps expectDeviceSpec gdef g₀ = (.ok (), g) := by
  have hTyped : ∀ e ∈ g₀.edges, Typed env g₀ e := by
    intro e hMem
    rw [hEmpty.2, mem_singleton] at hMem
    rw [hMem]
    exact fun hData => absurd rfl hData
  obtain ⟨s, hImport⟩ := tryImport_isOk env.newRefiner rfl rfl hTyped hConvertible hOutputs
  refine ⟨s.graph, ?_⟩
  simp only [convertGraphDefToGraph, construct, hVersions, hImport]

/-- A conversion into an empty graph that succeeds is faithful, and so it is, with the same
graph up to ids, for the nodes in any other order. -/
theorem convertGraphDefToGraph_faithful (gdef : GraphDef) (g₀ g : Graph) (hEmpty : g₀.IsEmpty)
    (hOutputs : NamesOutputs env (.ofConvert allowInternalOps expectDeviceSpec) gdef.node)
    (hOk : convertGraphDefToGraph env allowInternalOps expectDeviceSpec gdef g₀ = (.ok (), g)) :
    (∃ at_, Faithful gdef at_ g) ∧
    ∀ gdef' : GraphDef, gdef'.node.Perm gdef.node → gdef'.versions = gdef.versions →
      ∃ g', convertGraphDefToGraph env allowInternalOps expectDeviceSpec gdef' g₀ = (.ok (), g') ∧
        Isomorphic g g' := by
  obtain ⟨hVersions, hConvertible, at_, h, hAssembled, rfl⟩ :=
    converted env allowInternalOps expectDeviceSpec hEmpty hOk
  have hCompleted : Completed gdef at_ (h.setVersions gdef.versions).fixupSourceAndSinkEdges :=
    hAssembled.completed hEmpty hConvertible hOutputs
  have hCore := core_edge hAssembled hEmpty gdef.versions
  obtain ⟨-, hNodes, -⟩ := fixup_spec hCore
  constructor
  · refine ⟨at_, ?_⟩
    constructor
    · exact hCompleted.nodup
    · intro d hMem
      obtain ⟨node, hMake, hNode⟩ := hAssembled.node d hMem
      exact ⟨node, (hNodes _).trans hNode, makeNode_nodeDef hMake⟩
    · exact hCompleted.isOp
    · exact hCompleted.inj
    · intro id hLive
      rw [Graph.isNode_iff, hNodes] at hLive
      by_cases hLt : id < g₀.numNodeIds
      · have hOld : g₀.IsNode id := by
          rw [Graph.isNode_iff, ← hAssembled.old id hLt]
          exact hLive
        exact (hEmpty.1 id hOld).imp_right Or.inl
      · exact Or.inr (Or.inr (hAssembled.only id (Nat.le_of_not_lt hLt) hLive))
    · exact hCompleted.known
    · exact hCompleted.edges_between
    · exact fun d hMem i input hInput hData => hCompleted.slot hMem hInput hData
    · exact fun d hMem => hCompleted.control hMem
    · exact hAssembled.acyclic hEmpty hConvertible hOutputs
  · intro gdef' hPerm hSame
    have hConvertible' := hConvertible.perm hPerm
    obtain ⟨g', hOk'⟩ := convert_again env allowInternalOps expectDeviceSpec hEmpty
      (hSame ▸ hVersions) hConvertible' (hOutputs.perm hPerm)
    obtain ⟨-, -, at', h', hAssembled', rfl⟩ :=
      converted env allowInternalOps expectDeviceSpec hEmpty hOk'
    refine ⟨_, hOk', transport gdef.node g₀ at_ at', ?_⟩
    have hRelabels := hAssembled.relabels hAssembled' hPerm hConvertible.known
    rw [hSame]
    apply Relabels.fixup ?_ hCore
    exact { hRelabels with versions := rfl }

def floatArg (name : String) : ArgDef := ⟨name, 1, "", "", "", false⟩

def loopOps : List OpDef :=
  [⟨"Const", [], [floatArg "output"], []⟩,
    ⟨"NextIteration", [floatArg "data"], [floatArg "output"], []⟩,
    ⟨"Merge", [floatArg "first", floatArg "second"], [floatArg "output"], []⟩]

def loopEnvironment : Environment Unit Unit where
  lookUpOpDef := fun op => (loopOps.find? fun opDef => opDef.name = op).map fun opDef =>
    ⟨opDef, none⟩
  newRefiner := ()
  addNode := fun _ _ _ => (.ok (), ())
  makeShapeFromShapeProto := fun _ _ _ => (.ok (), ())
  setShape := fun _ _ _ _ _ => (.ok (), ())
  stray := fun _ _ => dtInvalid
  walk := id
  walk_perm := fun _ => .rfl

def loopNode (name op : String) (input : List String) : Ops.NodeDef :=
  ⟨name, op, input, "", ⟨[], nodup_nil⟩⟩

/-- A `Merge` that reads what comes back from it. -/
def loopDef : GraphDef :=
  ⟨[loopNode "next" "NextIteration" ["merge"], loopNode "merge" "Merge" ["start", "next", "^start"],
    loopNode "start" "Const" []], ⟨17, 0, []⟩⟩

theorem loopDef_faithful :
    (∃ at_, Faithful loopDef at_
      (convertGraphDefToGraph loopEnvironment false false loopDef Graph.new).2) ∧
    ∀ gdef' : GraphDef, gdef'.node.Perm loopDef.node → gdef'.versions = loopDef.versions →
      ∃ g', convertGraphDefToGraph loopEnvironment false false gdef' Graph.new = (.ok (), g') ∧
        Isomorphic (convertGraphDefToGraph loopEnvironment false false loopDef Graph.new).2 g' := by
  have hIsOk : (convertGraphDefToGraph loopEnvironment false false loopDef Graph.new).1.isOk =
      true := by decide +kernel
  have hEmpty : Graph.new.IsEmpty := by
    refine ⟨?_, rfl⟩
    intro id hLive
    have hLt : id < 2 := hLive.lt
    simp only [kSourceId, kSinkId]
    omega
  have hOutputs : NamesOutputs loopEnvironment (.ofConvert false false) loopDef.node := by
    intro d hMem input hInput hData
    simp only [loopDef, mem_cons, not_mem_nil, or_false] at hMem
    rcases hMem with rfl | rfl | rfl
    · obtain rfl : input = "merge" := mem_singleton.mp hInput
      exact ⟨loopNode "merge" "Merge" ["start", "next", "^start"], by simp [loopDef], rfl, _, rfl,
        by decide, by decide⟩
    · simp only [loopNode, mem_cons, not_mem_nil, or_false] at hInput
      rcases hInput with rfl | rfl | rfl
      · exact ⟨loopNode "start" "Const" [], by simp [loopDef], rfl, _, rfl, by decide, by decide⟩
      · exact ⟨loopNode "next" "NextIteration" ["merge"], by simp [loopDef], rfl, _, rfl,
          by decide, by decide⟩
      · cases hData
    · cases hInput
  apply convertGraphDefToGraph_faithful loopEnvironment false false loopDef Graph.new _ hEmpty
    hOutputs
  cases hResult : (convertGraphDefToGraph loopEnvironment false false loopDef Graph.new).1 with
  | error error =>
    rw [hResult] at hIsOk
    cases hIsOk
  | ok u => exact Prod.ext hResult rfl

end TensorFlowOnSpark.Construction
