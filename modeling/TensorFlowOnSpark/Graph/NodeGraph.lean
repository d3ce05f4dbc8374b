import Mathlib.Data.List.Perm.Basic
import TensorFlowOnSpark.Framework.OpDef
import Mathlib.Data.List.Nodup

/-!
# Graphs whose nodes have ids

`Graph` of `graph/graph.cc` as it is built from a `GraphDef`.
-/

namespace TensorFlowOnSpark.Construction

open Ops List

structure VersionDef where
  producer : Int
  minConsumer : Int
  badConsumers : List Int
deriving DecidableEq, Repr

structure Node where
  nodeDef : NodeDef
  opDef : OpDef
  inputTypes : List DataType
  outputTypes : List DataType
  assignedDeviceName : String
deriving DecidableEq

structure Edge where
  src : Nat
  srcOutput : Int
  dst : Nat
  dstInput : Int
deriving DecidableEq, Repr

def kControlSlot : Int := -1

def Edge.isControlEdge (e : Edge) : Bool := e.srcOutput = kControlSlot

def kSourceId : Nat := 0

def kSinkId : Nat := 1

def findNodeId (nodes : List (Option Node)) (id : Nat) : Option Node := nodes[id]?.join

def Live (nodes : List (Option Node)) (id : Nat) : Prop := (findNodeId nodes id).isSome

instance (nodes : List (Option Node)) (id : Nat) : Decidable (Live nodes id) :=
  inferInstanceAs (Decidable (_ = true))

variable {f : Node → Node}

section Slots

variable {nodes : List (Option Node)} {id : Nat}

theorem Live.lt_length (h : Live nodes id) : id < nodes.length := by
  by_contra hGe
  rw [Live, findNodeId, getElem?_eq_none (Nat.le_of_not_lt hGe)] at h
  exact absurd h (by decide)

variable {more : List (Option Node)}

theorem findNodeId_append_left (h : id < nodes.length) :
    findNodeId (nodes ++ more) id = findNodeId nodes id := by
  rw [findNodeId, findNodeId, getElem?_append_left h]

theorem findNodeId_append_self {node : Node} :
    findNodeId (nodes ++ [some node]) nodes.length = some node := by
  simp [findNodeId]

theorem findNodeId_modify (id' : Nat) :
    findNodeId (nodes.modify id (Option.map f)) id' =
      if id = id' then (findNodeId nodes id').map f else findNodeId nodes id' := by
  unfold findNodeId
  rw [getElem?_modify]
  split
  · cases nodes[id']? with
    | none => rfl
    | some slot => rfl
  · simp

theorem findNodeId_set_none (id' : Nat) :
    findNodeId (nodes.set id none) id' = if id = id' then none else findNodeId nodes id' := by
  unfold findNodeId
  rw [getElem?_set]
  split
  · split <;> rfl
  · rfl

theorem Live.append (h : Live nodes id) : Live (nodes ++ more) id := by
  rw [Live, findNodeId_append_left h.lt_length]
  exact h

theorem live_modify {id' : Nat} :
    Live (nodes.modify id (Option.map f)) id' ↔ Live nodes id' := by
  rw [Live, Live, findNodeId_modify]
  split <;> simp

theorem Live.set_none {id' : Nat} (h : Live nodes id') (hNe : id ≠ id') :
    Live (nodes.set id none) id' := by
  rw [Live, findNodeId_set_none, if_neg hNe]
  exact h

end Slots

structure Graph where
  nodes : List (Option Node)
  edges : List Edge
  versions : VersionDef
  source_live : Live nodes kSourceId
  sink_live : Live nodes kSinkId
  ends_live : ∀ e ∈ edges, Live nodes e.src ∧ Live nodes e.dst

namespace Graph

def numNodeIds (g : Graph) : Nat := g.nodes.length

def node (g : Graph) (id : Nat) : Option Node := findNodeId g.nodes id

def IsNode (g : Graph) (id : Nat) : Prop := Live g.nodes id

instance (g : Graph) (id : Nat) : Decidable (g.IsNode id) := inferInstanceAs (Decidable (Live _ _))

def nodeIds (g : Graph) : List Nat := (range g.numNodeIds).filter fun id => g.IsNode id

def inEdges (g : Graph) (id : Nat) : List Edge := g.edges.filter fun e => e.dst = id

def outEdges (g : Graph) (id : Nat) : List Edge := g.edges.filter fun e => e.src = id

def setVersions (g : Graph) (versions : VersionDef) : Graph := { g with versions := versions }

/-- `AllocateNode`; the id of the node is `numNodeIds`. -/
def allocateNode (g : Graph) (node : Node) : Graph :=
  { g with
    nodes := g.nodes ++ [some node]
    source_live := g.source_live.append
    sink_live := g.sink_live.append
    ends_live := fun e hMem => ⟨(g.ends_live e hMem).1.append, (g.ends_live e hMem).2.append⟩ }

def modifyNode (g : Graph) (id : Nat) (f : Node → Node) : Graph :=
  { g with
    nodes := g.nodes.modify id (Option.map f)
    source_live := live_modify.mpr g.source_live
    sink_live := live_modify.mpr g.sink_live
    ends_live := fun e hMem =>
      ⟨live_modify.mpr (g.ends_live e hMem).1, live_modify.mpr (g.ends_live e hMem).2⟩ }

/-- `AddEdge`, which is for two nodes of the graph. -/
def addEdge (g : Graph) (e : Edge) : Graph :=
  if h : g.IsNode e.src ∧ g.IsNode e.dst then
    { g with
      edges := g.edges ++ [e]
      ends_live := by
        intro e' hMem
        rcases mem_append.mp hMem with hMem | hMem
        · exact g.ends_live e' hMem
        · exact mem_singleton.mp hMem ▸ h }
  else g

def addControlEdge (g : Graph) (src dst : Nat) : Graph :=
  g.addEdge ⟨src, kControlSlot, dst, kControlSlot⟩

/-- `RemoveNode`, which is for op nodes: the edges of the node go with it. -/
def removeNode (g : Graph) (id : Nat) : Graph :=
  if h : kSinkId < id then
    { g with
      nodes := g.nodes.set id none
      edges := g.edges.filter fun e => e.src ≠ id ∧ e.dst ≠ id
      source_live := g.source_live.set_none (by simp only [kSourceId, kSinkId] at *; omega)
      sink_live := g.sink_live.set_none (by omega)
      ends_live := by
        intro e hMem
        obtain ⟨hMem, hKept⟩ := mem_filter.mp hMem
        obtain ⟨hSrc, hDst⟩ := of_decide_eq_true hKept
        exact ⟨(g.ends_live e hMem).1.set_none hSrc.symm,
          (g.ends_live e hMem).2.set_none hDst.symm⟩ }
  else g

def connectSource (g : Graph) (id : Nat) : Graph :=
  if id ≠ kSourceId ∧ (g.inEdges id).isEmpty then g.addControlEdge kSourceId id else g

def connectSink (g : Graph) (id : Nat) : Graph :=
  if id ≠ kSinkId ∧ (g.outEdges id).isEmpty then g.addControlEdge id kSinkId else g

/-- What `FixupSourceAndSinkEdges` does for one node. -/
def fixupNode (g : Graph) (id : Nat) : Graph := (g.connectSource id).connectSink id

def fixupSourceAndSinkEdges (g : Graph) : Graph := g.nodeIds.foldl fixupNode g

variable {g : Graph}
variable {id : Nat} {e : Edge}

theorem IsNode.lt (h : g.IsNode id) : id < g.numNodeIds := h.lt_length

@[simp] theorem mem_nodeIds : id ∈ g.nodeIds ↔ g.IsNode id := by
  simp only [nodeIds, mem_filter, mem_range, decide_eq_true_eq]
  exact ⟨fun h => h.2, fun h => ⟨h.lt, h⟩⟩

@[simp] theorem mem_inEdges : e ∈ g.inEdges id ↔ e ∈ g.edges ∧ e.dst = id := by
  simp [inEdges]

@[simp] theorem mem_outEdges : e ∈ g.outEdges id ↔ e ∈ g.edges ∧ e.src = id := by
  simp [outEdges]

@[simp] theorem addEdge_nodes (e : Edge) : (g.addEdge e).nodes = g.nodes := by
  unfold addEdge
  split <;> rfl

@[simp] theorem addEdge_versions (e : Edge) : (g.addEdge e).versions = g.versions := by
  unfold addEdge
  split <;> rfl

theorem addEdge_edges (hSrc : g.IsNode e.src) (hDst : g.IsNode e.dst) :
    (g.addEdge e).edges = g.edges ++ [e] := by
  unfold addEdge
  rw [dif_pos ⟨hSrc, hDst⟩]

theorem node_allocateNode_self (node : Node) :
    (g.allocateNode node).node g.numNodeIds = some node := findNodeId_append_self

theorem node_allocateNode_of_lt {node : Node} (h : id < g.numNodeIds) :
    (g.allocateNode node).node id = g.node id := findNodeId_append_left h

theorem node_modifyNode {id' : Nat} :
    (g.modifyNode id f).node id' = if id = id' then (g.node id').map f else g.node id' :=
  findNodeId_modify id'

@[simp] theorem node_addEdge (e : Edge) (id : Nat) : (g.addEdge e).node id = g.node id := by
  rw [node, addEdge_nodes]
  rfl

theorem isNode_iff : g.IsNode id ↔ (g.node id).isSome := Iff.rfl

theorem isNode_of_node {node : Node} (h : g.node id = some node) : g.IsNode id := by
  rw [isNode_iff, h]
  rfl

end Graph

def noOp : OpDef := ⟨"NoOp", [], [], []⟩

def noOpNode (name : String) (input : List String) : NodeDef :=
  ⟨name, "NoOp", input, "", ⟨[], nodup_nil⟩⟩

/-- The graph that the constructor `Graph` makes, with its source and its sink. -/
def Graph.new : Graph where
  nodes := [some ⟨noOpNode "_SOURCE" [], noOp, [], [], ""⟩,
    some ⟨noOpNode "_SINK" [], noOp, [], [], ""⟩]
  edges := [⟨kSourceId, kControlSlot, kSinkId, kControlSlot⟩]
  versions := ⟨17, 0, []⟩
  source_live := rfl
  sink_live := rfl
  ends_live := by
    intro e hMem
    rw [mem_singleton.mp hMem]
    exact ⟨rfl, rfl⟩

open Construction.Graph

def relabel (rename : Nat → Nat) (e : Edge) : Edge :=
  { e with src := rename e.src, dst := rename e.dst }

/-- The ids of `g` renamed are those of `g'`, with the same nodes and edges. -/
structure Relabels (rename : Nat → Nat) (g g' : Graph) : Prop where
  node : ∀ id, g.IsNode id → g'.node (rename id) = g.node id
  inj : ∀ id id', g.IsNode id → g.IsNode id' → rename id = rename id' → id = id'
  onto : ∀ id', g'.IsNode id' → ∃ id, g.IsNode id ∧ rename id = id'
  source : rename kSourceId = kSourceId
  sink : rename kSinkId = kSinkId
  edges : g'.edges.Perm (g.edges.map (relabel rename))
  versions : g'.versions = g.versions

def Isomorphic (g g' : Graph) : Prop := ∃ rename, Relabels rename g g'

def sourceEdge (id : Nat) : Edge := ⟨kSourceId, kControlSlot, id, kControlSlot⟩

def sinkEdge (id : Nat) : Edge := ⟨id, kControlSlot, kSinkId, kControlSlot⟩

def needsSource (edges : List Edge) (id : Nat) : Prop := id ≠ kSourceId ∧ ∀ e ∈ edges, e.dst ≠ id

def needsSink (edges : List Edge) (id : Nat) : Prop := id ≠ kSinkId ∧ ∀ e ∈ edges, e.src ≠ id

instance (edges : List Edge) (id : Nat) : Decidable (needsSource edges id) :=
  inferInstanceAs (Decidable (_ ∧ _))

instance (edges : List Edge) (id : Nat) : Decidable (needsSink edges id) :=
  inferInstanceAs (Decidable (_ ∧ _))

def borderEdges (edges : List Edge) (id : Nat) : List Edge :=
  (if needsSource edges id then [sourceEdge id] else []) ++
    if needsSink edges id then [sinkEdge id] else []

variable {g : Graph}

variable {id : Nat}

theorem inEdges_isEmpty : (g.inEdges id).isEmpty ↔ ∀ e ∈ g.edges, e.dst ≠ id := by
  rw [inEdges]
  simp

theorem outEdges_isEmpty :
    (g.outEdges id).isEmpty ↔ ∀ e ∈ g.edges, e.src ≠ id := by
  rw [outEdges]
  simp

theorem addControlEdge_edges {src dst : Nat} (hSrc : g.IsNode src) (hDst : g.IsNode dst) :
    (g.addControlEdge src dst).edges = g.edges ++ [⟨src, kControlSlot, dst, kControlSlot⟩] :=
  addEdge_edges hSrc hDst

theorem connectSource_node (id id' : Nat) : (g.connectSource id).node id' = g.node id' := by
  unfold connectSource addControlEdge
  split <;> simp

theorem connectSink_node (id id' : Nat) : (g.connectSink id).node id' = g.node id' := by
  unfold connectSink addControlEdge
  split <;> simp

theorem fixupNode_node (id id' : Nat) : (g.fixupNode id).node id' = g.node id' := by
  rw [fixupNode, connectSink_node, connectSource_node]

theorem fixupNode_versions (id : Nat) : (g.fixupNode id).versions = g.versions := by
  unfold fixupNode connectSink connectSource addControlEdge
  split <;> split <;> simp

theorem connectSource_edges (hLive : g.IsNode id) : (g.connectSource id).edges =
    g.edges ++ if needsSource g.edges id then [sourceEdge id] else [] := by
  have hNeeds : id ≠ kSourceId ∧ (g.inEdges id).isEmpty ↔ needsSource g.edges id :=
    and_congr_right fun _ => inEdges_isEmpty
  unfold connectSource
  simp only [hNeeds]
  split
  · exact addControlEdge_edges g.source_live hLive
  · rw [append_nil]

theorem connectSink_edges (hLive : g.IsNode id) : (g.connectSink id).edges =
    g.edges ++ if needsSink g.edges id then [sinkEdge id] else [] := by
  have hNeeds : id ≠ kSinkId ∧ (g.outEdges id).isEmpty ↔ needsSink g.edges id :=
    and_congr_right fun _ => outEdges_isEmpty
  unfold connectSink
  simp only [hNeeds]
  split
  · exact addControlEdge_edges hLive g.sink_live
  · rw [append_nil]

theorem fixupNode_edges (hLive : g.IsNode id) :
    (g.fixupNode id).edges = g.edges ++ borderEdges g.edges id := by
  have hLive' : (g.connectSource id).IsNode id := by
    rw [isNode_iff, connectSource_node]
    exact hLive
  have hSame : needsSink (g.connectSource id).edges id ↔ needsSink g.edges id := by
    rw [connectSource_edges hLive]
    unfold needsSink
    rw [forall_mem_append]
    refine ⟨fun h => ⟨h.1, h.2.1⟩, fun h => ⟨h.1, h.2, ?_⟩⟩
    intro e hMem hSrc
    split at hMem
    · rename_i hNeeds
      rw [mem_singleton.mp hMem] at hSrc
      exact hNeeds.1 hSrc.symm
    · cases hMem
  rw [fixupNode, connectSink_edges hLive', connectSource_edges hLive, append_assoc]
  congr 2
  rw [connectSource_edges hLive] at hSame
  simp only [hSame]

def IsBorderEdge (id : Nat) (e : Edge) : Prop :=
  id ≠ kSourceId ∧ e = sourceEdge id ∨ id ≠ kSinkId ∧ e = sinkEdge id

theorem mem_borderEdges {edges : List Edge} {e : Edge} (h : e ∈ borderEdges edges id) :
    IsBorderEdge id e := by
  rcases mem_append.mp h with hMem | hMem
  · split at hMem
    · rename_i hNeeds
      exact Or.inl ⟨hNeeds.1, mem_singleton.mp hMem⟩
    · cases hMem
  · split at hMem
    · rename_i hNeeds
      exact Or.inr ⟨hNeeds.1, mem_singleton.mp hMem⟩
    · cases hMem

theorem borderEdges_append {edges : List Edge} {id' : Nat} (hNe : id ≠ id')
    (hCore : sourceEdge kSinkId ∈ edges) :
    borderEdges (edges ++ borderEdges edges id') id = borderEdges edges id := by
  have hSource : needsSource (edges ++ borderEdges edges id') id ↔ needsSource edges id := by
    unfold needsSource
    rw [forall_mem_append]
    refine ⟨fun h => ⟨h.1, h.2.1⟩, fun h => ⟨h.1, h.2, ?_⟩⟩
    intro e hMem hDst
    rcases mem_borderEdges hMem with ⟨-, rfl⟩ | ⟨-, rfl⟩
    · exact hNe hDst.symm
    · exact h.2 _ hCore hDst
  have hSink : needsSink (edges ++ borderEdges edges id') id ↔ needsSink edges id := by
    unfold needsSink
    rw [forall_mem_append]
    refine ⟨fun h => ⟨h.1, h.2.1⟩, fun h => ⟨h.1, h.2, ?_⟩⟩
    intro e hMem hSrc
    rcases mem_borderEdges hMem with ⟨-, rfl⟩ | ⟨-, rfl⟩
    · exact h.2 _ hCore hSrc
    · exact hNe hSrc.symm
  unfold borderEdges at hSource hSink ⊢
  simp only [hSource, hSink]

theorem foldl_fixupNode {ids : List Nat} (hNodup : ids.Nodup) (hLive : ∀ id ∈ ids, g.IsNode id)
    (hCore : sourceEdge kSinkId ∈ g.edges) :
    (ids.foldl fixupNode g).edges = g.edges ++ ids.flatMap (borderEdges g.edges) ∧
      (∀ id, (ids.foldl fixupNode g).node id = g.node id) ∧
      (ids.foldl fixupNode g).versions = g.versions := by
  induction ids generalizing g with
  | nil => simp
  | cons id rest ih =>
    obtain ⟨hNew, hRest⟩ := nodup_cons.mp hNodup
    rw [forall_mem_cons] at hLive
    have hEdges := fixupNode_edges hLive.1
    have hLive' : ∀ id' ∈ rest, (g.fixupNode id).IsNode id' := by
      intro id' hMem
      rw [isNode_iff, fixupNode_node]
      exact hLive.2 id' hMem
    have hCore' : sourceEdge kSinkId ∈ (g.fixupNode id).edges := by
      rw [hEdges]
      exact mem_append_left _ hCore
    obtain ⟨hAll, hNodes, hVersions⟩ := ih hRest hLive' hCore'
    have hSame : rest.flatMap (borderEdges (g.fixupNode id).edges) =
        rest.flatMap (borderEdges g.edges) := by
      rw [hEdges]
      apply flatMap_congr
      intro id' hMem
      exact borderEdges_append (fun hEq => hNew (hEq ▸ hMem)) hCore
    rw [foldl_cons, hAll, hSame, hEdges, append_assoc]
    refine ⟨rfl, ?_, ?_⟩
    · intro id'
      rw [hNodes, fixupNode_node]
    · rw [hVersions, fixupNode_versions]

theorem nodeIds_nodup : g.nodeIds.Nodup := nodup_range.filter _

theorem fixup_spec (hCore : sourceEdge kSinkId ∈ g.edges) :
    g.fixupSourceAndSinkEdges.edges = g.edges ++ g.nodeIds.flatMap (borderEdges g.edges) ∧
      (∀ id, g.fixupSourceAndSinkEdges.node id = g.node id) ∧
      g.fixupSourceAndSinkEdges.versions = g.versions :=
  foldl_fixupNode nodeIds_nodup (fun _ hMem => mem_nodeIds.mp hMem) hCore

namespace Relabels

variable {g' : Graph} {rename : Nat → Nat}

variable (h : Relabels rename g g')
include h

theorem isNode {id : Nat} (hLive : g.IsNode id) : g'.IsNode (rename id) := by
  rw [isNode_iff, h.node id hLive]
  exact hLive

theorem nodeIds : g'.nodeIds.Perm (g.nodeIds.map rename) := by
  rw [perm_ext_iff_of_nodup nodeIds_nodup]
  · intro id'
    rw [mem_nodeIds, mem_map]
    constructor
    · intro hLive
      obtain ⟨id, hId, hEq⟩ := h.onto id' hLive
      exact ⟨id, mem_nodeIds.mpr hId, hEq⟩
    · rintro ⟨id, hMem, rfl⟩
      exact h.isNode (mem_nodeIds.mp hMem)
  · apply Nodup.map_on ?_ nodeIds_nodup
    intro id hId id' hId' hEq
    exact h.inj id id' (mem_nodeIds.mp hId) (mem_nodeIds.mp hId') hEq

theorem mem_edges {e' : Edge} : e' ∈ g'.edges ↔ ∃ e ∈ g.edges, relabel rename e = e' := by
  rw [h.edges.mem_iff, mem_map]

theorem borderEdges {id : Nat} (hLive : g.IsNode id) :
    borderEdges g'.edges (rename id) = (borderEdges g.edges id).map (relabel rename) := by
  have hSource : needsSource g'.edges (rename id) ↔ needsSource g.edges id := by
    have hId : rename id = kSourceId ↔ id = kSourceId := by
      constructor
      · intro hEq
        exact h.inj id _ hLive g.source_live (hEq.trans h.source.symm)
      · rintro rfl
        exact h.source
    unfold needsSource
    rw [Ne, hId]
    apply and_congr_right
    intro _
    constructor
    · intro hAll e hMem hDst
      exact hAll _ (h.mem_edges.mpr ⟨e, hMem, rfl⟩) (congrArg rename hDst)
    · intro hAll e' hMem hDst
      obtain ⟨e, hEdge, rfl⟩ := h.mem_edges.mp hMem
      exact hAll e hEdge (h.inj _ _ (g.ends_live e hEdge).2 hLive hDst)
  have hSink : needsSink g'.edges (rename id) ↔ needsSink g.edges id := by
    have hId : rename id = kSinkId ↔ id = kSinkId := by
      constructor
      · intro hEq
        exact h.inj id _ hLive g.sink_live (hEq.trans h.sink.symm)
      · rintro rfl
        exact h.sink
    unfold needsSink
    rw [Ne, hId]
    apply and_congr_right
    intro _
    constructor
    · intro hAll e hMem hSrc
      exact hAll _ (h.mem_edges.mpr ⟨e, hMem, rfl⟩) (congrArg rename hSrc)
    · intro hAll e' hMem hSrc
      obtain ⟨e, hEdge, rfl⟩ := h.mem_edges.mp hMem
      exact hAll e hEdge (h.inj _ _ (g.ends_live e hEdge).1 hLive hSrc)
  unfold Construction.borderEdges
  simp only [hSource, hSink, map_append]
  congr 1
  · split
    · simp [relabel, sourceEdge, h.source]
    · rfl
  · split
    · simp [relabel, sinkEdge, h.sink]
    · rfl

theorem fixup (hCore : sourceEdge kSinkId ∈ g.edges) :
    Relabels rename g.fixupSourceAndSinkEdges g'.fixupSourceAndSinkEdges := by
  have hCore' : sourceEdge kSinkId ∈ g'.edges := by
    apply h.mem_edges.mpr
    exact ⟨_, hCore, by simp [relabel, sourceEdge, h.source, h.sink]⟩
  obtain ⟨hEdges, hNodes, hVersions⟩ := fixup_spec hCore
  obtain ⟨hEdges', hNodes', hVersions'⟩ := fixup_spec hCore'
  have hIsNode : ∀ id, g.fixupSourceAndSinkEdges.IsNode id ↔ g.IsNode id := by
    intro id
    rw [isNode_iff, hNodes, isNode_iff]
  constructor
  · intro id hLive
    rw [hNodes', hNodes]
    exact h.node id ((hIsNode id).mp hLive)
  · intro id id' hId hId' hEq
    exact h.inj id id' ((hIsNode id).mp hId) ((hIsNode id').mp hId') hEq
  · intro id' hLive
    rw [isNode_iff, hNodes'] at hLive
    obtain ⟨id, hId, hEq⟩ := h.onto id' hLive
    exact ⟨id, (hIsNode id).mpr hId, hEq⟩
  · exact h.source
  · exact h.sink
  · have hBorder : (g.nodeIds.map rename).flatMap (Construction.borderEdges g'.edges) =
        (g.nodeIds.flatMap (Construction.borderEdges g.edges)).map (relabel rename) := by
      rw [flatMap_map, map_flatMap]
      apply flatMap_congr
      intro id hMem
      exact h.borderEdges (mem_nodeIds.mp hMem)
    rw [hEdges', hEdges, map_append, ← hBorder]
    exact h.edges.append (h.nodeIds.flatMap_right _)
  · rw [hVersions', hVersions, h.versions]

end Relabels

end TensorFlowOnSpark.Construction
