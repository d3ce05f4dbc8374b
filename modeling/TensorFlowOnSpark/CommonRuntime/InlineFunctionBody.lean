import TensorFlowOnSpark.Graph.Subgraph
import Mathlib.Data.Set.Insert
import TensorFlowOnSpark.Graph.ImportGraphDef
import TensorFlowOnSpark.Graph.SubgraphFeeds

/-!
# Inlining a function body

`InlineFunctionBody` of `common_runtime/function.cc`.
-/

namespace TensorFlowOnSpark.Construction.Inlining

open Ops Function

/-- `FunctionBody`, whose constructor takes the nodes of the ops `_Arg` and `_Retval` by their
`index`. -/
structure FunctionBody where
  graph : Graph
  argTypes : List DataType
  retTypes : List DataType
  argNodes : List Nat
  retNodes : List Nat
  argNodes_op : ∀ id ∈ argNodes, kSinkId < id ∧
    ∃ node, graph.node id = some node ∧ node.nodeDef.op = "_Arg"
  retNodes_op : ∀ id ∈ retNodes, kSinkId < id ∧
    ∃ node, graph.node id = some node ∧ node.nodeDef.op = "_Retval"
  argNodes_nodup : argNodes.Nodup
  retNodes_nodup : retNodes.Nodup
  /-- A `_Retval` has one input. -/
  retNodes_input : ∀ e ∈ graph.edges, ∀ e' ∈ graph.edges, e.dst ∈ retNodes → e.dst = e'.dst →
    e.isControlEdge = false → e'.isControlEdge = false → e.src = e'.src

def FunctionBody.isOp (fbody : FunctionBody) (id : Nat) : Bool :=
  kSinkId < id ∧ fbody.graph.IsNode id

structure Endpoint where
  node : Nat
  index : Int

def Endpoint.name (input : Endpoint) (node : Node) : String :=
  if input.index = 0 then node.nodeDef.name else s!"{node.nodeDef.name}:{input.index}"

/-- The graph with its `name_counter_`, and the copies of the nodes of the body. -/
structure State where
  graph : Graph
  nameCounter : Nat
  nodeMap : Nat → Nat

def kNodeLabel : String := "Func"

def State.newName (s : State) (label : String) : String := s!"{label}/_{s.nameCounter}"

def validateInlining (node : Node) (fbody : FunctionBody) : Bool :=
  node.inputTypes.length = fbody.argTypes.length ∧
  node.inputTypes.length = fbody.argNodes.length ∧
  node.outputTypes.length = fbody.retTypes.length ∧
  node.outputTypes.length = fbody.retNodes.length ∧
  node.inputTypes = fbody.argTypes ∧
  node.outputTypes = fbody.retTypes

section Nodes

variable (lookUpOpDef : String → Option OpDef) (stray : List DataType → Int → DataType)

def addNode (s : State) (nodeDef : Ops.NodeDef) : Option State := do
  let opDef ← lookUpOpDef nodeDef.op
  let types ← (nodeDef.inOutTypesForNode opDef).toOption
  some { s with graph := s.graph.allocateNode ⟨nodeDef, opDef, types.1, types.2, ""⟩ }

def noOpDef (name : String) : Ops.NodeDef := ⟨name, "NoOp", [], "", ⟨[], List.nodup_nil⟩⟩

def identityDef (name input : String) (dtype : DataType) : Ops.NodeDef :=
  ⟨name, "Identity", [input], "", ⟨[("T", .type dtype)], by simp⟩⟩

def addNoOp (s : State) : Option State :=
  addNode lookUpOpDef { s with nameCounter := s.nameCounter + 1 } (noOpDef (s.newName kNodeLabel))

def addIdentity (s : State) (input : Endpoint) : Option State := do
  let node ← s.graph.node input.node
  let s' ← addNode lookUpOpDef { s with nameCounter := s.nameCounter + 1 }
    (identityDef (s.newName kNodeLabel) (input.name node)
      (Subgraph.outputType stray node input.index))
  some { s' with graph := s'.graph.addEdge ⟨input.node, input.index, s.graph.numNodeIds, 0⟩ }

def copyName (caller : Node) (nodeDef : Ops.NodeDef) : Ops.NodeDef :=
  { nodeDef with name := s!"{caller.nodeDef.name}/{nodeDef.name}" }

def copyNode (fbody : FunctionBody) (caller : Node) (s : State) (id : Nat) : Option State := do
  let node ← fbody.graph.node id
  let s' ← addNode lookUpOpDef s (copyName caller node.nodeDef)
  some { s' with nodeMap := update s.nodeMap id s.graph.numNodeIds }

def copyEdge (s : State) (e : Edge) : State :=
  { s with graph := s.graph.addEdge ⟨s.nodeMap e.src, e.srcOutput, s.nodeMap e.dst, e.dstInput⟩ }

def copyBody (fbody : FunctionBody) (caller : Node) (s : State) : Option State := do
  let s ← (fbody.graph.nodeIds.filter fbody.isOp).foldlM (copyNode lookUpOpDef fbody caller) s
  some ((fbody.graph.edges.filter fun e => fbody.isOp e.src ∧ fbody.isOp e.dst).foldl copyEdge s)

structure Inputs where
  state : State
  control : Option Nat
  endpoint : Int → Option Endpoint

def controlNode (s : State) : Option Nat → Option (State × Nat)
  | some n => some (s, n)
  | none => (addNoOp lookUpOpDef s).map fun s' => (s', s.graph.numNodeIds)

def takeInput (inputs : Inputs) (e : Edge) : Option Inputs :=
  if e.isControlEdge then
    (controlNode lookUpOpDef inputs.state inputs.control).map fun (s, n) =>
      ⟨{ s with graph := s.graph.addControlEdge e.src n }, some n, inputs.endpoint⟩
  else
    some { inputs with
      endpoint := update inputs.endpoint e.dstInput (some ⟨e.src, e.srcOutput⟩) }

/-- An edge out of an argument goes out of the node `n` instead. -/
def fromArg (n : Nat) (e : Edge) : Edge :=
  if e.isControlEdge then ⟨n, kControlSlot, e.dst, kControlSlot⟩ else ⟨n, 0, e.dst, e.dstInput⟩

/-- The node `n` depends on the `input_control_node`, if there is one. -/
def afterControl (control : Option Nat) (g : Graph) (n : Nat) : Graph :=
  match control with
  | none => g
  | some c => g.addControlEdge c n

def replaceArg (control : Option Nat) (s : State) (id : Nat) (input : Endpoint) : Option State := do
  let arg := s.nodeMap id
  let n := s.graph.numNodeIds
  let s ← addIdentity lookUpOpDef stray s input
  let g := afterControl control s.graph n
  let g := (g.outEdges arg).foldl (fun g e => g.addEdge (fromArg n e)) g
  some { s with graph := g.removeNode arg, nodeMap := update s.nodeMap id n }

/-- From the `i`-th argument on. -/
def replaceArgs (inputs : Inputs) : Int → List Nat → State → Option State
  | _, [], s => some s
  | i, id :: rest, s => do
    let input ← inputs.endpoint i
    let s ← replaceArg lookUpOpDef stray inputs.control s id input
    replaceArgs inputs (i + 1) rest s

def replaceRet (s : State) (id : Nat) : Option State := do
  let ret := s.nodeMap id
  let n := s.graph.numNodeIds
  let data ← (s.graph.inEdges ret).find? fun e => !e.isControlEdge
  let s ← addIdentity lookUpOpDef stray s ⟨data.src, data.srcOutput⟩
  let g := ((s.graph.inEdges ret).filter Edge.isControlEdge).foldl
    (fun g e => g.addControlEdge e.src n) s.graph
  some { s with graph := g.removeNode ret }

/-- The nodes of `outputs` are those that the results are replaced with. -/
def replaceRets : List Nat → State → List Nat → Option (State × List Nat)
  | [], s, outputs => some (s, outputs)
  | id :: rest, s, outputs => do
    let s' ← replaceRet lookUpOpDef stray s id
    replaceRets rest s' (outputs ++ [s.graph.numNodeIds])

/-- The `output_control_node`, which depends on all of `outputs`. -/
def outputControlNode (outputs : List Nat) (s : State) : Option Nat → Option (State × Nat)
  | some n => some (s, n)
  | none => do
    let n := s.graph.numNodeIds
    let s ← addNoOp lookUpOpDef s
    some ({ s with graph := outputs.foldl (fun g id => g.addControlEdge id n) s.graph }, n)

def giveOutput (outputs : List Nat) (s : State × Option Nat) (e : Edge) :
    Option (State × Option Nat) :=
  if e.isControlEdge then
    (outputControlNode lookUpOpDef outputs s.1 s.2).map fun (s, n) =>
      ({ s with graph := s.graph.addControlEdge n e.dst }, some n)
  else
    (if 0 ≤ e.srcOutput then outputs[e.srcOutput.toNat]? else none).map fun n =>
      ({ s.1 with graph := s.1.graph.addEdge ⟨n, 0, e.dst, e.dstInput⟩ }, s.2)

def inlineBody (fbody : FunctionBody) (id : Nat) (caller : Node) (s : State) : Option State := do
  let s ← copyBody lookUpOpDef fbody caller s
  let inputs ← (s.graph.inEdges id).foldlM (takeInput lookUpOpDef) ⟨s, none, fun _ => none⟩
  let s ← replaceArgs lookUpOpDef stray inputs 0 fbody.argNodes inputs.state
  let (s, outputs) ← replaceRets lookUpOpDef stray fbody.retNodes s []
  let s ← (s.graph.outEdges id).foldlM (giveOutput lookUpOpDef outputs) (s, none)
  some { s.1 with graph := s.1.graph.removeNode id }

def inlineFunctionBody (fbody : FunctionBody) (id : Nat) (s : State) : Option State := do
  let caller ← s.graph.node id
  if validateInlining caller fbody then inlineBody lookUpOpDef stray fbody id caller s else some s

end Nodes

open Subgraph List Construction.Graph Nat

def Joins (g : Graph) (control : Bool) (u v : Nat) : Prop :=
  ∃ e ∈ g.edges, e.src = u ∧ e.dst = v ∧ e.isControlEdge = control

variable {node : Node}

section Joins

variable {g : Graph} {control : Bool} {u v : Nat}

theorem Joins.live (h : Joins g control u v) : g.IsNode u ∧ g.IsNode v := by
  obtain ⟨e, hMem, rfl, rfl, -⟩ := h
  exact g.ends_live e hMem

theorem Joins.lt (h : Joins g control u v) : u < g.numNodeIds ∧ v < g.numNodeIds :=
  ⟨h.live.1.lt, h.live.2.lt⟩

theorem joins_addEdge {e : Edge} (hSrc : g.IsNode e.src) (hDst : g.IsNode e.dst) :
    Joins (g.addEdge e) control u v ↔
      Joins g control u v ∨ e.src = u ∧ e.dst = v ∧ e.isControlEdge = control := by
  unfold Joins
  rw [addEdge_edges hSrc hDst]
  constructor
  · rintro ⟨e', hMem, hEnds⟩
    rcases mem_append.mp hMem with hMem | hMem
    · exact Or.inl ⟨e', hMem, hEnds⟩
    · rw [mem_singleton.mp hMem] at hEnds
      exact Or.inr hEnds
  · rintro (⟨e', hMem, hEnds⟩ | hEnds)
    · exact ⟨e', mem_append_left _ hMem, hEnds⟩
    · exact ⟨e, mem_append_right _ (mem_singleton_self e), hEnds⟩

theorem joins_addControlEdge {src dst : Nat} (hSrc : g.IsNode src) (hDst : g.IsNode dst) :
    Joins (g.addControlEdge src dst) control u v ↔
      Joins g control u v ∨ src = u ∧ dst = v ∧ true = control :=
  joins_addEdge hSrc hDst

variable {id : Nat}

theorem joins_removeNode (hOp : kSinkId < id) :
    Joins (g.removeNode id) control u v ↔ Joins g control u v ∧ u ≠ id ∧ v ≠ id := by
  unfold Joins
  simp only [removeNode_edges hOp, mem_filter, decide_eq_true_eq]
  constructor
  · rintro ⟨e, ⟨hMem, hKept⟩, rfl, rfl, hControl⟩
    exact ⟨⟨e, hMem, rfl, rfl, hControl⟩, hKept⟩
  · rintro ⟨⟨e, hMem, rfl, rfl, hControl⟩, hKept⟩
    exact ⟨e, ⟨hMem, hKept⟩, rfl, rfl, hControl⟩

theorem foldl_addEdge {α : Type} {f : α → Edge} {es : List α}
    (hLive : ∀ e ∈ es, g.IsNode (f e).src ∧ g.IsNode (f e).dst) :
    (∀ id, (es.foldl (fun g e => g.addEdge (f e)) g).node id = g.node id) ∧
    (es.foldl (fun g e => g.addEdge (f e)) g).numNodeIds = g.numNodeIds ∧
    ∀ control u v, Joins (es.foldl (fun g e => g.addEdge (f e)) g) control u v ↔
      Joins g control u v ∨
        ∃ e ∈ es, (f e).src = u ∧ (f e).dst = v ∧ (f e).isControlEdge = control := by
  induction es generalizing g with
  | nil => simp
  | cons e es ih =>
    rw [forall_mem_cons] at hLive
    rw [foldl_cons]
    have hRest : ∀ e' ∈ es, (g.addEdge (f e)).IsNode (f e').src ∧
        (g.addEdge (f e)).IsNode (f e').dst := by
      intro e' hMem
      simp only [isNode_iff, node_addEdge]
      exact hLive.2 e' hMem
    obtain ⟨hNode, hSize, hJoins⟩ := ih hRest
    refine ⟨fun id => ?_, ?_, fun control u v => ?_⟩
    · rw [hNode, node_addEdge]
    · rw [hSize, addEdge_numNodeIds]
    · rw [hJoins, joins_addEdge hLive.1.1 hLive.1.2, exists_mem_cons_iff, or_assoc]

theorem joins_allocateNode :
    Joins (g.allocateNode node) control u v ↔ Joins g control u v := Iff.rfl

theorem isNode_allocateNode (h : g.IsNode id) :
    (g.allocateNode node).IsNode id := by
  rw [isNode_iff, node_allocateNode_of_lt h.lt]
  exact h

theorem isNode_allocateNode_self (node : Node) : (g.allocateNode node).IsNode g.numNodeIds :=
  isNode_of_node (node_allocateNode_self node)

theorem isNode_addEdge {e : Edge} : (g.addEdge e).IsNode id ↔ g.IsNode id := by
  rw [isNode_iff, isNode_iff, node_addEdge]

end Joins

variable {more : Bool → Nat → Nat → Prop} {input : Endpoint}

section Nodes

variable {lookUpOpDef : String → Option Ops.OpDef} {stray : List Ops.DataType → Int → Ops.DataType}
variable {s s' : State}

theorem addNode_eq_some {nodeDef : Ops.NodeDef} (h : addNode lookUpOpDef s nodeDef = some s') :
    ∃ node : Node, node.nodeDef = nodeDef ∧ s'.graph = s.graph.allocateNode node ∧
      s'.nodeMap = s.nodeMap := by
  simp only [addNode, Option.bind_eq_bind, Option.bind_eq_some_iff, Option.some.injEq] at h
  obtain ⟨opDef, -, types, -, rfl⟩ := h
  exact ⟨_, rfl, rfl, rfl⟩

theorem addNoOp_eq_some (h : addNoOp lookUpOpDef s = some s') :
    ∃ node : Node, s'.graph = s.graph.allocateNode node ∧ s'.nodeMap = s.nodeMap := by
  obtain ⟨node, -, hGraph, hMap⟩ := addNode_eq_some h
  exact ⟨node, hGraph, hMap⟩

theorem addIdentity_eq_some (h : addIdentity lookUpOpDef stray s input = some s') :
    s'.nodeMap = s.nodeMap ∧ s'.graph.numNodeIds = s.graph.numNodeIds + 1 ∧
    (∃ node : Node, ∀ i, s'.graph.node i = (s.graph.allocateNode node).node i) ∧
    ∀ c u v, Joins s'.graph c u v ↔ Joins s.graph c u v ∨
      input.node = u ∧ s.graph.numNodeIds = v ∧ decide (input.index = kControlSlot) = c := by
  simp only [addIdentity, Option.bind_eq_bind, Option.bind_eq_some_iff, Option.some.injEq] at h
  obtain ⟨src, hSrc, s₁, hAdd, rfl⟩ := h
  obtain ⟨node, -, hGraph, hMap⟩ := addNode_eq_some hAdd
  simp only [hGraph]
  refine ⟨hMap, ?_, ⟨node, fun i => node_addEdge _ i⟩, fun c u v => ?_⟩
  · rw [addEdge_numNodeIds, allocateNode_numNodeIds]
  · rw [joins_addEdge (isNode_allocateNode (isNode_of_node hSrc)) (isNode_allocateNode_self node)]
    rfl

/-- The node `k` is gone, and a new one is there, with the edges `more`. -/
structure Replaced (g g' : Graph) (k : Nat) (more : Bool → Nat → Nat → Prop) : Prop where
  size : g'.numNodeIds = g.numNodeIds + 1
  live : g'.IsNode g.numNodeIds
  node : ∀ i < g.numNodeIds, i ≠ k → g'.node i = g.node i
  joins : ∀ control u v, Joins g' control u v ↔
    (Joins g control u v ∨ more control u v) ∧ u ≠ k ∧ v ≠ k

theorem fromArg_ends (n : Nat) (e : Edge) : (fromArg n e).src = n ∧ (fromArg n e).dst = e.dst ∧
    (fromArg n e).isControlEdge = e.isControlEdge := by
  unfold fromArg
  cases hControl : e.isControlEdge <;> exact ⟨rfl, rfl, rfl⟩

variable {g : Graph} {id k n : Nat}

theorem removeNode_numNodeIds (hOp : kSinkId < id) :
    (g.removeNode id).numNodeIds = g.numNodeIds := by
  unfold removeNode numNodeIds
  rw [dif_pos hOp]
  exact length_set

theorem replaced_of_removeNode {g' : Graph} (hOp : kSinkId < k) (hLive : g.IsNode k)
    (hSize : g'.numNodeIds = g.numNodeIds + 1)
    (hNode : ∀ i, g'.node i = (g.allocateNode node).node i)
    (hJoins : ∀ c u v, Joins g' c u v ↔ Joins g c u v ∨ more c u v) :
    Replaced g (g'.removeNode k) k more := by
  constructor
  · rw [removeNode_numNodeIds hOp, hSize]
  · rw [isNode_iff, removeNode_node hOp, if_neg (Nat.ne_of_lt hLive.lt), hNode,
      node_allocateNode_self]
    rfl
  · intro i hLt hNe
    rw [removeNode_node hOp, if_neg hNe.symm, hNode, node_allocateNode_of_lt hLt]
  · intro c u v
    rw [joins_removeNode hOp, hJoins]

theorem moveOut (hLive : g.IsNode n) :
    (∀ i, ((g.outEdges k).foldl (fun g e => g.addEdge (fromArg n e)) g).node i = g.node i) ∧
    ((g.outEdges k).foldl (fun g e => g.addEdge (fromArg n e)) g).numNodeIds = g.numNodeIds ∧
    ∀ c u v, Joins ((g.outEdges k).foldl (fun g e => g.addEdge (fromArg n e)) g) c u v ↔
      Joins g c u v ∨ u = n ∧ Joins g c k v := by
  have hEdges : ∀ e ∈ g.outEdges k, g.IsNode (fromArg n e).src ∧ g.IsNode (fromArg n e).dst := by
    intro e hMem
    rw [(fromArg_ends n e).1, (fromArg_ends n e).2.1]
    exact ⟨hLive, (g.ends_live e (mem_outEdges.mp hMem).1).2⟩
  obtain ⟨hNode, hSize, hJoins⟩ := foldl_addEdge hEdges
  refine ⟨hNode, hSize, fun c u v => (hJoins c u v).trans (or_congr_right ?_)⟩
  constructor
  · rintro ⟨e, hMem, hSrc, hDst, hControl⟩
    rw [(fromArg_ends n e).1] at hSrc
    rw [(fromArg_ends n e).2.1] at hDst
    rw [(fromArg_ends n e).2.2] at hControl
    obtain ⟨hMem, hOut⟩ := mem_outEdges.mp hMem
    exact ⟨hSrc.symm, e, hMem, hOut, hDst, hControl⟩
  · rintro ⟨rfl, e, hMem, hOut, hDst, hControl⟩
    obtain ⟨hSrc', hDst', hControl'⟩ := fromArg_ends u e
    exact ⟨e, mem_outEdges.mpr ⟨hMem, hOut⟩, hSrc', hDst'.trans hDst,
      hControl'.trans hControl⟩

theorem moveControlIn (hLive : g.IsNode n) :
    (∀ i, (((g.inEdges k).filter Edge.isControlEdge).foldl
      (fun g e => g.addControlEdge e.src n) g).node i = g.node i) ∧
    (((g.inEdges k).filter Edge.isControlEdge).foldl
      (fun g e => g.addControlEdge e.src n) g).numNodeIds = g.numNodeIds ∧
    ∀ c u v, Joins (((g.inEdges k).filter Edge.isControlEdge).foldl
      (fun g e => g.addControlEdge e.src n) g) c u v ↔
      Joins g c u v ∨ v = n ∧ c ∧ Joins g true u k := by
  have hEdges : ∀ e ∈ (g.inEdges k).filter Edge.isControlEdge, g.IsNode e.src ∧ g.IsNode n := by
    intro e hMem
    exact ⟨(g.ends_live e (mem_inEdges.mp (mem_filter.mp hMem).1).1).1, hLive⟩
  obtain ⟨hNode, hSize, hJoins⟩ :=
    foldl_addEdge (f := fun e : Edge => ⟨e.src, kControlSlot, n, kControlSlot⟩) hEdges
  refine ⟨hNode, hSize, fun c u v => (hJoins c u v).trans (or_congr_right ?_)⟩
  constructor
  · rintro ⟨e, hMem, rfl, rfl, rfl⟩
    obtain ⟨hMem, hControl⟩ := mem_filter.mp hMem
    obtain ⟨hMem, hIn⟩ := mem_inEdges.mp hMem
    exact ⟨rfl, rfl, e, hMem, rfl, hIn, hControl⟩
  · rintro ⟨rfl, rfl, e, hMem, rfl, hIn, hControl⟩
    exact ⟨e, mem_filter.mpr ⟨mem_inEdges.mpr ⟨hMem, hIn⟩, hControl⟩, rfl, rfl, rfl⟩

variable {control : Option Nat}

theorem afterControl_joins
    (hControl : ∀ c, control = some c → g.IsNode c) (hLive : g.IsNode n) :
    (∀ i, (afterControl control g n).node i = g.node i) ∧
    (afterControl control g n).numNodeIds = g.numNodeIds ∧
    ∀ c u v, Joins (afterControl control g n) c u v ↔
      Joins g c u v ∨ control = some u ∧ n = v ∧ true = c := by
  cases control with
  | none => exact ⟨fun _ => rfl, rfl, by simp [afterControl]⟩
  | some m =>
    refine ⟨fun i => node_addEdge _ i, addEdge_numNodeIds _ _, fun c u v => ?_⟩
    rw [afterControl, joins_addControlEdge (hControl m rfl) hLive, Option.some.injEq]

/-- What leaves the argument leaves the new node, which the input enters and the control node. -/
theorem replaceArg_replaced (hOp : kSinkId < s.nodeMap id)
    (hLive : s.graph.IsNode (s.nodeMap id))
    (hControl : ∀ n, control = some n → s.graph.IsNode n ∧ n ≠ s.nodeMap id)
    (hInput : input.node ≠ s.nodeMap id)
    (h : replaceArg lookUpOpDef stray control s id input = some s') :
    s'.nodeMap = update s.nodeMap id s.graph.numNodeIds ∧
    Replaced s.graph s'.graph (s.nodeMap id) fun c u v =>
      v = s.graph.numNodeIds ∧ (u = input.node ∧ c = decide (input.index = kControlSlot) ∨
        control = some u ∧ c) ∨
      u = s.graph.numNodeIds ∧ Joins s.graph c (s.nodeMap id) v := by
  simp only [replaceArg, Option.bind_eq_bind, Option.bind_eq_some_iff, Option.some.injEq] at h
  obtain ⟨s₁, hIdentity, rfl⟩ := h
  obtain ⟨hMap, hSize₁, ⟨node, hNode₁⟩, hJoins₁⟩ := addIdentity_eq_some hIdentity
  refine ⟨by rw [hMap], ?_⟩
  have hNew := isNode_allocateNode_self (g := s.graph) node
  have hLive₁ : ∀ n, (s.graph.allocateNode node).IsNode n → s₁.graph.IsNode n := by
    intro n hn
    rw [isNode_iff, hNode₁]
    exact hn
  obtain ⟨hNode, hSize, hJoins⟩ := afterControl_joins
    (fun n hn => hLive₁ n (isNode_allocateNode (hControl n hn).1)) (hLive₁ _ hNew)
  generalize afterControl control s₁.graph s.graph.numNodeIds = g at hNode hSize hJoins ⊢
  have hLive' : g.IsNode s.graph.numNodeIds := by
    rw [isNode_iff, hNode]
    exact hLive₁ _ hNew
  obtain ⟨hNodeOut, hSizeOut, hJoinsOut⟩ := moveOut (k := s.nodeMap id) hLive'
  apply replaced_of_removeNode hOp hLive (hSizeOut.trans (hSize.trans hSize₁)) fun i =>
    (hNodeOut i).trans ((hNode i).trans (hNode₁ i))
  intro c u v
  rw [hJoinsOut, hJoins, hJoins, hJoins₁, hJoins₁]
  have hFirst : ¬(input.node = s.nodeMap id ∧ s.graph.numNodeIds = v ∧
      decide (input.index = kControlSlot) = c) := fun h => hInput h.1
  have hSecond : ¬(control = some (s.nodeMap id) ∧ s.graph.numNodeIds = v ∧ true = c) :=
    fun h => (hControl _ h.1).2 rfl
  rw [or_iff_left hFirst, or_iff_left hSecond]
  constructor
  · rintro (((hOld | ⟨hu, hv, hc⟩) | ⟨hu, hv, hc⟩) | hMoved)
    · exact Or.inl hOld
    · exact Or.inr (Or.inl ⟨hv.symm, Or.inl ⟨hu.symm, hc.symm⟩⟩)
    · exact Or.inr (Or.inl ⟨hv.symm, Or.inr ⟨hu, hc.symm⟩⟩)
    · exact Or.inr (Or.inr hMoved)
  · rintro (hOld | ⟨hv, ⟨hu, hc⟩ | ⟨hu, hc⟩⟩ | hMoved)
    · exact Or.inl (Or.inl (Or.inl hOld))
    · exact Or.inl (Or.inl (Or.inr ⟨hu.symm, hv.symm, hc.symm⟩))
    · exact Or.inl (Or.inr ⟨hu, hv.symm, hc.symm⟩)
    · exact Or.inr hMoved

theorem replaceRet_replaced (hOp : kSinkId < s.nodeMap id)
    (hLive : s.graph.IsNode (s.nodeMap id)) (h : replaceRet lookUpOpDef stray s id = some s') :
    s'.nodeMap = s.nodeMap ∧ ∃ src, Joins s.graph false src (s.nodeMap id) ∧
    Replaced s.graph s'.graph (s.nodeMap id) fun c u v =>
      v = s.graph.numNodeIds ∧
        (u = src ∧ c = false ∨ c ∧ Joins s.graph true u (s.nodeMap id)) := by
  simp only [replaceRet, Option.bind_eq_bind, Option.bind_eq_some_iff, Option.some.injEq] at h
  obtain ⟨data, hData, s₁, hIdentity, rfl⟩ := h
  obtain ⟨hMap, hSize, ⟨node, hNode⟩, hJoins⟩ := addIdentity_eq_some hIdentity
  obtain ⟨hMem, hIn⟩ := mem_inEdges.mp (mem_of_find?_eq_some hData)
  have hFalse : data.isControlEdge = false := by
    have hNot := find?_some hData
    simpa using hNot
  refine ⟨hMap, data.src, ⟨data, hMem, rfl, hIn, hFalse⟩, ?_⟩
  change decide (data.srcOutput = kControlSlot) = false at hFalse
  simp only [hFalse] at hJoins
  have hLive' : s₁.graph.IsNode s.graph.numNodeIds := by
    rw [isNode_iff, hNode]
    exact isNode_allocateNode_self node
  obtain ⟨hNodeIn, hSizeIn, hJoinsIn⟩ := moveControlIn (k := s.nodeMap id) hLive'
  apply replaced_of_removeNode hOp hLive (hSizeIn.trans hSize) fun i => (hNodeIn i).trans (hNode i)
  intro c u v
  have hSame : Joins s₁.graph true u (s.nodeMap id) ↔ Joins s.graph true u (s.nodeMap id) := by
    rw [hJoins, or_iff_left]
    exact fun h => ne_of_gt hLive.lt h.2.1
  rw [hJoinsIn, hJoins, hSame]
  constructor
  · rintro ((hOld | ⟨hu, hv, hc⟩) | ⟨hv, hMoved⟩)
    · exact Or.inl hOld
    · exact Or.inr ⟨hv.symm, Or.inl ⟨hu.symm, hc.symm⟩⟩
    · exact Or.inr ⟨hv, Or.inr hMoved⟩
  · rintro (hOld | ⟨hv, ⟨hu, hc⟩ | hMoved⟩)
    · exact Or.inl (Or.inl hOld)
    · exact Or.inl (Or.inr ⟨hu.symm, hv.symm, hc.symm⟩)
    · exact Or.inr ⟨hv, hMoved⟩

end Nodes

section Layout

variable {fbody : FunctionBody} {caller : Node} {g g' g'' : Graph} {control : Option Nat}
variable {gone : Set Nat} {args rets : List Nat} {before : Set Nat} {place : Nat → Nat}

/-- The nodes that stand for those of the body. Those of `gone` have been replaced. -/
structure Placed (fbody : FunctionBody) (caller : Node) (g : Graph) (control : Option Nat)
    (gone : Set Nat) (place : Nat → Nat) (g' : Graph) : Prop where
  old : ∀ i < g.numNodeIds, g'.node i = g.node i
  live : ∀ x, fbody.isOp x → g'.IsNode (place x) ∧ g.numNodeIds ≤ place x
  injective : ∀ x y, fbody.isOp x → fbody.isOp y → place x = place y → x = y
  control_live : ∀ n, control = some n → g'.IsNode n ∧ g.numNodeIds ≤ n ∧
    ∀ x, fbody.isOp x → place x ≠ n
  copies : ∀ x, fbody.isOp x → x ∉ gone → ∃ node copy, fbody.graph.node x = some node ∧
    g'.node (place x) = some copy ∧ copy.nodeDef = copyName caller node.nodeDef

/-- The edges that they have. -/
structure Wired (fbody : FunctionBody) (g : Graph) (control : Option Nat) (args rets : List Nat)
    (before : Set Nat) (place : Nat → Nat) (g' : Graph) : Prop where
  old : ∀ c u v, u < g.numNodeIds → v < g.numNodeIds → (Joins g' c u v ↔ Joins g c u v)
  inner : ∀ c x y, fbody.isOp x → fbody.isOp y →
    (Joins g' c (place x) (place y) ↔ Joins fbody.graph c x y ∧ y ∉ args ∧ x ∉ rets)
  border : ∀ c u v, Joins g' c u v → u < g.numNodeIds ∧ v < g.numNodeIds ∨
    (∃ x y, fbody.isOp x ∧ fbody.isOp y ∧ place x = u ∧ place y = v) ∨
    (∃ a ∈ args, place a = v ∧ (u < g.numNodeIds ∨ control = some u)) ∨
    u < g.numNodeIds ∧ control = some v
  entered : ∀ n, control = some n → ∀ a ∈ args, Joins g' true n (place a)
  preceded : ∀ p ∈ before, p < g.numNodeIds ∧ ∃ n, control = some n ∧ Joins g' true p n

theorem Placed.replace (h : Placed fbody caller g control gone place g') {id : Nat}
    (hId : fbody.isOp id) (hReplaced : Replaced g' g'' (place id) more) :
    Placed fbody caller g control (insert id gone) (update place id g'.numNodeIds) g'' := by
  have hLe : g.numNodeIds ≤ g'.numNodeIds := by
    have hLive := h.live id hId
    exact le_trans hLive.2 (le_of_lt hLive.1.lt)
  have hKept : ∀ x, fbody.isOp x → x ≠ id → g''.node (place x) = g'.node (place x) := by
    intro x hx hNe
    exact hReplaced.node _ (h.live x hx).1.lt fun hEq => hNe (h.injective x id hx hId hEq)
  constructor
  · intro i hLt
    rw [hReplaced.node i (by omega) (Nat.ne_of_lt (lt_of_lt_of_le hLt (h.live id hId).2)),
      h.old i hLt]
  · intro x hx
    by_cases hEq : x = id
    · rw [hEq, update_self]
      exact ⟨hReplaced.live, hLe⟩
    · rw [update_of_ne hEq, isNode_iff, hKept x hx hEq]
      exact h.live x hx
  · intro x y hx hy hPlace
    by_cases hEq : x = id
    · by_cases hEq' : y = id
      · rw [hEq, hEq']
      · rw [hEq, update_self, update_of_ne hEq'] at hPlace
        exact absurd hPlace (ne_of_gt (h.live y hy).1.lt)
    · by_cases hEq' : y = id
      · rw [hEq', update_self, update_of_ne hEq] at hPlace
        exact absurd hPlace (Nat.ne_of_lt (h.live x hx).1.lt)
      · rw [update_of_ne hEq, update_of_ne hEq'] at hPlace
        exact h.injective x y hx hy hPlace
  · intro n hn
    obtain ⟨hLive, hGe, hNe⟩ := h.control_live n hn
    refine ⟨?_, hGe, fun x hx => ?_⟩
    · rw [isNode_iff, hReplaced.node n hLive.lt (hNe id hId).symm]
      exact hLive
    · by_cases hEq : x = id
      · rw [hEq, update_self]
        exact ne_of_gt hLive.lt
      · rw [update_of_ne hEq]
        exact hNe x hx
  · intro x hx hGone
    rw [Set.mem_insert_iff, not_or] at hGone
    rw [update_of_ne hGone.1, hKept x hx hGone.1]
    exact h.copies x hx hGone.2

theorem Placed.update_ne (h : Placed fbody caller g control gone place g') {id x : Nat}
    (hId : fbody.isOp id) (hx : fbody.isOp x) (hNe : x ≠ id) :
    place x ≠ place id := fun hEq => hNe (h.injective x id hx hId hEq)

section Replace

variable (hPlaced : Placed fbody caller g control gone place g') {id : Nat}
  (hId : fbody.isOp id = true)
include hPlaced hId

theorem Placed.update_bounds {x : Nat} (hx : fbody.isOp x) :
    g.numNodeIds ≤ update place id g'.numNodeIds x ∧
      control ≠ some (update place id g'.numNodeIds x) := by
  have hLive := hPlaced.live id hId
  by_cases hEq : x = id
  · rw [hEq, update_self]
    refine ⟨le_trans hLive.2 (le_of_lt hLive.1.lt), fun hn => ?_⟩
    exact lt_irrefl _ (hPlaced.control_live _ hn).1.lt
  · rw [update_of_ne hEq]
    exact ⟨(hPlaced.live x hx).2, fun hn => (hPlaced.control_live _ hn).2.2 x hx rfl⟩

theorem Wired.replaceArg (h : Wired fbody g control args [] before place g')
    (hArgs : ∀ a ∈ args, fbody.isOp a) (hInput : input.node < g.numNodeIds)
    (hReplaced : Replaced g' g'' (place id) fun c u v =>
      v = g'.numNodeIds ∧ (u = input.node ∧ c = decide (input.index = kControlSlot) ∨
        control = some u ∧ c) ∨
      u = g'.numNodeIds ∧ Joins g' c (place id) v) :
    Wired fbody g control (args ++ [id]) [] before (update place id g'.numNodeIds) g'' := by
  obtain ⟨hLive, hGe⟩ := hPlaced.live id hId
  have hLt := hLive.lt
  have hOldLt : ∀ c u v, Joins g' c u v → u < g'.numNodeIds ∧ v < g'.numNodeIds :=
    fun c u v hJoins => hJoins.lt
  have hNe : ∀ x, fbody.isOp x → x ≠ id → place x ≠ place id :=
    fun x hx hx' => hPlaced.update_ne hId hx hx'
  have hKeep : ∀ x, place x ≠ place id → update place id g'.numNodeIds x = place x :=
    fun x hx => update_of_ne (fun hEq => hx (congrArg place hEq)) _ _
  constructor
  · intro c u v hu hv
    rw [hReplaced.joins, ← h.old c u v hu hv]
    constructor
    · rintro ⟨hOld | ⟨hv', -⟩ | ⟨hu', -⟩, -⟩
      · exact hOld
      · omega
      · omega
    · exact fun hOld => ⟨Or.inl hOld, by omega, by omega⟩
  · intro c x y hx hy
    obtain ⟨hxGe, hxControl⟩ := hPlaced.update_bounds hId hx
    rw [hReplaced.joins]
    by_cases hy' : y = id
    · -- Nothing of the body enters an argument.
      rw [hy', update_self]
      constructor
      · rintro ⟨hOld | ⟨-, ⟨hu, -⟩ | ⟨hu, -⟩⟩ | ⟨-, hMoved⟩, -⟩
        · exact absurd (hOldLt _ _ _ hOld).2 (lt_irrefl _)
        · omega
        · exact absurd hu hxControl
        · exact absurd (hOldLt _ _ _ hMoved).2 (lt_irrefl _)
      · exact fun hIn => absurd (mem_append_right args (mem_singleton_self id)) hIn.2.1
    · have hArgs : y ∉ args ++ [id] ↔ y ∉ args := by simp [hy']
      have hyLt := (hPlaced.live y hy).1.lt
      rw [update_of_ne hy', hArgs]
      by_cases hx' : x = id
      · rw [hx', update_self, ← h.inner c id y hId hy]
        constructor
        · rintro ⟨hOld | ⟨hv, -⟩ | ⟨-, hMoved⟩, -⟩
          · exact absurd (hOldLt _ _ _ hOld).1 (lt_irrefl _)
          · omega
          · exact hMoved
        · exact fun hIn => ⟨Or.inr (Or.inr ⟨rfl, hIn⟩), ne_of_gt hLt, hNe y hy hy'⟩
      · have hxLt := (hPlaced.live x hx).1.lt
        rw [update_of_ne hx', ← h.inner c x y hx hy]
        constructor
        · rintro ⟨hOld | ⟨hv, -⟩ | ⟨hu, -⟩, -⟩
          · exact hOld
          · omega
          · omega
        · exact fun hIn => ⟨Or.inl hIn, hNe x hx hx', hNe y hy hy'⟩
  · intro c u v hJoins
    obtain ⟨hOld | ⟨rfl, hEnter⟩ | ⟨rfl, hMoved⟩, huNe, hvNe⟩ := (hReplaced.joins c u v).mp hJoins
    · rcases h.border c u v hOld with hOut | ⟨x, y, hx, hy, rfl, rfl⟩ | ⟨a, ha, rfl, hu⟩ | hIn
      · exact Or.inl hOut
      · exact Or.inr (Or.inl ⟨x, y, hx, hy, hKeep x huNe, hKeep y hvNe⟩)
      · exact Or.inr (Or.inr (Or.inl ⟨a, mem_append_left _ ha, hKeep a hvNe, hu⟩))
      · exact Or.inr (Or.inr (Or.inr hIn))
    · refine Or.inr (Or.inr (Or.inl ⟨id, mem_append_right _ (mem_singleton_self id), ?_, ?_⟩))
      · exact update_self ..
      · rcases hEnter with ⟨rfl, -⟩ | ⟨hu, -⟩
        · exact Or.inl hInput
        · exact Or.inr hu
    · rcases h.border c _ v hMoved with hOut | ⟨x, y, hx, hy, hxId, rfl⟩ | ⟨a, ha, -, hu⟩ | hIn
      · omega
      · exact Or.inr (Or.inl ⟨id, y, hId, hy, update_self .., hKeep y hvNe⟩)
      · rcases hu with hu | hu
        · omega
        · exact absurd rfl ((hPlaced.control_live _ hu).2.2 id hId)
      · omega
  · intro n hn a ha
    obtain ⟨hnLive, -, hnNe⟩ := hPlaced.control_live n hn
    rw [hReplaced.joins]
    by_cases hEq : a = id
    · rw [hEq, update_self]
      exact ⟨Or.inr (Or.inl ⟨rfl, Or.inr ⟨hn, rfl⟩⟩), (hnNe id hId).symm, ne_of_gt hLt⟩
    · have ha' : a ∈ args := by simpa [hEq] using ha
      have hJoins := h.entered n hn a ha'
      rw [update_of_ne hEq]
      exact ⟨Or.inl hJoins, (hnNe id hId).symm, hNe a (hArgs a ha') hEq⟩
  · intro p hp
    obtain ⟨hpLt, n, hn, hJoins⟩ := h.preceded p hp
    obtain ⟨-, -, hnNe⟩ := hPlaced.control_live n hn
    exact ⟨hpLt, n, hn, (hReplaced.joins _ _ _).mpr ⟨Or.inl hJoins, by omega, (hnNe id hId).symm⟩⟩

theorem Wired.replaceRet (h : Wired fbody g control fbody.argNodes rets before place g')
    (hRet : id ∈ fbody.retNodes) (hArg : id ∉ fbody.argNodes)
    (hArgs : ∀ a ∈ fbody.argNodes, fbody.isOp a) {src : Nat}
    (hData : Joins g' false src (place id))
    (hReplaced : Replaced g' g'' (place id) fun c u v =>
      v = g'.numNodeIds ∧ (u = src ∧ c = false ∨ c ∧ Joins g' true u (place id))) :
    Wired fbody g control fbody.argNodes (rets ++ [id]) before
      (update place id g'.numNodeIds) g'' := by
  obtain ⟨hLive, hGe⟩ := hPlaced.live id hId
  have hLt := hLive.lt
  have hOldLt : ∀ c u v, Joins g' c u v → u < g'.numNodeIds ∧ v < g'.numNodeIds :=
    fun c u v hJoins => hJoins.lt
  have hNe : ∀ x, fbody.isOp x → x ≠ id → place x ≠ place id :=
    fun x hx hx' => hPlaced.update_ne hId hx hx'
  have hKeep : ∀ x, place x ≠ place id → update place id g'.numNodeIds x = place x :=
    fun x hx => update_of_ne (fun hEq => hx (congrArg place hEq)) _ _
  -- What enters the result comes from the body.
  have hFrom : ∀ c u, Joins g' c u (place id) →
      ∃ x, fbody.isOp x ∧ place x = u ∧ Joins fbody.graph c x id ∧ x ∉ rets := by
    intro c u hJoins
    rcases h.border c u _ hJoins with hOut | ⟨x, y, hx, hy, rfl, hPlace⟩ | ⟨a, ha, hPlace, -⟩ | hIn
    · omega
    · obtain rfl := hPlaced.injective y id hy hId hPlace
      obtain ⟨hBody, -, hKept⟩ := (h.inner c x y hx hy).mp hJoins
      exact ⟨x, hx, rfl, hBody, hKept⟩
    · obtain rfl := hPlaced.injective a id (hArgs a ha) hId hPlace
      exact absurd ha hArg
    · exact absurd rfl ((hPlaced.control_live _ hIn.2).2.2 id hId)
  -- The data edge that is taken is the only one.
  have hMore : ∀ c u, u = src ∧ c = false ∨ c ∧ Joins g' true u (place id) ↔
      Joins g' c u (place id) := by
    intro c u
    constructor
    · rintro (⟨rfl, rfl⟩ | ⟨rfl, hJoins⟩)
      · exact hData
      · exact hJoins
    · intro hJoins
      cases c with
      | true => exact Or.inr ⟨rfl, hJoins⟩
      | false =>
        left
        obtain ⟨x, -, hxu, ⟨e, he, rfl, hDst, hControl⟩, -⟩ := hFrom false u hJoins
        obtain ⟨y, -, hysrc, ⟨e', he', rfl, hDst', hControl'⟩, -⟩ := hFrom false src hData
        have hSame := fbody.retNodes_input e he e' he' (hDst ▸ hRet) (hDst.trans hDst'.symm)
          hControl hControl'
        rw [← hxu, ← hysrc, hSame]
        exact ⟨rfl, rfl⟩
  have hJoins' : ∀ c u v, Joins g'' c u v ↔
      (Joins g' c u v ∨ v = g'.numNodeIds ∧ Joins g' c u (place id)) ∧
        u ≠ place id ∧ v ≠ place id := by
    intro c u v
    rw [hReplaced.joins, hMore]
  constructor
  · intro c u v hu hv
    rw [hJoins', ← h.old c u v hu hv]
    constructor
    · rintro ⟨hOld | ⟨hv', -⟩, -⟩
      · exact hOld
      · omega
    · exact fun hOld => ⟨Or.inl hOld, by omega, by omega⟩
  · intro c x y hx hy
    rw [hJoins']
    by_cases hx' : x = id
    · -- Nothing of the body leaves a result.
      rw [hx', update_self]
      constructor
      · rintro ⟨hOld | ⟨-, hMoved⟩, -⟩
        · exact absurd (hOldLt _ _ _ hOld).1 (lt_irrefl _)
        · exact absurd (hOldLt _ _ _ hMoved).1 (lt_irrefl _)
      · exact fun hIn => absurd (mem_append_right rets (mem_singleton_self id)) hIn.2.2
    · have hRets : x ∉ rets ++ [id] ↔ x ∉ rets := by simp [hx']
      rw [update_of_ne hx', hRets]
      by_cases hy' : y = id
      · rw [hy', update_self, ← h.inner c x id hx hId]
        constructor
        · rintro ⟨hOld | ⟨-, hMoved⟩, -⟩
          · exact absurd (hOldLt _ _ _ hOld).2 (lt_irrefl _)
          · exact hMoved
        · exact fun hIn => ⟨Or.inr ⟨rfl, hIn⟩, hNe x hx hx', ne_of_gt hLt⟩
      · have hyLt := (hPlaced.live y hy).1.lt
        rw [update_of_ne hy', ← h.inner c x y hx hy]
        constructor
        · rintro ⟨hOld | ⟨hv, -⟩, -⟩
          · exact hOld
          · omega
        · exact fun hIn => ⟨Or.inl hIn, hNe x hx hx', hNe y hy hy'⟩
  · intro c u v hJoins
    obtain ⟨hOld | ⟨rfl, hMoved⟩, huNe, hvNe⟩ := (hJoins' c u v).mp hJoins
    · rcases h.border c u v hOld with hOut | ⟨x, y, hx, hy, rfl, rfl⟩ | ⟨a, ha, rfl, hu⟩ | hIn
      · exact Or.inl hOut
      · exact Or.inr (Or.inl ⟨x, y, hx, hy, hKeep x huNe, hKeep y hvNe⟩)
      · exact Or.inr (Or.inr (Or.inl ⟨a, ha, hKeep a hvNe, hu⟩))
      · exact Or.inr (Or.inr (Or.inr hIn))
    · obtain ⟨x, hx, rfl, -⟩ := hFrom c u hMoved
      exact Or.inr (Or.inl ⟨x, id, hx, hId, hKeep x huNe, update_self ..⟩)
  · intro n hn a ha
    obtain ⟨-, -, hnNe⟩ := hPlaced.control_live n hn
    have hNotId : a ≠ id := fun hEq => hArg (hEq ▸ ha)
    rw [hJoins', update_of_ne hNotId]
    exact ⟨Or.inl (h.entered n hn a ha), (hnNe id hId).symm, hNe a (hArgs a ha) hNotId⟩
  · intro p hp
    obtain ⟨hpLt, n, hn, hJoins⟩ := h.preceded p hp
    obtain ⟨-, -, hnNe⟩ := hPlaced.control_live n hn
    exact ⟨hpLt, n, hn, (hJoins' _ _ _).mpr ⟨Or.inl hJoins, by omega, (hnNe id hId).symm⟩⟩

end Replace

end Layout

end TensorFlowOnSpark.Construction.Inlining
