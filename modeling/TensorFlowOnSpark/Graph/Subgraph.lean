import TensorFlowOnSpark.Graph.GraphConstructor
import TensorFlowOnSpark.Lib.BreadthFirst
import TensorFlowOnSpark.Lib.Fallible

/-!
# Graphs with feeds and fetches

`RewriteGraphForExecution` of `graph/subgraph.cc`, with `PruneForReverseReachability` of
`graph/algorithm.cc` and what `NodeBuilder` makes of the ops `_Recv` and `_Send` of
`ops/sendrecv_ops.cc`.
-/

namespace TensorFlowOnSpark.Construction.Graph

/-- The edges of one output of a node go to another node; with `placeholder`, its control
edges do so too. -/
structure Redirect where
  node : Nat
  index : Int
  placeholder : Bool
  recv : Nat

namespace Redirect

def takes (m : Redirect) (e : Edge) : Bool :=
  e.src = m.node && (e.srcOutput = m.index || e.srcOutput = kControlSlot && m.placeholder)

def edge (m : Redirect) (e : Edge) : Edge :=
  if e.srcOutput = m.index then ⟨m.recv, 0, e.dst, e.dstInput⟩
  else ⟨m.recv, kControlSlot, e.dst, kControlSlot⟩

def apply (m : Redirect) (e : Edge) : Edge := if m.takes e then m.edge e else e

theorem edge_ends (m : Redirect) (e : Edge) : (m.edge e).src = m.recv ∧ (m.edge e).dst = e.dst := by
  unfold edge
  split <;> exact ⟨rfl, rfl⟩

end Redirect

/-- Adds the new edges and removes those of `to_remove`. -/
def redirect (g : Graph) (m : Redirect) : Graph :=
  if h : g.IsNode m.recv then
    { g with
      edges := g.edges.filter (fun e => !m.takes e) ++ (g.edges.filter m.takes).map m.edge
      ends_live := by
        intro e hMem
        rcases List.mem_append.mp hMem with hMem | hMem
        · exact g.ends_live e (List.mem_filter.mp hMem).1
        · obtain ⟨old, hOld, rfl⟩ := List.mem_map.mp hMem
          rw [(m.edge_ends old).1, (m.edge_ends old).2]
          exact ⟨h, (g.ends_live old (List.mem_filter.mp hOld).1).2⟩ }
  else g

def pruneForReverseReachability (g : Graph) (targets : List Nat) : Graph :=
  let visited := BreadthFirst.search (fun n => (g.inEdges n).map Edge.src) g.numNodeIds
    ⟨targets.dedup, targets.dedup⟩
  (g.nodeIds.filter fun id => id ∉ visited).foldl removeNode g

end TensorFlowOnSpark.Construction.Graph

namespace TensorFlowOnSpark.Construction.Subgraph

open Ops

structure DeviceAttributes where
  name : String
  incarnation : UInt64

inductive Error where
  | noTargets
  | fedTwice (endpoint : String)
  | fedAndFetched (fetch : String)
  | feedNotFound (t : String)
  | feedIndex (t : String) (numOutputs : Nat)
  | fetchNotFound (t : String)
  | noOutput (t : String)
  | fetchIndex (t : String) (numOutputs : Nat)
  | targetsNotFound (names : String)
  | notInRange (index : Int) (name : String) (numOutputs : Nat)
  | emptyInput (name : String) (op : OpDef)
  | controlInput (src name : String) (op : OpDef)
  | node (error : Construction.Error)

namespace Error

def code : Error → Framework.Code
  | .feedNotFound _ | .fetchNotFound _ | .targetsNotFound _ => .notFound
  | .node error => error.code
  | _ => .invalidArgument

def message (p : Printers) : Error → String
  | .noTargets => "Must specify at least one target to fetch or execute."
  | .fedTwice endpoint => s!"Endpoint \"{endpoint}\" fed more than once."
  | .fedAndFetched fetch => s!"{fetch} is both fed and fetched."
  | .feedNotFound t => s!"FeedInputs: unable to find feed output {t}"
  | .feedIndex t numOutputs => s!"FeedInputs: {t} should have output index < {numOutputs}"
  | .fetchNotFound t => s!"FetchOutputs node {t}: not found"
  | .noOutput t =>
    s!"Tried to fetch data for '{t}', which produces no output.  To run to a node but not fetch " ++
      s!"any data, pass '{t}' as an argument to the 'target_node_names' argument of the " ++
      "Session::Run API."
  | .fetchIndex t numOutputs =>
    s!"FetchOutputs {t}: output index too large, must be < {numOutputs}"
  | .targetsNotFound names => s!"PruneForTargets: Some target nodes not found: {names}"
  | .notInRange index name numOutputs =>
    s!"Attempt to add output {index} of {name} not in range [0, {numOutputs}) to node with type " ++
      "_Send"
  | .emptyInput name op =>
    s!"Empty input node name while building NodeDef '{name}' using {p.summarizeOpDef op}"
  | .controlInput src name op =>
    s!"Non-control input starting with ^: {src} while building NodeDef '{name}' using " ++
      p.summarizeOpDef op
  | .node error => error.message p

end Error

def require (condition : Bool) (error : Error) : Except Error Unit :=
  if condition then .ok () else .error error

def plainAttr (name type : String) : AttrDef := ⟨name, type, none, false, 0, none⟩

def transferAttrs : List AttrDef :=
  [plainAttr "tensor_name" "string", plainAttr "send_device" "string",
    plainAttr "send_device_incarnation" "int", plainAttr "recv_device" "string",
    ⟨"client_terminated", "bool", some (.b false), false, 0, none⟩]

def recvOp : OpDef :=
  ⟨"_Recv", [], [⟨"tensor", dtInvalid, "tensor_type", "", "", false⟩],
    plainAttr "tensor_type" "type" :: transferAttrs⟩

def sendOp : OpDef :=
  ⟨"_Send", [⟨"tensor", dtInvalid, "T", "", "", false⟩], [],
    plainAttr "T" "type" :: transferAttrs⟩

section Nodes

variable (stray : List DataType → Int → DataType) (device : DeviceAttributes)

def outputType (node : Node) (i : Int) : DataType :=
  if 0 ≤ i ∧ i < node.outputTypes.length then node.outputTypes.getD i.toNat dtInvalid
  else stray node.outputTypes i

def transferValues (t : String) : List (String × AttrValue) :=
  [("tensor_name", .s (bytesOf t)), ("send_device", .s (bytesOf device.name)),
    ("recv_device", .s (bytesOf device.name)),
    ("send_device_incarnation", .i device.incarnation.toInt64.toInt),
    ("client_terminated", .b true)]

def recvName (id : String × Int) : String := s!"_recv_{id.1}_{id.2}"

def sendName (id : String × Int) : String := s!"_send_{id.1}_{id.2}"

def recvDef (t : String) (dtype : DataType) : Ops.NodeDef :=
  ⟨recvName (parseTensorName t), "_Recv", [], "",
    ⟨("tensor_type", .type dtype) :: transferValues device t, by simp [transferValues]⟩⟩

/-- `src` is the name of the node that is fetched. -/
def sendDef (t src : String) (dtype : DataType) : Ops.NodeDef :=
  let id := parseTensorName t
  ⟨sendName id, "_Send", [if 0 < id.2 then s!"{src}:{id.2}" else src], "",
    ⟨("T", .type dtype) :: transferValues device t, by simp [transferValues]⟩⟩

/-- The checks of `NodeBuilder::Finalize` and `AddNode`. -/
def finalize (opDef : OpDef) (nodeDef : Ops.NodeDef) : Except Error Node := do
  let nodeDef := nodeDef.addDefaults opDef
  (nodeDef.validateNodeDef opDef).mapError fun error => .node (.ops error)
  let types ← (nodeDef.inOutTypesForNode opDef).mapError fun error =>
    .node (.attached error nodeDef)
  .ok ⟨nodeDef, opDef, types.1, types.2, device.name⟩

/-- The `_Recv` node for a feed, from the node that it names. -/
def recvNode (t : String) : Option Node → Except Error Node
  | none => .error (.feedNotFound t)
  | some n => do
    let id := parseTensorName t
    require (id.2 < n.outputTypes.length) (.feedIndex t n.outputTypes.length)
    finalize device recvOp (recvDef device t (baseType (outputType stray n id.2)))

/-- The `_Send` node for a fetch. -/
def sendNode (t : String) : Option Node → Except Error Node
  | none => .error (.fetchNotFound t)
  | some n => do
    let id := parseTensorName t
    require (n.outputTypes.length ≠ 0) (.noOutput t)
    require (id.2 < n.outputTypes.length) (.fetchIndex t n.outputTypes.length)
    require (0 ≤ id.2) (.notInRange id.2 n.nodeDef.name n.outputTypes.length)
    require (n.nodeDef.name ≠ "") (.emptyInput (sendName id) sendOp)
    require (!isControlInput n.nodeDef.name) (.controlInput n.nodeDef.name (sendName id) sendOp)
    finalize device sendOp (sendDef device t n.nodeDef.name (baseType (outputType stray n id.2)))

end Nodes

/-- `name_index` and the graph. -/
structure Rewriting where
  graph : Graph
  nameIndex : String → Option Nat

def indexNode (g : Graph) (index : String → Option Nat) (id : Nat) : String → Option Nat :=
  match g.node id with
  | none => index
  | some node => Function.update index node.nodeDef.name (some id)

def nameIndex (g : Graph) : String → Option Nat := g.nodeIds.foldl (indexNode g) fun _ => none

namespace Rewriting

def find (s : Rewriting) (name : String) : Option Node := (s.nameIndex name).bind s.graph.node

def isPlaceholder (node : Node) : Bool :=
  node.nodeDef.op = "Placeholder" ∨ node.nodeDef.op = "PlaceholderV2"

def redirectOf (s : Rewriting) (t : String) : Graph.Redirect :=
  let id := parseTensorName t
  ⟨(s.nameIndex id.1).getD 0, id.2, (s.find id.1).any isPlaceholder, s.graph.numNodeIds⟩

/-- Puts the `_Recv` node in the place of the output. -/
def feed (s : Rewriting) (t : String) (recv : Node) : Rewriting :=
  let r := s.graph.numNodeIds
  { graph := ((s.graph.allocateNode recv).addControlEdge kSourceId r).redirect (s.redirectOf t)
    nameIndex := Function.update s.nameIndex recv.nodeDef.name (some r) }

def fetch (s : Rewriting) (t : String) (send : Node) : Rewriting :=
  let id := parseTensorName t
  let r := s.graph.numNodeIds
  { graph := ((s.graph.allocateNode send).addEdge
      ⟨(s.nameIndex id.1).getD 0, id.2, r, 0⟩).addControlEdge r kSinkId
    nameIndex := Function.update s.nameIndex send.nodeDef.name (some r) }

def addNodeToTargets (s : Rewriting) (name : String) : Option Nat :=
  match s.find (parseTensorName name).1 with
  | none => none
  | some node => if node.nodeDef.name = name then s.nameIndex (parseTensorName name).1 else none

end Rewriting

section Rewrite

variable (stray : List DataType → Int → DataType) (device : DeviceAttributes)

def feedInputs : List String → Rewriting → Except Error Rewriting
  | [], s => .ok s
  | t :: rest, s => do
    let recv ← recvNode stray device t (s.find (parseTensorName t).1)
    feedInputs rest (s.feed t recv)

/-- `FetchOutputs`, which also gives the names of the new nodes. -/
def fetchOutputs : List String → Rewriting → List String → Except Error (Rewriting × List String)
  | [], s, fetchNodes => .ok (s, fetchNodes)
  | t :: rest, s, fetchNodes => do
    let send ← sendNode stray device t (s.find (parseTensorName t).1)
    fetchOutputs rest (s.fetch t send) (fetchNodes ++ [send.nodeDef.name])

def pruneForTargets (s : Rewriting) (names : List String) : Except Error Graph := do
  let missing := names.filter fun name => (s.addNodeToTargets name).isNone
  require missing.isEmpty (.targetsNotFound (String.join (missing.map fun name => name ++ " ")))
  let targets := names.filterMap s.addNodeToTargets
  .ok (s.graph.pruneForReverseReachability targets).fixupSourceAndSinkEdges

/-- Fills `endpoints`. -/
def checkFeeds : List String → List String → Except Error Unit
  | [], _ => .ok ()
  | endpoint :: rest, endpoints => do
    require (endpoint ∉ endpoints) (.fedTwice endpoint)
    checkFeeds rest (endpoint :: endpoints)

def checkFetches (endpoints : List String) : List String → Except Error Unit
  | [] => .ok ()
  | fetch :: rest => do
    require (fetch ∉ endpoints) (.fedAndFetched fetch)
    checkFetches endpoints rest

def rewriteGraphForExecution (g : Graph) (feeds fetches targets : List String) :
    Except Error Graph := do
  require (!(fetches.isEmpty && targets.isEmpty)) .noTargets
  checkFeeds feeds []
  checkFetches feeds fetches
  let s ← feedInputs stray device feeds ⟨g, nameIndex g⟩
  let (s, fetchNodes) ← fetchOutputs stray device fetches s []
  if fetchNodes.isEmpty && targets.isEmpty then .ok s.graph
  else pruneForTargets s (fetchNodes ++ targets)

end Rewrite

end TensorFlowOnSpark.Construction.Subgraph
