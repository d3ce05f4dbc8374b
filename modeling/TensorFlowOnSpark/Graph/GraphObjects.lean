import TensorFlowOnSpark.Framework.OpDef
import TensorFlowOnSpark.Graph.EdgeSet
import TensorFlowOnSpark.Lib.Fallible

/-!
# The objects of a graph

`Graph` of `graph/graph.cc` as it lies in memory: `Node` and `Edge` objects at addresses,
the tables that ids index, the set of the edges, and the free lists from which removed
objects come back.
-/

namespace TensorFlowOnSpark.GraphObjects

abbrev NodeAddress := Nat

def kControlSlot : Int := -1

def kSourceId : Int := 0

def kSinkId : Int := 1

/-- `Node::Properties` -/
structure Properties where
  opDef : Ops.OpDef
  nodeDef : Ops.NodeDef
  inputTypes : List Ops.DataType
  outputTypes : List Ops.DataType

inductive NodeClass where
  | uninitialized
  | switch
  | merge
  | enter
  | exit
  | nextIteration
  | loopCond
  | controlTrigger
  | send
  | hostSend
  | recv
  | hostRecv
  | constant
  | variable
  | identity
  | getSessionHandle
  | getSessionTensor
  | deleteSessionTensor
  | other
deriving DecidableEq, Repr

structure NodeObject where
  id : Int
  costId : Int
  nodeClass : NodeClass
  inEdges : EdgeSet
  outEdges : EdgeSet
  props : Option Properties
  assignedDeviceName : String

structure EdgeObject where
  src : Option NodeAddress
  dst : Option NodeAddress
  id : Int
  srcOutput : Int
  dstInput : Int
deriving DecidableEq, Repr

inductive Fault where
  | checkFailed
  | badPointer
  | badIndex
  | loopBound
deriving DecidableEq, Repr

/-- `nodeAt` and `edgeAt` hold the objects that the arena has given out. -/
structure State where
  nodeAt : NodeAddress → Option NodeObject
  edgeAt : EdgeAddress → Option EdgeObject
  nodes : List (Option NodeAddress)
  numNodes : Int
  edges : List (Option EdgeAddress)
  edgeSet : EdgeSet
  freeNodes : List NodeAddress
  freeEdges : List EdgeAddress

def check (b : Prop) [Decidable b] : Except Fault Unit := if b then .ok () else .error .checkFailed

namespace NodeObject

def new : NodeObject := ⟨-1, -1, .uninitialized, .new, .new, none, ""⟩

def isSource (o : NodeObject) : Prop := o.id = kSourceId

def isSink (o : NodeObject) : Prop := o.id = kSinkId

instance (o : NodeObject) : Decidable o.isSource := inferInstanceAs (Decidable (_ = _))

instance (o : NodeObject) : Decidable o.isSink := inferInstanceAs (Decidable (_ = _))

end NodeObject

/-- The uses of `SET_CLASS`. -/
def classNames : List (NodeClass × String × String) :=
  [(.switch, "Switch", "RefSwitch"),
   (.merge, "Merge", "RefMerge"),
   (.enter, "Enter", "RefEnter"),
   (.exit, "Exit", "RefExit"),
   (.nextIteration, "NextIteration", "RefNextIteration"),
   (.loopCond, "LoopCond", ""),
   (.controlTrigger, "ControlTrigger", ""),
   (.send, "_Send", ""),
   (.hostSend, "_HostSend", ""),
   (.recv, "_Recv", ""),
   (.hostRecv, "_HostRecv", ""),
   (.constant, "Const", "HostConst"),
   (.variable, "Variable", ""),
   (.identity, "Identity", "RefIdentity"),
   (.getSessionHandle, "GetSessionHandle", ""),
   (.getSessionTensor, "GetSessionTensor", ""),
   (.deleteSessionTensor, "DeleteSessionTensor", "")]

def setClasses (ts : String) :
    List (NodeClass × String × String) → NodeClass → Except Fault NodeClass
  | [], nodeClass => .ok (if nodeClass = .uninitialized then .other else nodeClass)
  | (value, str1, str2) :: rest, nodeClass =>
    if ts = str1 ∨ ts = str2 then do
      check (nodeClass = .uninitialized)
      setClasses ts rest value
    else setClasses ts rest nodeClass

namespace NodeObject

def initializeNode (o : NodeObject) (id costId : Int) (props : Properties) :
    Except Fault NodeObject := do
  check (o.id = -1)
  check (o.inEdges.empty)
  check (o.outEdges.empty)
  let nodeClass ← setClasses props.nodeDef.op classNames .uninitialized
  .ok { o with id := id, costId := costId, props := some props, nodeClass := nodeClass }

def clear (o : NodeObject) : NodeObject :=
  { o with
    inEdges := .new, outEdges := .new, id := -1, costId := -1, nodeClass := .uninitialized,
    props := none, assignedDeviceName := "" }

end NodeObject

namespace State

def empty : State := ⟨fun _ => none, fun _ => none, [], 0, [], .new, [], []⟩

def node (s : State) (n : NodeAddress) : Except Fault NodeObject :=
  match s.nodeAt n with
  | some o => .ok o
  | none => .error .badPointer

def edge (s : State) (e : EdgeAddress) : Except Fault EdgeObject :=
  match s.edgeAt e with
  | some o => .ok o
  | none => .error .badPointer

def putNode (s : State) (n : NodeAddress) (o : NodeObject) : State :=
  { s with nodeAt := Function.update s.nodeAt n (some o) }

def putEdge (s : State) (e : EdgeAddress) (o : EdgeObject) : State :=
  { s with edgeAt := Function.update s.edgeAt e (some o) }

def edgeWithId (s : State) (id : Int) : Except Fault (Option EdgeAddress) :=
  if id < 0 then .error .badIndex
  else
    match s.edges[id.toNat]? with
    | some entry => .ok entry
    | none => .error .badIndex

/-- `num_nodes()`; the return type is `int`. -/
def numLiveNodes (s : State) : Int := Ops.NodeDef.toInt32 s.numNodes

def isValidNode (s : State) (node : Option NodeAddress) : Prop :=
  match node.bind fun n => (s.nodeAt n).map (n, ·) with
  | some (n, o) => 0 ≤ o.id ∧ s.nodes[o.id.toNat]? = some (some n)
  | none => False

instance (s : State) (node : Option NodeAddress) : Decidable (s.isValidNode node) := by
  unfold isValidNode
  split <;> infer_instance

/-- The object for a new node: from the free list, or from the arena, which gives out `fresh`. -/
def takeNode (s : State) (fresh : NodeAddress) :
    Except Fault (NodeAddress × NodeObject × State) :=
  match s.freeNodes with
  | [] => .ok (fresh, .new, s)
  | n :: rest => do
    let o ← s.node n
    .ok (n, o, { s with freeNodes := rest })

/-- `AllocateNode`; `costId` is that of `cost_node`. -/
def allocateNode (s : State) (props : Properties) (costId : Option Int) (fresh : NodeAddress) :
    Except Fault (NodeAddress × State) := do
  let (n, o, s) ← s.takeNode fresh
  let id := Ops.NodeDef.toInt32 s.nodes.length
  let o ← o.initializeNode id (costId.getD id) props
  .ok (n, { s.putNode n o with nodes := s.nodes ++ [some n], numNodes := s.numNodes + 1 })

def releaseNode (s : State) (n : NodeAddress) : Except Fault State := do
  check (s.isValidNode (some n))
  let o ← s.node n
  .ok { s.putNode n o.clear with
    nodes := s.nodes.set o.id.toNat none
    freeNodes := n :: s.freeNodes
    numNodes := s.numNodes - 1 }

end State

/-- The status with which `AddNode` returns `nullptr`. -/
inductive AddNodeError where
  | earlier (code : Framework.Code) (message : String)
  | notRegistered (op : String)
  | attached (error : Ops.Error) (nodeDef : Ops.NodeDef)

/-- The status of `AddNode`, and what it finds for a node when the status stays OK. -/
def nodeProperties (lookUpOpDef : String → Option Ops.OpDef) (nodeDef : Ops.NodeDef)
    (status : Option (Framework.Code × String)) : Except AddNodeError Properties :=
  match status with
  | some (code, message) => .error (.earlier code message)
  | none =>
    match lookUpOpDef nodeDef.op with
    | none => .error (.notRegistered nodeDef.op)
    | some opDef =>
      match nodeDef.inOutTypesForNode opDef with
      | .error error => .error (.attached error nodeDef)
      | .ok (inputs, outputs) => .ok ⟨opDef, nodeDef, inputs, outputs⟩

/-- The argument of `CopyNode`: a node of the graph, or one of another graph. -/
inductive CopySource where
  | own (n : NodeAddress)
  | foreign (node : NodeObject)

namespace State

def addNode (s : State) (lookUpOpDef : String → Option Ops.OpDef) (nodeDef : Ops.NodeDef)
    (status : Option (Framework.Code × String)) (fresh : NodeAddress) :
    Except Fault (Except AddNodeError NodeAddress × State) :=
  match nodeProperties lookUpOpDef nodeDef status with
  | .error error => .ok (.error error, s)
  | .ok props => do
    let (n, s) ← s.allocateNode props none fresh
    .ok (.ok n, s)

def copied (s : State) : CopySource → Except Fault NodeObject
  | .own n => s.node n
  | .foreign node => .ok node

def copyNode (s : State) (source : CopySource) (fresh : NodeAddress) :
    Except Fault (NodeAddress × State) := do
  let node ← s.copied source
  check (¬node.isSource)
  check (¬node.isSink)
  match node.props with
  | none => .error .badPointer
  | some props => do
    let (n, s) ← s.allocateNode props (some node.costId) fresh
    let copy ← s.node n
    .ok (n, s.putNode n { copy with assignedDeviceName := node.assignedDeviceName })

def insertOut (s : State) (n : NodeAddress) (e : EdgeAddress) : Except Fault State := do
  let o ← s.node n
  check ((o.outEdges.insert e).2)
  .ok (s.putNode n { o with outEdges := (o.outEdges.insert e).1 })

def insertIn (s : State) (n : NodeAddress) (e : EdgeAddress) : Except Fault State := do
  let o ← s.node n
  check ((o.inEdges.insert e).2)
  .ok (s.putNode n { o with inEdges := (o.inEdges.insert e).1 })

def eraseOut (s : State) (n : NodeAddress) (e : EdgeAddress) : Except Fault State := do
  let o ← s.node n
  check ((o.outEdges.erase e).2 = 1)
  .ok (s.putNode n { o with outEdges := (o.outEdges.erase e).1 })

def eraseIn (s : State) (n : NodeAddress) (e : EdgeAddress) : Except Fault State := do
  let o ← s.node n
  check ((o.inEdges.erase e).2 = 1)
  .ok (s.putNode n { o with inEdges := (o.inEdges.erase e).1 })

def SlotsAgree (s : State) (source : NodeAddress) (x : Int) (dest : NodeAddress) (y : Int) : Prop :=
  s.nodes[0]? = some (some source) ∨ s.nodes[1]? = some (some dest) ∨ x = kControlSlot ∨
    y = kControlSlot → x = kControlSlot ∧ y = kControlSlot

instance (s : State) (source : NodeAddress) (x : Int) (dest : NodeAddress) (y : Int) :
    Decidable (s.SlotsAgree source x dest y) :=
  inferInstanceAs (Decidable (_ → _))

def takeEdge (s : State) (fresh : EdgeAddress) : EdgeAddress × State :=
  match s.freeEdges with
  | [] => (fresh, s)
  | e :: rest => (e, { s with freeEdges := rest })

def addEdge (s : State) (source : NodeAddress) (x : Int) (dest : NodeAddress) (y : Int)
    (fresh : EdgeAddress) : Except Fault (EdgeAddress × State) := do
  check (s.isValidNode (some source))
  check (s.isValidNode (some dest))
  check (s.SlotsAgree source x dest y)
  let (e, s) := s.takeEdge fresh
  let s := s.putEdge e ⟨some source, some dest, Ops.NodeDef.toInt32 s.edges.length, x, y⟩
  let s ← s.insertOut source e
  let s ← s.insertIn dest e
  .ok (e, { s with edges := s.edges ++ [some e], edgeSet := (s.edgeSet.insert e).1 })

def addControlEdge (s : State) (source dest : NodeAddress) (fresh : EdgeAddress) :
    Except Fault (EdgeAddress × State) :=
  s.addEdge source kControlSlot dest kControlSlot fresh

/-- What stays in an `Edge` that is in the free list. -/
def freedEdge : EdgeObject := ⟨none, none, -1, kControlSlot - 1, kControlSlot - 1⟩

/-- The part of `RemoveEdge` behind its `DCHECK`s. -/
def unlink (s : State) (e : EdgeAddress) (id : Int) (src dst : NodeAddress) :
    Except Fault State := do
  let s ← s.eraseOut src e
  let s ← s.eraseIn dst e
  let entry ← s.edgeWithId id
  check (entry = some e)
  check ((s.edgeSet.erase e).2 = 1)
  .ok { s.putEdge e freedEdge with
    edgeSet := (s.edgeSet.erase e).1
    edges := s.edges.set id.toNat none
    freeEdges := e :: s.freeEdges }

def removeEdge (s : State) (e : EdgeAddress) : Except Fault State := do
  let o ← s.edge e
  check (s.isValidNode o.src)
  check (s.isValidNode o.dst)
  match o.src, o.dst with
  | some src, some dst => s.unlink e o.id src dst
  | _, _ => .error .badPointer

/-- One of the loops of `RemoveNode`, over the edges that `edges` picks. -/
def removeEdges (edges : NodeObject → EdgeSet) (n : NodeAddress) : Nat → State → Except Fault State
  | 0, s => do
    let o ← s.node n
    if (edges o).empty then .ok s else .error .loopBound
  | turns + 1, s => do
    let o ← s.node n
    if (edges o).empty then .ok s
    else
      match (edges o).front with
      | none => .error .badPointer
      | some e => do
        let s ← s.removeEdge e
        removeEdges edges n turns s

def removeNode (s : State) (n : NodeAddress) : Except Fault State := do
  check (s.isValidNode (some n))
  let o ← s.node n
  check (¬o.isSource)
  check (¬o.isSink)
  let s ← removeEdges NodeObject.inEdges n o.inEdges.size s
  let o ← s.node n
  let s ← removeEdges NodeObject.outEdges n o.outEdges.size s
  s.releaseNode n

end State

def noOpDef (name : String) : Ops.NodeDef := ⟨name, "NoOp", [], "", ⟨[], List.nodup_nil⟩⟩

namespace State

/-- The constructor, with the addresses that the arena gives out. -/
def construct (lookUpOpDef : String → Option Ops.OpDef) (source sink : NodeAddress)
    (edge : EdgeAddress) : Except Fault State := do
  let (result, s) ← empty.addNode lookUpOpDef (noOpDef "_SOURCE") none source
  match result with
  | .error _ => .error .checkFailed
  | .ok source => do
    let o ← s.node source
    check (o.id = kSourceId)
    let (result, s) ← s.addNode lookUpOpDef (noOpDef "_SINK") none sink
    match result with
    | .error _ => .error .checkFailed
    | .ok sink => do
      let o ← s.node sink
      check (o.id = kSinkId)
      let (_, s) ← s.addControlEdge source sink edge
      .ok s

end State

inductive Call where
  | addNode (nodeDef : Ops.NodeDef) (status : Option (Framework.Code × String))
    (fresh : NodeAddress)
  | copyNode (source : CopySource) (fresh : NodeAddress)
  | removeNode (n : NodeAddress)
  | addEdge (source : NodeAddress) (x : Int) (dest : NodeAddress) (y : Int) (fresh : EdgeAddress)
  | addControlEdge (source dest : NodeAddress) (fresh : EdgeAddress)
  | removeEdge (e : EdgeAddress)

def State.call (lookUpOpDef : String → Option Ops.OpDef) (s : State) : Call → Except Fault State
  | .addNode nodeDef status fresh => (·.2) <$> s.addNode lookUpOpDef nodeDef status fresh
  | .copyNode source fresh => (·.2) <$> s.copyNode source fresh
  | .removeNode n => s.removeNode n
  | .addEdge source x dest y fresh => (·.2) <$> s.addEdge source x dest y fresh
  | .addControlEdge source dest fresh => (·.2) <$> s.addControlEdge source dest fresh
  | .removeEdge e => s.removeEdge e

open List Option

def idLimit : Nat := 2 ^ 31

/-- The edge `e` is in the graph and leads from `a` to `b`. -/
def State.Joins (s : State) (e : EdgeAddress) (a b : NodeAddress) : Prop :=
  ∃ o, some e ∈ s.edges ∧ s.edgeAt e = some o ∧ o.src = some a ∧ o.dst = some b

/-- A node that `AllocateNode` has made and that is not removed. -/
structure NodeObject.InUse (o : NodeObject) (id : Nat) : Prop where
  id_eq : o.id = id
  inEdges : o.inEdges.Proper
  outEdges : o.outEdges.Proper
  props : ∃ p, o.props = some p ∧ p.nodeDef.op ≠ ""

structure NodeObject.Unused (o : NodeObject) : Prop where
  id_eq : o.id = -1
  inEdges : o.inEdges = .new
  outEdges : o.outEdges = .new

structure EdgeObject.InUse (s : State) (o : EdgeObject) (id : Nat) : Prop where
  id_eq : o.id = id
  src : ∃ a, o.src = some a ∧ some a ∈ s.nodes
  dst : ∃ b, o.dst = some b ∧ some b ∈ s.nodes

structure Sound (s : State) : Prop where
  node : ∀ i n, s.nodes[i]? = some (some n) → ∃ o, s.nodeAt n = some o ∧ o.InUse i
  edge : ∀ j e, s.edges[j]? = some (some e) → ∃ o, s.edgeAt e = some o ∧ o.InUse s j
  mem_out : ∀ n o e, some n ∈ s.nodes → s.nodeAt n = some o →
    (e ∈ o.outEdges.elements ↔ ∃ b, s.Joins e n b)
  mem_in : ∀ n o e, some n ∈ s.nodes → s.nodeAt n = some o →
    (e ∈ o.inEdges.elements ↔ ∃ a, s.Joins e a n)
  edgeSet : s.edgeSet.Proper
  mem_edgeSet : ∀ e, e ∈ s.edgeSet.elements ↔ some e ∈ s.edges
  freeNode : ∀ n ∈ s.freeNodes, ∃ o, s.nodeAt n = some o ∧ o.Unused
  freeNodes_nodup : s.freeNodes.Nodup
  freeEdge : ∀ e ∈ s.freeEdges, s.edgeAt e = some State.freedEdge
  freeEdges_nodup : s.freeEdges.Nodup
  nodeKnown : ∀ n o, s.nodeAt n = some o → some n ∈ s.nodes ∨ n ∈ s.freeNodes
  edgeKnown : ∀ e o, s.edgeAt e = some o → some e ∈ s.edges ∨ e ∈ s.freeEdges
  numNodes : s.numNodes = s.nodes.countP isSome
  nodes_lt : s.nodes.length < idLimit

variable {n : Nat}

theorem toInt32_length (h : n < idLimit) : Ops.NodeDef.toInt32 n = n := by
  unfold idLimit at h
  exact Int.bmod_eq_of_le (by omega) (by omega)

theorem check_ok {b : Prop} [Decidable b] (h : b) : check b = .ok () := if_pos h

variable {o : NodeObject}

theorem State.node_eq {s : State} {n : NodeAddress} (hAt : s.nodeAt n = some o) :
    s.node n = .ok o := by
  rw [State.node, hAt]

theorem State.edge_eq {s : State} {e : EdgeAddress} {o : EdgeObject} (hAt : s.edgeAt e = some o) :
    s.edge e = .ok o := by
  rw [State.edge, hAt]

section Table

variable {α : Type} {xs : List (Option α)} {i j : Nat} {x y : α}

theorem getElem?_append_some :
    (xs ++ [some y])[i]? = some (some x) ↔
      xs[i]? = some (some x) ∨ i = xs.length ∧ y = x := by
  rw [getElem?_append]
  split
  · have hNe : i ≠ xs.length := by omega
    simp [hNe]
  · rename_i hLt
    have hNone : xs[i]? = none := getElem?_eq_none (by omega)
    rw [hNone]
    by_cases hEq : i = xs.length
    · simp [hEq]
    · have hNone' : [some y][i - xs.length]? = none := getElem?_eq_none (by simp; omega)
      simp [hNone', hEq]

theorem getElem?_set_none :
    (xs.set j none)[i]? = some (some x) ↔ i ≠ j ∧ xs[i]? = some (some x) := by
  rw [getElem?_set]
  split
  · subst i
    split <;> simp
  · rename_i hNe
    simp [Ne.symm hNe]

theorem mem_set_none (hUnique : ∀ i, xs[i]? = some (some x) → i = j)
    (hAt : xs[j]? = some (some x)) :
    some y ∈ xs.set j none ↔ y ≠ x ∧ some y ∈ xs := by
  simp only [mem_iff_getElem?]
  constructor
  · rintro ⟨i, hi⟩
    rw [getElem?_set_none] at hi
    refine ⟨?_, i, hi.2⟩
    rintro rfl
    exact hi.1 (hUnique i hi.2)
  · rintro ⟨hNe, i, hi⟩
    refine ⟨i, getElem?_set_none.mpr ⟨?_, hi⟩⟩
    rintro rfl
    rw [hAt] at hi
    exact hNe (some.inj (some.inj hi)).symm

theorem countP_set_none (hAt : xs[j]? = some (some x)) :
    (xs.set j none).countP isSome + 1 = xs.countP isSome := by
  induction xs generalizing j with
  | nil => simp at hAt
  | cons head rest ih =>
    cases j with
    | zero =>
      rw [getElem?_cons_zero, some.injEq] at hAt
      subst hAt
      simp
    | succ j =>
      have hRest := ih hAt
      rw [set_cons_succ, countP_cons, countP_cons]
      omega

end Table

/-- `n` is the address that the next object gets, and `rest` stays in the free list. -/
structure Supplies (table : List (Option Nat)) (free : List Nat) (n : Nat) (rest : List Nat) :
    Prop where
  notLive : some n ∉ table
  notFree : n ∉ rest
  nodup : rest.Nodup
  of_mem : ∀ m ∈ rest, m ∈ free
  mem_or_eq : ∀ m ∈ free, m ∈ rest ∨ m = n

variable {table : List (Option Nat)}

theorem Supplies.of_arena (h : some n ∉ table) :
    Supplies table [] n [] where
  notLive := h
  notFree := not_mem_nil
  nodup := nodup_nil
  of_mem := fun _ hMem => hMem
  mem_or_eq := fun _ hMem => .inl hMem

theorem Supplies.of_back {rest : List Nat} (hNodup : (n :: rest).Nodup)
    (h : some n ∉ table) : Supplies table (n :: rest) n rest where
  notLive := h
  notFree := (nodup_cons.mp hNodup).1
  nodup := (nodup_cons.mp hNodup).2
  of_mem := fun _ => mem_cons_of_mem n
  mem_or_eq := fun _ hMem => (mem_cons.mp hMem).symm

theorem classNames_apart : classNames.Pairwise fun row row' =>
    ∀ x ∈ [row.2.1, row.2.2], x ∈ [row'.2.1, row'.2.2] → x = "" := by
  decide

variable {rows : List (NodeClass × String × String)}

theorem setClasses_named {ts : String} (nodeClass : NodeClass)
    (h : ∀ row ∈ rows, ts ∉ [row.2.1, row.2.2]) : ∃ c, setClasses ts rows nodeClass = .ok c := by
  induction rows with
  | nil => exact ⟨_, rfl⟩
  | cons row rows ih =>
    have hRow := h row mem_cons_self
    simp only [mem_cons, not_mem_nil, or_false] at hRow
    obtain ⟨c, hRest⟩ := ih fun row' hMem => h row' (mem_cons_of_mem _ hMem)
    exact ⟨c, (if_neg hRow).trans hRest⟩

theorem setClasses_ok {ts : String} (hNonempty : ts ≠ "") (h : rows.Pairwise fun row row' =>
      ∀ x ∈ [row.2.1, row.2.2], x ∈ [row'.2.1, row'.2.2] → x = "") :
    ∃ c, setClasses ts rows .uninitialized = .ok c := by
  induction rows with
  | nil => exact ⟨_, rfl⟩
  | cons row rows ih =>
    rw [pairwise_cons] at h
    by_cases hRow : ts = row.2.1 ∨ ts = row.2.2
    · have hMem : ts ∈ [row.2.1, row.2.2] := by simpa using hRow
      obtain ⟨c, hRest⟩ := setClasses_named row.1
        fun row' hMem' hTwice => hNonempty (h.1 row' hMem' ts hMem hTwice)
      exact ⟨c, (if_pos hRow).trans hRest⟩
    · obtain ⟨c, hRest⟩ := ih h.2
      exact ⟨c, (if_neg hRow).trans hRest⟩

theorem initializeNode_ok (hUnused : o.Unused) {props : Properties} (hOp : props.nodeDef.op ≠ "")
    (id : Nat) (costId : Int) :
    ∃ o', o.initializeNode id costId props = .ok o' ∧ o'.InUse id ∧ o'.inEdges = .new ∧
      o'.outEdges = .new := by
  obtain ⟨c, hClass⟩ := setClasses_ok hOp classNames_apart
  have hIn : o.inEdges.empty := by rw [hUnused.inEdges]; rfl
  have hOut : o.outEdges.empty := by rw [hUnused.outEdges]; rfl
  refine ⟨{ o with id := id, costId := costId, props := some props, nodeClass := c }, ?_,
    ⟨rfl, ?_, ?_, props, rfl, hOp⟩, hUnused.inEdges, hUnused.outEdges⟩
  · rw [NodeObject.initializeNode, check_ok hUnused.id_eq, check_ok hIn, check_ok hOut, hClass]
    rfl
  · exact hUnused.inEdges ▸ .none
  · exact hUnused.outEdges ▸ .none

namespace State

/-- What `AllocateNode` leaves; the node `n` came from the arena or the free list. -/
def adopt (s : State) (n : NodeAddress) (o : NodeObject) (free : List NodeAddress) : State :=
  { s.putNode n o with
    nodes := s.nodes ++ [some n], numNodes := s.numNodes + 1, freeNodes := free }

end State

namespace Sound

variable {s : State}
variable {n : NodeAddress} {e : EdgeAddress}

variable (h : Sound s)
include h

theorem node_of_mem (hMem : some n ∈ s.nodes) :
    ∃ i o, s.nodes[i]? = some (some n) ∧ s.nodeAt n = some o ∧ o.InUse i := by
  obtain ⟨i, hi⟩ := mem_iff_getElem?.mp hMem
  obtain ⟨o, hAt, hUse⟩ := h.node i n hi
  exact ⟨i, o, hi, hAt, hUse⟩

theorem edge_of_mem (hMem : some e ∈ s.edges) :
    ∃ j o, s.edges[j]? = some (some e) ∧ s.edgeAt e = some o ∧ o.InUse s j := by
  obtain ⟨j, hj⟩ := mem_iff_getElem?.mp hMem
  obtain ⟨o, hAt, hUse⟩ := h.edge j e hj
  exact ⟨j, o, hj, hAt, hUse⟩

theorem not_free_of_live (hMem : some n ∈ s.nodes) : n ∉ s.freeNodes := by
  intro hFree
  obtain ⟨i, o, _, hAt, hUse⟩ := h.node_of_mem hMem
  obtain ⟨o', hAt', hUnused⟩ := h.freeNode n hFree
  have hId := hUse.id_eq
  rw [some.inj (hAt.symm.trans hAt'), hUnused.id_eq] at hId
  omega

theorem not_free_of_joined (hMem : some e ∈ s.edges) : e ∉ s.freeEdges := by
  intro hFree
  obtain ⟨j, o, _, hAt, hUse⟩ := h.edge_of_mem hMem
  obtain ⟨a, hSrc, _⟩ := hUse.src
  rw [some.inj (hAt.symm.trans (h.freeEdge e hFree))] at hSrc
  cases hSrc

theorem joins_live {a b : NodeAddress} (hJoins : s.Joins e a b) :
    some a ∈ s.nodes ∧ some b ∈ s.nodes := by
  obtain ⟨o, hMem, hAt, hSrc, hDst⟩ := hJoins
  obtain ⟨j, o', _, hAt', hUse⟩ := h.edge_of_mem hMem
  cases some.inj (hAt.symm.trans hAt')
  obtain ⟨a', hSrc', hLive⟩ := hUse.src
  obtain ⟨b', hDst', hLive'⟩ := hUse.dst
  cases some.inj (hSrc.symm.trans hSrc')
  cases some.inj (hDst.symm.trans hDst')
  exact ⟨hLive, hLive'⟩

theorem node_unique {i j : Nat} (hi : s.nodes[i]? = some (some n))
    (hj : s.nodes[j]? = some (some n)) : i = j := by
  obtain ⟨o, hAt, hUse⟩ := h.node i n hi
  obtain ⟨o', hAt', hUse'⟩ := h.node j n hj
  cases some.inj (hAt.symm.trans hAt')
  exact Int.ofNat.inj (hUse.id_eq.symm.trans hUse'.id_eq)

theorem edge_unique {i j : Nat} (hi : s.edges[i]? = some (some e))
    (hj : s.edges[j]? = some (some e)) : i = j := by
  obtain ⟨o, hAt, hUse⟩ := h.edge i e hi
  obtain ⟨o', hAt', hUse'⟩ := h.edge j e hj
  cases some.inj (hAt.symm.trans hAt')
  exact Int.ofNat.inj (hUse.id_eq.symm.trans hUse'.id_eq)

theorem isValidNode_iff : s.isValidNode (some n) ↔ some n ∈ s.nodes := by
  constructor
  · intro hValid
    unfold State.isValidNode at hValid
    cases hAt : s.nodeAt n with
    | none => simp [hAt] at hValid
    | some o =>
      simp only [hAt, bind_some] at hValid
      exact mem_of_getElem? hValid.2
  · intro hMem
    obtain ⟨i, o, hi, hAt, hUse⟩ := h.node_of_mem hMem
    simp [State.isValidNode, hAt, hUse.id_eq, hi]

theorem isValidNode_elim {node : Option NodeAddress} (hValid : s.isValidNode node) :
    ∃ n, node = some n ∧ some n ∈ s.nodes := by
  cases node with
  | none => exact hValid.elim
  | some n => exact ⟨n, rfl, h.isValidNode_iff.mp hValid⟩

variable {fresh : NodeAddress}

theorem takeNode (hFresh : s.nodeAt fresh = none) :
    ∃ n o free, s.takeNode fresh = .ok (n, o, { s with freeNodes := free }) ∧
      Supplies s.nodes s.freeNodes n free ∧ (s.freeNodes = [] → n = fresh ∧ free = []) ∧
      o.Unused := by
  cases hFree : s.freeNodes with
  | nil =>
    refine ⟨fresh, .new, [], ?_, .of_arena ?_, fun _ => ⟨rfl, rfl⟩, ⟨rfl, rfl, rfl⟩⟩
    · simp only [State.takeNode, hFree]
      rw [← hFree]
    · intro hMem
      obtain ⟨i, o, _, hAt, _⟩ := h.node_of_mem hMem
      rw [hFresh] at hAt
      cases hAt
  | cons n free =>
    have hHead : n ∈ s.freeNodes := hFree ▸ mem_cons_self
    obtain ⟨o, hAt, hUnused⟩ := h.freeNode n hHead
    refine ⟨n, o, free, ?_, .of_back (hFree ▸ h.freeNodes_nodup) ?_, fun hNil => (by cases hNil),
      hUnused⟩
    · simp only [State.takeNode, hFree, State.node_eq hAt, Fallible.ok_bind]
    · exact fun hMem => h.not_free_of_live hMem hHead

theorem adopt {free : List NodeAddress} (hSupplies : Supplies s.nodes s.freeNodes n free)
    (hUse : o.InUse s.nodes.length) (hIn : o.inEdges = .new) (hOut : o.outEdges = .new)
    (hRoom : s.nodes.length + 1 < idLimit) : Sound (s.adopt n o free) := by
  have hOther {m : NodeAddress} (hMem : some m ∈ s.nodes) : m ≠ n := by
    rintro rfl
    exact hSupplies.notLive hMem
  have hNodeAt {m : NodeAddress} (hNe : m ≠ n) : (s.adopt n o free).nodeAt m = s.nodeAt m :=
    Function.update_of_ne hNe _ _
  have hNew : (s.adopt n o free).nodeAt n = some o := Function.update_self ..
  have hLive {m : NodeAddress} : some m ∈ (s.adopt n o free).nodes ↔ some m ∈ s.nodes ∨ m = n := by
    simp [State.adopt]
  constructor
  · intro i m hi
    rcases getElem?_append_some.mp hi with hi | ⟨rfl, rfl⟩
    · rw [hNodeAt (hOther (mem_of_getElem? hi))]
      exact h.node i m hi
    · exact ⟨o, hNew, hUse⟩
  · intro j e hj
    obtain ⟨oe, hAt, hUseE⟩ := h.edge j e hj
    obtain ⟨a, hSrc, hA⟩ := hUseE.src
    obtain ⟨b, hDst, hB⟩ := hUseE.dst
    exact ⟨oe, hAt, hUseE.id_eq, ⟨a, hSrc, hLive.mpr (.inl hA)⟩, ⟨b, hDst, hLive.mpr (.inl hB)⟩⟩
  · intro m om e hMem hAt
    rcases hLive.mp hMem with hMem | rfl
    · rw [hNodeAt (hOther hMem)] at hAt
      exact h.mem_out m om e hMem hAt
    · cases some.inj (hNew.symm.trans hAt)
      rw [hOut]
      refine iff_of_false (by simp) ?_
      rintro ⟨b, hJoins⟩
      exact hSupplies.notLive (h.joins_live hJoins).1
  · intro m om e hMem hAt
    rcases hLive.mp hMem with hMem | rfl
    · rw [hNodeAt (hOther hMem)] at hAt
      exact h.mem_in m om e hMem hAt
    · cases some.inj (hNew.symm.trans hAt)
      rw [hIn]
      refine iff_of_false (by simp) ?_
      rintro ⟨a, hJoins⟩
      exact hSupplies.notLive (h.joins_live hJoins).2
  · exact h.edgeSet
  · exact h.mem_edgeSet
  · intro m hMem
    have hNe : m ≠ n := by
      rintro rfl
      exact hSupplies.notFree hMem
    rw [hNodeAt hNe]
    exact h.freeNode m (hSupplies.of_mem m hMem)
  · exact hSupplies.nodup
  · exact h.freeEdge
  · exact h.freeEdges_nodup
  · intro m om hAt
    by_cases hEq : m = n
    · exact .inl (hLive.mpr (.inr hEq))
    · rw [hNodeAt hEq] at hAt
      rcases h.nodeKnown m om hAt with hMem | hFree
      · exact .inl (hLive.mpr (.inl hMem))
      · exact .inr ((hSupplies.mem_or_eq m hFree).resolve_right hEq)
  · exact h.edgeKnown
  · simp [State.adopt, h.numNodes]
  · simpa [State.adopt, State.putNode] using hRoom

theorem allocateNode {props : Properties} (hOp : props.nodeDef.op ≠ "")
    (costId : Option Int) (hFresh : s.nodeAt fresh = none) :
    ∃ n o free, s.allocateNode props costId fresh = .ok (n, s.adopt n o free) ∧
      Supplies s.nodes s.freeNodes n free ∧ (s.freeNodes = [] → n = fresh ∧ free = []) ∧
      o.InUse s.nodes.length ∧ o.inEdges = .new ∧ o.outEdges = .new := by
  have hId : Ops.NodeDef.toInt32 s.nodes.length = s.nodes.length := toInt32_length h.nodes_lt
  obtain ⟨n, o, free, hTake, hSupplies, hNil, hUnused⟩ := h.takeNode hFresh
  obtain ⟨o', hInit, hFacts⟩ := initializeNode_ok hUnused hOp s.nodes.length
    (costId.getD s.nodes.length)
  refine ⟨n, o', free, ?_, hSupplies, hNil, hFacts⟩
  rw [State.allocateNode, hTake, Fallible.ok_bind]
  simp only [hId, hInit]
  rfl

end Sound

end TensorFlowOnSpark.GraphObjects
