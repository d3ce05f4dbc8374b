import TensorFlowOnSpark.Framework.Status
import TensorFlowOnSpark.Framework.TensorProto
import TensorFlowOnSpark.Graph.Graph

/-!
# Partitioning a graph

`Partition` of `graph/graph_partition.cc`.
-/

namespace TensorFlowOnSpark

open Framework Function

universe u

/-- A `DataType` with the flag of `IsRefType`. -/
structure SlotType where
  base : DataType
  isRef : Bool
deriving DecidableEq, Repr

/-- A graph with what `Partition` reads of its nodes. -/
structure PlacedGraph (N : Type u) extends Graph N where
  source : N
  name : N → String
  inputType : N → Nat → SlotType
  outputType : N → Nat → SlotType
  name_injective : Injective name
  id_injective : ∀ v w, ∀ e ∈ inEdges v, ∀ e' ∈ inEdges w, e.id = e'.id → e = e'
  source_control : ∀ v, ∀ e ∈ inEdges v, e.src = source → e.isControlEdge

inductive MemoryType where
  | deviceMemory | hostMemory
deriving DecidableEq, Repr

/-- The attributes that `SetSendRecvAttrs` sets. -/
structure SendRecvAttrs where
  tensorName : String
  sendDevice : String
  sendDeviceIncarnation : Nat
  recvDevice : String
  clientTerminated : Bool
deriving DecidableEq, Repr

/-- The op of a `NodeDef` with its attributes; `original v` has those of the node `v`. -/
inductive NodeOp (N : Type u) where
  | original (v : N)
  | const
  | cast (host : Bool) (dstType : SlotType)
  | send (host : Bool) (attrs : SendRecvAttrs)
  | recv (host : Bool) (attrs : SendRecvAttrs) (tensorType : SlotType)
  | identity
deriving DecidableEq, Repr

inductive NodeInput where
  | control (srcName : String)
  | data (srcName : String) (srcSlot : Nat)
deriving DecidableEq, Repr

def NodeInput.srcName : NodeInput → String
  | .control srcName => srcName
  | .data srcName _ => srcName

structure NodeDef (N : Type u) where
  name : String
  device : String
  op : NodeOp N
  inputs : List NodeInput
deriving DecidableEq, Repr

/-- `newName i` is the `i`-th answer of `new_name`. The last three are what `Partition` calls:
the type that `ParseFullName` finds in the name of a device, the memory types of inputs and
outputs of `MemoryTypesForNode`, and `GetNodeAttr` of `_start_time`. -/
structure PartitionOptions (N : Type u) where
  nodeToLoc : N → String → String
  newName : Nat → String → String
  getIncarnation : String → Nat
  controlFlowAdded : Bool
  shouldCast : Option (Edge N → SlotType)
  schedulingForRecvs : Bool
  needToRecordStartTimes : Bool
  parseDeviceType : String → Option String
  memoryTypesForNode : String → N → Except Status ((Nat → MemoryType) × (Nat → MemoryType))
  startTimeAttr : N → Except Status Int

structure GraphInfo (N : Type u) where
  deviceTypes : N → String
  inputTypes : N → Nat → MemoryType
  outputTypes : N → Nat → MemoryType

structure DupRecvKey (N : Type u) where
  srcNode : N
  srcOutputSlot : Option Nat
  dstGraph : String
  recvOutputOnHost : Bool
deriving DecidableEq, Repr

/-- `dupRecv` gives the name of `RecvInfo::recv`. -/
structure PartitionState (N : Type u) where
  defs : List (String × NodeDef N)
  dupRecv : DupRecvKey N → Option String
  numNames : Nat

variable {N : Type u}

namespace PlacedGraph

variable [DecidableEq N] (g : PlacedGraph N)

def isOp (v : N) : Bool := v ≠ g.source && v ≠ g.sink

def isControlLoop (v : N) : Bool := (g.name v).startsWith "_cloop"

/-- The visit of a node in `OptimizeControlFlowColocation`. -/
def colocate (devices : N → String) (v : N) : N → String :=
  if g.isSwitch v then
    match (g.inEdges v).find? fun e => e.dstInput = some 0 with
    | some e => update devices v (devices e.src)
    | none => devices
  else if g.isExit v then
    match (g.inEdges v).find? fun e => !e.isControlEdge with
    | some e => update devices v (devices e.src)
    | none => devices
  else if (g.isEnter v && !(g.inputType v 0).isRef) || g.isNextIteration v then
    match (g.outEdges v).filter fun e => !e.isControlEdge with
    | [e] => update devices v (devices e.dst)
    | _ => devices
  else devices

/-- `order` is the order of the depth-first search. -/
def optimizeControlFlowColocation (devices : N → String) (order : List N) : N → String :=
  order.foldl g.colocate devices

end PlacedGraph

section Pieces

variable (opts : PartitionOptions N) (g : PlacedGraph N) (devices : N → String)

def malformedDevice (device : String) : Status :=
  .error .internal ("Malformed assigned device '" ++ device ++ "'")

/-- The visit of a node in `BuildMemoryDeviceInfo`. -/
def addMemoryDeviceInfo [DecidableEq N] (info : GraphInfo N) (v : N) :
    Except Status (GraphInfo N) :=
  if !g.isOp v then .ok info
  else
    match opts.parseDeviceType (devices v) with
    | none => .error (malformedDevice (devices v))
    | some deviceType =>
      match opts.memoryTypesForNode deviceType v with
      | .error status => .error status
      | .ok (inputTypes, outputTypes) => .ok
        { deviceTypes := update info.deviceTypes v deviceType
          inputTypes := update info.inputTypes v inputTypes
          outputTypes := update info.outputTypes v outputTypes }

/-- The tables have an entry for each op; no entry of another node is read. -/
def buildMemoryDeviceInfo [DecidableEq N] : Except Status (GraphInfo N) :=
  g.nodes.foldlM (addMemoryDeviceInfo opts g devices)
    ⟨fun _ => "CPU", fun _ _ => .deviceMemory, fun _ _ => .deviceMemory⟩

/-- The start times of a send and its recv are read, unless they are recorded. -/
def readStartTimes (e : Edge N) : Except Status Unit :=
  if opts.schedulingForRecvs && !opts.needToRecordStartTimes then do
    let _ ← opts.startTimeAttr e.src
    let _ ← opts.startTimeAttr e.dst
    .ok ()
  else .ok ()

variable (info : GraphInfo N)

def edgeType (e : Edge N) : SlotType :=
  match e.slots with
  | none => ⟨.float, false⟩
  | some (_, dstInput) => g.inputType e.dst dstInput

def needSameDeviceSendRecv (e : Edge N) : Bool :=
  match e.slots with
  | none => false
  | some (srcPort, dstPort) =>
    devices e.src = devices e.dst && info.deviceTypes e.src ≠ "CPU" &&
      info.outputTypes e.src srcPort ≠ info.inputTypes e.dst dstPort

def isDstInputOnHost (e : Edge N) : Bool :=
  if info.deviceTypes e.dst ≠ "CPU" then
    match e.slots with
    | none => false
    | some (_, dstPort) => info.inputTypes e.dst dstPort = .hostMemory
  else true

def tensorName (e : Edge N) : String := "edge_" ++ toString e.id ++ "_" ++ g.name e.src

def sendRecvAttrs (e : Edge N) : SendRecvAttrs where
  tensorName := tensorName g e
  sendDevice := devices e.src
  sendDeviceIncarnation := opts.getIncarnation (devices e.src)
  recvDevice := devices e.dst
  clientTerminated := false

end Pieces

namespace PartitionState

variable (opts : PartitionOptions N) (g : PlacedGraph N) (devices : N → String)
  (info : GraphInfo N)

def newName (s : PartitionState N) (namePrefix : String) : String × PartitionState N :=
  (opts.newName s.numNames namePrefix, { s with numNames := s.numNames + 1 })

def addNode (s : PartitionState N) (loc : String) (def_ : NodeDef N) : PartitionState N :=
  { s with defs := s.defs ++ [(loc, def_)] }

/-- `AddInput` to the node at position `dst`. -/
def addInput (s : PartitionState N) (dst : Nat) (input : NodeInput) : PartitionState N :=
  { s with
    defs := s.defs.modify dst fun p => (p.1, { p.2 with inputs := p.2.inputs ++ [input] }) }

/-- Returns the name of the send. -/
def addSend (s : PartitionState N) (loc : String) (e : Edge N) (sendFrom : NodeInput)
    (dtype : SlotType) : String × PartitionState N :=
  let castDtype := match opts.shouldCast with
    | some shouldCast => shouldCast e
    | none => dtype
  let hostMemory := match e.slots with
    | none => false
    | some (srcPort, _) => info.outputTypes e.src srcPort = .hostMemory
  let (sendFrom, s) :=
    if dtype ≠ castDtype ∧ needSameDeviceSendRecv devices info e = false then
      let (castName, s) := s.newName opts (g.name e.src)
      (.data castName 0,
        s.addNode loc ⟨castName, devices e.src, .cast hostMemory castDtype, [sendFrom]⟩)
    else (sendFrom, s)
  let (sendName, s) := s.newName opts (g.name e.src)
  (sendName, s.addNode loc
    ⟨sendName, devices e.src, .send hostMemory (sendRecvAttrs opts g devices e), [sendFrom]⟩)

/-- Returns the name of the node that stands for the received value, and the position of
the recv. -/
def addRecv (s : PartitionState N) (loc : String) (e : Edge N) :
    (String × Nat) × PartitionState N :=
  let dtype := edgeType g e
  let castDtype := match opts.shouldCast with
    | some shouldCast => if needSameDeviceSendRecv devices info e then dtype else shouldCast e
    | none => dtype
  let hostMemory := match e.slots with
    | none => false
    | some (_, dstPort) => info.inputTypes e.dst dstPort = .hostMemory
  let (recvName, s) := s.newName opts (g.name e.src)
  let realRecv := s.defs.length
  let s := s.addNode loc
    ⟨recvName, devices e.dst, .recv hostMemory (sendRecvAttrs opts g devices e) castDtype, []⟩
  if dtype ≠ castDtype then
    let (castName, s) := s.newName opts (g.name e.src)
    ((castName, realRecv),
      s.addNode loc ⟨castName, devices e.dst, .cast hostMemory dtype, [.data recvName 0]⟩)
  else if e.isControlEdge then
    let (idName, s) := s.newName opts (g.name e.src)
    ((idName, realRecv), s.addNode loc ⟨idName, devices e.dst, .identity, [.data recvName 0]⟩)
  else ((recvName, realRecv), s)

def addDummyConst (s : PartitionState N) (loc : String) (e : Edge N) :
    String × PartitionState N :=
  let (name, s) := s.newName opts (g.name e.src)
  (name, s.addNode loc ⟨name, devices e.src, .const, [.control (g.name e.src)]⟩)

end PartitionState

structure InputLoop (N : Type u) where
  state : PartitionState N
  refRecvs : List Nat
  refControlInputs : List String
  numControlFlowEdges : Nat

section Loop

variable [DecidableEq N] (opts : PartitionOptions N) (g : PlacedGraph N) (devices : N → String)
  (info : GraphInfo N)

def locOf (v : N) : String := opts.nodeToLoc v (devices v)

def dupRecvKey (e : Edge N) : DupRecvKey N :=
  ⟨e.src, e.slots.map Prod.fst, locOf opts devices e.dst, isDstInputOnHost info e⟩

/-- The input of `dst` that comes from the node named `srcName`, which stands for the
source of `e`. -/
def inputFrom (e : Edge N) (srcName : String) : NodeInput :=
  if e.isControlEdge then .control srcName else .data srcName 0

/-- The input of `dst` that comes from the source of `e` itself. -/
def directInput (e : Edge N) : NodeInput :=
  match e.slots with
  | none => .control (g.name e.src)
  | some (srcOutput, _) => .data (g.name e.src) srcOutput

def isRefEdge (e : Edge N) : Bool :=
  match e.slots with
  | none => false
  | some (srcOutput, _) => (g.outputType e.src srcOutput).isRef

/-- Splits `e` by a new pair of send and recv. -/
def splitEdge (dst : Nat) (controlFlowEdge : Option (Edge N)) (l : InputLoop N) (e : Edge N) :
    InputLoop N :=
  let srcGraph := locOf opts devices e.src
  let dstGraph := locOf opts devices e.dst
  let (sendFrom, s) :=
    if e.isControlEdge then
      let (dummy, s) := l.state.addDummyConst opts g devices srcGraph e
      (.data dummy 0, s)
    else (directInput g e, l.state)
  let (sendName, s) := s.addSend opts g devices info srcGraph e sendFrom (edgeType g e)
  let ((recvName, realRecv), s) := s.addRecv opts g devices info dstGraph e
  let (s, numControlFlowEdges) :=
    if srcGraph = dstGraph then
      (s.addInput realRecv (.control sendName), l.numControlFlowEdges)
    else
      match controlFlowEdge with
      | some c => (s.addInput realRecv (.control (g.name c.src)), l.numControlFlowEdges - 1)
      | none => (s, l.numControlFlowEdges)
  let l := { l with numControlFlowEdges := numControlFlowEdges }
  if isRefEdge g e then
    { l with
      state := s.addInput dst (inputFrom e recvName)
      refRecvs := l.refRecvs ++ [realRecv] }
  else
    let key := dupRecvKey opts devices info e
    { l with
      state := { s with dupRecv := update s.dupRecv key (some recvName) }
        |>.addInput dst (inputFrom e recvName)
      refControlInputs := l.refControlInputs ++ [recvName] }

/-- Same partition and compatible memory types. -/
def isSamePartition (e : Edge N) : Bool :=
  locOf opts devices e.src = locOf opts devices e.dst &&
    !needSameDeviceSendRecv devices info e

/-- The body of the loop over the inputs of the node at position `dst`, after start times. -/
def connectInput (dst : Nat) (controlFlowEdge : Option (Edge N)) (l : InputLoop N) (e : Edge N) :
    InputLoop N :=
  if !g.isOp e.src then l
  else if isSamePartition opts devices info e then
    { l with
      state := l.state.addInput dst (directInput g e)
      refControlInputs :=
        if isRefEdge g e then l.refControlInputs else l.refControlInputs ++ [g.name e.src] }
  else
    match l.state.dupRecv (dupRecvKey opts devices info e) with
    | some recvName =>
      { l with
        state := l.state.addInput dst (inputFrom e recvName)
        refControlInputs := l.refControlInputs ++ [recvName] }
    | none => splitEdge opts g devices info dst controlFlowEdge l e

def processInput (dst : Nat) (controlFlowEdge : Option (Edge N)) (l : InputLoop N) (e : Edge N) :
    Except Status (InputLoop N) :=
  let isSplit := g.isOp e.src && !isSamePartition opts devices info e
  match if isSplit then readStartTimes opts e else .ok () with
  | .error status => .error status
  | .ok () => .ok (connectInput opts g devices info dst controlFlowEdge l e)

/-- A control edge that `AddControlFlow` added. -/
def isControlFlowEdge (e : Edge N) : Bool :=
  e.isControlEdge && g.isMerge e.src && g.isControlLoop e.src

def arrangedInputs (v : N) : List (Edge N) :=
  ((List.range (g.numInputs v)).filterMap fun slot =>
      (g.inEdges v).find? fun e => e.dstInput = some slot) ++
    (g.inEdges v).filter fun e => e.isControlEdge && !isControlFlowEdge g e

def addReadControl (s : PartitionState N) (recvs : List Nat) (inputs : List String) :
    PartitionState N :=
  recvs.foldl (fun s recv => inputs.foldl (fun s input => s.addInput recv (.control input)) s) s

/-- The body of the loop over the nodes. -/
def processNode (s : PartitionState N) (v : N) : Except Status (PartitionState N) :=
  if !g.isOp v then .ok s
  else
    let dst := s.defs.length
    let s := s.addNode (locOf opts devices v) ⟨g.name v, devices v, .original v, []⟩
    let controlFlowEdges := (g.inEdges v).filter (isControlFlowEdge g)
    let numInputEdges := (g.inEdges v).countP fun e => !e.isControlEdge
    if numInputEdges ≠ g.numInputs v then
      .error (Errors.invalidArgument ("Incomplete graph, missing " ++
        toString ((g.numInputs v : Int) - numInputEdges) ++ " inputs for " ++ g.name v))
    else do
      let controlFlowEdge := controlFlowEdges.getLast?
      let l ← (arrangedInputs g v).foldlM (processInput opts g devices info dst controlFlowEdge)
        ⟨s, [], [], controlFlowEdges.length⟩
      let s := addReadControl l.state l.refRecvs l.refControlInputs
      match controlFlowEdge with
      | none => .ok s
      | some c =>
        .ok ((List.replicate l.numControlFlowEdges (NodeInput.control (g.name c.src))).foldl
          (fun s input => s.addInput dst input) s)

end Loop

/-- The assigned devices after `OptimizeControlFlowColocation`, whose depth-first search reaches
the nodes in the order `order`. -/
def colocatedDevices [DecidableEq N] (opts : PartitionOptions N) (g : PlacedGraph N)
    (devices : N → String) (order : List N) : N → String :=
  if opts.controlFlowAdded then devices else g.optimizeControlFlowColocation devices order

/-- `Partition`. The nodes of the result are those of all partitions, each with the
location of its partition. -/
def partition [DecidableEq N] (opts : PartitionOptions N) (g : PlacedGraph N)
    (devices : N → String) (order : List N) : Except Status (List (String × NodeDef N)) := do
  let devices := colocatedDevices opts g devices order
  let info ← buildMemoryDeviceInfo opts g devices
  (g.nodes.foldlM (processNode opts g devices info) ⟨[], fun _ => none, 0⟩).map
    PartitionState.defs

end TensorFlowOnSpark
