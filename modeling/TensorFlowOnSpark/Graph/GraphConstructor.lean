import TensorFlowOnSpark.Graph.NodeGraph
import TensorFlowOnSpark.Lib.Countdown

/-!
# Building a graph from a GraphDef

`GraphConstructor` of `graph/graph_constructor.cc`, with `ParseTensorName` of
`graph/tensor_id.cc` and `CheckVersions` of `framework/versions.cc`.
-/

namespace TensorFlowOnSpark.Ops.AttrMap

/-- A new value for a name that the map has. -/
def set (m : AttrMap) (name : String) (value : AttrValue) : AttrMap :=
  ⟨m.entries.map fun entry => if entry.1 = name then (name, value) else entry, by
    rw [List.map_map]
    have hNames : (Prod.fst ∘ fun entry => if entry.1 = name then (name, value) else entry) =
        (Prod.fst : String × AttrValue → String) := by
      funext entry
      simp only [Function.comp]
      split
      · exact Eq.symm ‹_›
      · rfl
    rw [hNames]
    exact m.nodup⟩

def erase (m : AttrMap) (name : String) : AttrMap :=
  ⟨m.entries.filter fun entry => entry.1 ≠ name, m.nodup.sublist (List.filter_sublist.map _)⟩

end TensorFlowOnSpark.Ops.AttrMap

namespace TensorFlowOnSpark.Construction

open Ops
open Framework (Code)

def letter (c : Char) : Bool := ('a' ≤ c ∧ c ≤ 'z') ∨ ('A' ≤ c ∧ c ≤ 'Z')

def digit (c : Char) : Bool := '0' ≤ c ∧ c ≤ '9'

def nameChar (c : Char) : Bool :=
  letter c || digit c || c = '-' || c = '.' || c = '/' || c = '_'

def isValidNodeName (name : String) (allowInternalOps : Bool) : Bool :=
  match name.toList with
  | [] => false
  | c :: rest =>
    (letter c || digit c || c = '.' || allowInternalOps && c = '_') && rest.all nameChar

/-- The walk of `ParseTensorName` back over digits, which stops at the first character. -/
def parseDigits : List Char → Int → Int → List Char × Int × Int
  | c :: d :: rest, index, mul =>
    if digit c then
      parseDigits (d :: rest) (NodeDef.toInt32 (index + ((c.toNat : Int) - 48) * mul))
        (NodeDef.toInt32 (mul * 10))
    else (c :: d :: rest, index, mul)
  | chars, index, mul => (chars, index, mul)

def parseTensorName (name : String) : String × Int :=
  match parseDigits name.toList.reverse 0 1 with
  | (':' :: c :: rest, index, mul) =>
    if 1 < mul then (String.ofList (c :: rest).reverse, index) else (name, 0)
  | _ => (name, 0)

def isControlInput (input : String) : Bool := "^".toList.isPrefixOf input.toList

def consumeCaret (input : String) : String :=
  if isControlInput input then String.ofList (input.toList.drop 1) else input

def inputId (input : String) : String × Int := parseTensorName (consumeCaret input)

def bytesOf (s : String) : Bytes := s.toUTF8.toList

def kColocationAttrName : String := "_class"

def kColocationGroupPrefix : String := "loc:@"

def consumeGroup (s : Bytes) : Option Bytes := (bytesOf kColocationGroupPrefix).isPrefixOf? s

structure GraphDef where
  node : List NodeDef
  versions : VersionDef

def isMerge (nodeDef : NodeDef) : Bool := nodeDef.op = "Merge" ∨ nodeDef.op = "RefMerge"

structure Options where
  allowInternalOps : Bool
  expectDeviceSpec : Bool
  namePrefix : String
  importing : Bool

def Options.ofImport (namePrefix : String) : Options :=
  ⟨false, false, if namePrefix = "" ∨ "/".toList.isSuffixOf namePrefix.toList then namePrefix
    else namePrefix ++ "/", true⟩

def Options.ofConvert (allowInternalOps expectDeviceSpec : Bool) : Options :=
  ⟨allowInternalOps, expectDeviceSpec, "", false⟩

/-- `nullNode` stands for a walk through a pointer to no node. -/
inductive Error where
  | misordered (consumer minProducer : Int)
  | oldProducer (producer minProducer : Int)
  | newConsumer (minConsumer consumer : Int)
  | badConsumer (consumer : Int)
  | alreadyExists (name : String)
  | invalidPrefix (namePrefix : String)
  | prefixConflict (name : String)
  | invalidName (name : String)
  | notUnique (name : String)
  | noOperation (name : String)
  | noDevice (name : String)
  | unknownInput (name input : String)
  | unknownColocation (name : String) (group : Bytes)
  | controlFirst (name : String)
  | invalidOutput (name : String) (index : Int) (src : String) (numOutputs : Nat)
  | backEdge (name : String)
  | incompatible (inputIndex : Nat) (dst srcType src : String) (outputIndex : Int)
      (dstType : String)
  | cycle (left : Nat)
  | notRegistered (op : String)
  | removedOp (op : String) (version : Int) (explanation : String)
  | numShapes (name : String) (numOutputs numShapes : Nat)
  | invalidShape (name : String) (i : Nat) (problem : String)
  | inconsistentShape (name : String) (i : Nat) (problem : String)
  | refiner (code : Code) (problem : String)
  | ops (error : Ops.Error)
  | attached (error : Ops.Error) (nodeDef : NodeDef)
  | nullNode

def tfGraphDefVersion : Int := 17

def tfVersionString : String := "0.12.1"

namespace Error

def code : Error → Code
  | .misordered _ _ => .internal
  | .notRegistered _ => .notFound
  | .removedOp _ _ _ => .unimplemented
  | .refiner code _ => code
  | .ops error | .attached error _ => error.code
  | _ => .invalidArgument

def message (p : Printers) : Error → String
  | .misordered consumer minProducer =>
    s!"GraphDef version check has consumer {consumer} < min_producer {minProducer}."
  | .oldProducer producer minProducer =>
    s!"GraphDef producer version {producer} below min producer {minProducer} supported by " ++
      s!"TensorFlow {tfVersionString}.  Please regenerate your graph."
  | .newConsumer minConsumer consumer =>
    s!"GraphDef min consumer version {minConsumer} above current version {consumer} for " ++
      s!"TensorFlow {tfVersionString}.  Please upgrade TensorFlow."
  | .badConsumer consumer =>
    s!"GraphDef disallows consumer version {consumer}" ++
      ".  Please upgrade TensorFlow: this version is likely buggy."
  | .alreadyExists name => s!"Node '{name}' already exists in the Graph"
  | .invalidPrefix namePrefix =>
    s!"Imported node name prefix '{namePrefix}' would lead to invalid node names"
  | .prefixConflict name =>
    s!"Import node name prefix conflicts with names of nodes already in the Graph, " ++
      s!"such as '{name}'"
  | .invalidName name => s!"Node '{name}': Node name contains invalid characters"
  | .notUnique name => s!"Node '{name}' is not unique"
  | .noOperation name => s!"Node '{name}' does not specify an operation"
  | .noDevice name => s!"Node '{name}' is missing a device specification"
  | .unknownInput name input => s!"Node '{name}': Unknown input node '{input}'"
  | .unknownColocation name group =>
    s!"Node '{name}' expects to be colocated with unknown node '{p.bytes group}'"
  | .controlFirst name =>
    s!"Node '{name}': Control dependencies must come after regular dependencies"
  | .invalidOutput name index src numOutputs =>
    s!"Node '{name}': Connecting to invalid output {index} of source node {src}" ++
      s!" which has {numOutputs} outputs"
  | .backEdge name =>
    s!"Node '{name}' had a back edge, but only Merge nodes can have back edges."
  | .incompatible inputIndex dst srcType src outputIndex dstType =>
    s!"Input {inputIndex} of node {dst} was passed {srcType} from {src}:{outputIndex}" ++
      s!" incompatible with expected {dstType}."
  | .cycle left => s!"{left} nodes in a cycle"
  | .notRegistered op => s!"Op type not registered '{op}'"
  | .removedOp op version explanation =>
    s!"Op {op} is not available in GraphDef version {tfGraphDefVersion}" ++
      s!". It has been removed in version {version}. {explanation}."
  | .numShapes name numOutputs shapes =>
    s!"Node '{name}' has {numOutputs} outputs but the _output_shapes attribute specifies " ++
      s!"shapes for {shapes} outputs"
  | .invalidShape name i problem =>
    s!"Node '{name} has an invalid _output_shapes attribute (shape #{i} error:'{problem}'"
  | .inconsistentShape name i problem =>
    s!"Node '{name}' has an _output_shapes attribute inconsistent with the GraphDef for " ++
      s!"output #{i}: {problem}"
  | .refiner _ problem => problem
  | .ops error => error.message p
  | .attached error nodeDef =>
    s!"{error.message p}\n\t [[Node: {p.summarizeNodeDef nodeDef}]]"
  | .nullNode => ""

end Error

/-- An op of the registry, with what `OpDef.deprecation` says. -/
structure RegisteredOp where
  opDef : OpDef
  deprecation : Option (Int × String)

/-- A node of the `GraphDef`, and the node of the graph once it has one. -/
structure NodeInfo where
  gdefIndex : Nat
  node : Option Nat
deriving DecidableEq, Repr

structure InputInfo where
  name : String
  node : Option Nat
  index : Int

structure EdgeInfo where
  srcName : String
  srcIndex : Int
  dstNode : Nat
  dstIndex : Nat

/-- What the constructor calls; `R` holds the state of the `ShapeRefiner`, `H` a shape. -/
structure Environment (R H : Type) where
  lookUpOpDef : String → Option RegisteredOp
  newRefiner : R
  addNode : Graph → Nat → R → Except (Code × String) Unit × R
  makeShapeFromShapeProto : Nat → Bytes → R → Except (Code × String) H × R
  setShape : Graph → Nat → Nat → H → R → Except (Code × String) Unit × R
  stray : List DataType → Int → DataType
  walk : List (String × NodeInfo) → List (String × NodeInfo)
  walk_perm : ∀ index, (walk index).Perm index

/-- `work` holds `ready_` and `pending_count_`. -/
structure State (R : Type) where
  graph : Graph
  nameIndex : List (String × NodeInfo)
  work : Countdown.State Nat
  outputs : List (List Nat)
  backEdges : List EdgeInfo
  refiner : R

def State.initial {R : Type} (g : Graph) (refiner : R) : State R :=
  ⟨g, [], ⟨[], fun _ => 0⟩, [], [], refiner⟩

structure Failure (R : Type) where
  error : Error
  state : State R

section Constructor

variable {R H : Type} (env : Environment R H) (opts : Options) (gdef : GraphDef)

def orFail {α : Type} (s : State R) (x : Except Error α) : Except (Failure R) α :=
  x.mapError fun error => ⟨error, s⟩

def check (condition : Bool) (error : Error) : Except Error Unit :=
  if condition then .ok () else .error error

def checkEach {α : Type} (condition : α → Bool) (error : α → Error) : List α → Except Error Unit
  | [] => .ok ()
  | x :: rest => check (condition x) (error x) >>= fun _ => checkEach condition error rest

def checkVersions (versions : VersionDef) (consumer minProducer : Int) : Except Error Unit := do
  check (minProducer ≤ consumer) (.misordered consumer minProducer)
  check (minProducer ≤ versions.producer) (.oldProducer versions.producer minProducer)
  check (versions.minConsumer ≤ consumer) (.newConsumer versions.minConsumer consumer)
  checkEach (· ≠ consumer) .badConsumer versions.badConsumers

def nodeNames (g : Graph) : List String :=
  g.nodeIds.filterMap fun id => (g.node id).map fun node => node.nodeDef.name

def ensureNoNameCollisions (g : Graph) : Except Error Unit :=
  if opts.namePrefix = "" then
    if opts.importing then
      checkEach (fun nodeDef => nodeDef.name ∉ nodeNames g)
        (fun nodeDef => .alreadyExists nodeDef.name)
        gdef.node
    else .ok ()
  else do
    check (isValidNodeName (String.ofList opts.namePrefix.toList.dropLast) false)
      (.invalidPrefix opts.namePrefix)
    checkEach (fun name => !opts.namePrefix.toList.isPrefixOf name.toList) .prefixConflict
      (nodeNames g)

def buildNodeIndex : List NodeDef → Nat → State R → Except (Failure R) (State R)
  | [], _, s => .ok s
  | nodeDef :: rest, n, s => do
    orFail s (check (isValidNodeName nodeDef.name opts.allowInternalOps)
      (.invalidName nodeDef.name))
    orFail s (check (nodeDef.name ∉ s.nameIndex.map Prod.fst) (.notUnique nodeDef.name))
    let s := { s with nameIndex := s.nameIndex ++ [(nodeDef.name, ⟨n, none⟩)] }
    orFail s (check (nodeDef.op ≠ "") (.noOperation nodeDef.name))
    orFail s (check (!(opts.expectDeviceSpec && nodeDef.device = "")) (.noDevice nodeDef.name))
    buildNodeIndex rest (n + 1) s

/-- What a node waits for: a `Merge` for its control inputs and one more input. -/
def pendingCount (nodeDef : NodeDef) : Int :=
  if isMerge nodeDef then (nodeDef.input.countP isControlInput : Nat) + 1 else nodeDef.input.length

def initFromInputs (nodeDef : NodeDef) (n : Nat) :
    List String → State R → Except (Failure R) (State R)
  | [], s => .ok s
  | input :: rest, s =>
    match s.nameIndex.lookup (inputId input).1 with
    | none => .error ⟨.unknownInput nodeDef.name input, s⟩
    | some info =>
      initFromInputs nodeDef n rest
        { s with outputs := s.outputs.modify info.gdefIndex (· ++ [n]) }

def initCount (nodeDef : NodeDef) (n : Nat) (s : State R) : State R :=
  { s with
    work := ⟨if nodeDef.input.isEmpty then n :: s.work.ready else s.work.ready,
      Function.update s.work.pending n (pendingCount nodeDef)⟩ }

def initFromEdges : List NodeDef → Nat → State R → Except (Failure R) (State R)
  | [], _, s => .ok s
  | nodeDef :: rest, n, s => do
    let s ← initFromInputs nodeDef n nodeDef.input (initCount nodeDef n s)
    initFromEdges rest (n + 1) s

local instance instLawfulBEqBytes : LawfulBEq (List UInt8) := inferInstance

def validateColocationConstraints (nodeDef : NodeDef) (names : List String) : Except Error Unit :=
  if opts.importing then
    match nodeDef.attr.find kColocationAttrName with
    | none => .ok ()
    | some value =>
      checkEach
        (fun c => (consumeGroup c).all fun group => group ∈ names.map bytesOf)
        (fun c => .unknownColocation nodeDef.name ((consumeGroup c).getD c)) value.getList.s
  else .ok ()

def outputType (node : Node) (i : Int) : DataType :=
  if 0 ≤ i ∧ i < node.outputTypes.length then node.outputTypes.getD i.toNat dtInvalid
  else env.stray node.outputTypes i

def inputType (node : Node) (i : Nat) : DataType :=
  if i < node.inputTypes.length then node.inputTypes.getD i dtInvalid
  else env.stray node.inputTypes i

def baseType (dtype : DataType) : DataType :=
  if isRefType dtype then dtype - kDataTypeRefOffset else dtype

def typesCompatible (expected actual : DataType) : Bool :=
  expected = actual ∨ expected = baseType actual

def liftOps {α : Type} (x : Except Ops.Error α) : Except Error α := x.mapError .ops

/-- What `MakeEdge` checks before it adds the edge. -/
def checkTypes (g : Graph) (src : Nat) (outputIndex : Int) (dst : Nat) (inputIndex : Nat) :
    Except Error Unit :=
  match g.node src, g.node dst with
  | some srcNode, some dstNode => do
    let srcOut := outputType env srcNode outputIndex
    let dstIn := inputType env dstNode inputIndex
    if typesCompatible dstIn srcOut then .ok ()
    else do
      let srcType ← liftOps (dataTypeString srcOut)
      let dstType ← liftOps (dataTypeString dstIn)
      .error (.incompatible inputIndex dstNode.nodeDef.name srcType srcNode.nodeDef.name
        outputIndex dstType)
  | _, _ => .error .nullNode

def makeEdge (src : Nat) (outputIndex : Int) (dst : Nat) (inputIndex : Nat) (s : State R) :
    Except (Failure R) (State R) := do
  orFail s (checkTypes env s.graph src outputIndex dst inputIndex)
  .ok { s with graph := s.graph.addEdge ⟨src, outputIndex, dst, inputIndex⟩ }

def whitelist : List String :=
  ["RandomShuffleQueue", "PaddingFIFOQueue", "FIFOQueue", "PriorityQueue", "QueueSize", "Stack",
    "Barrier", "BarrierReadySize", "BarrierIncompleteSize", "HashTable", "MutableHashTable",
    "MutableHashTableOfTensors", "Mutex", "CuckooTable", "IndexTable", "WholeFileReader",
    "TextLineReader", "FixedLengthRecordReader", "TFRecordReader", "IdentityReader", "RefSwitch",
    "RefEnter", "RefNextIteration", "RefMerge", "RefIdentity", "ConditionalAccumulator",
    "SparseConditionalAccumulator", "Table"]

/-- `GetNodeAttr` of the shapes, where it succeeds. -/
def shapeAttrs (nodeDef : NodeDef) : Option (List Bytes) :=
  match nodeDef.attr.find "_output_shapes" with
  | none => none
  | some value =>
    match attrValueHasType value "list(shape)" with
    | .error _ => none
    | .ok _ => some value.getList.shape

def setShapes (id : Nat) (nodeDef : NodeDef) :
    List Bytes → Nat → State R → Except (Failure R) (State R)
  | [], _, s => .ok s
  | proto :: rest, i, s =>
    match env.makeShapeFromShapeProto id proto s.refiner with
    | (.error problem, refiner) =>
      .error ⟨.invalidShape nodeDef.name i problem.2, { s with refiner := refiner }⟩
    | (.ok shape, refiner) =>
      match env.setShape s.graph id i shape refiner with
      | (.ok _, refiner) => setShapes id nodeDef rest (i + 1) { s with refiner := refiner }
      | (.error problem, refiner) =>
        if nodeDef.op ∈ whitelist then
          setShapes id nodeDef rest (i + 1) { s with refiner := refiner }
        else .error ⟨.inconsistentShape nodeDef.name i problem.2, { s with refiner := refiner }⟩

def clearAttr (name : String) (node : Node) : Node :=
  { node with nodeDef := { node.nodeDef with attr := node.nodeDef.attr.erase name } }

def validateShape (id : Nat) (node : Node) (s : State R) : Except (Failure R) (State R) :=
  if opts.importing then
    match env.addNode s.graph id s.refiner with
    | (.error problem, refiner) =>
      .error ⟨.refiner problem.1 problem.2, { s with refiner := refiner }⟩
    | (.ok _, refiner) =>
      match shapeAttrs node.nodeDef with
      | none => .ok { s with refiner := refiner }
      | some shapes => do
        let s := { s with refiner := refiner }
        orFail s (check (shapes.length = node.outputTypes.length)
          (.numShapes node.nodeDef.name node.outputTypes.length shapes.length))
        let s ← setShapes env id node.nodeDef shapes 0 s
        .ok { s with graph := s.graph.modifyNode id (clearAttr "_output_shapes") }
  else .ok s

def lookUp (op : String) : Except Error RegisteredOp :=
  match env.lookUpOpDef op with
  | none => .error (.notRegistered op)
  | some registered => .ok registered

def checkOpDeprecation (registered : RegisteredOp) (graphDefVersion : Int) : Except Error Unit :=
  match registered.deprecation with
  | none => .ok ()
  | some (version, explanation) =>
    check (graphDefVersion < version) (.removedOp registered.opDef.name version explanation)

def modifyNodeDefForImport (nodeDef : NodeDef) : Except Error NodeDef := do
  let registered ← lookUp env nodeDef.op
  let nodeDef := nodeDef.addDefaults registered.opDef
  liftOps (nodeDef.validateNodeDef registered.opDef)
  checkOpDeprecation registered tfGraphDefVersion
  .ok nodeDef

def addPrefixToInput (input : String) : String :=
  if isControlInput input then "^" ++ opts.namePrefix ++ consumeCaret input
  else opts.namePrefix ++ input

def addPrefixToGroup (s : Bytes) : Bytes :=
  match consumeGroup s with
  | none => s
  | some group => bytesOf (kColocationGroupPrefix ++ opts.namePrefix) ++ group

def addPrefixToNodeDef (nodeDef : NodeDef) : NodeDef :=
  if opts.namePrefix = "" then nodeDef
  else
    { nodeDef with
      name := opts.namePrefix ++ nodeDef.name
      input := nodeDef.input.map (addPrefixToInput opts)
      attr :=
        match nodeDef.attr.find kColocationAttrName with
        | none => nodeDef.attr
        | some value =>
          nodeDef.attr.set kColocationAttrName
            (.list { value.getList with s := value.getList.s.map (addPrefixToGroup opts) }) }

def importedNodeDef (nodeDef : NodeDef) : Except Error NodeDef :=
  if opts.importing then modifyNodeDefForImport env (addPrefixToNodeDef opts nodeDef)
  else .ok nodeDef

def makeNode (nodeDef : NodeDef) : Except Error Node := do
  let registered ← lookUp env nodeDef.op
  let types ← (nodeDef.inOutTypesForNode registered.opDef).mapError (.attached · nodeDef)
  .ok ⟨nodeDef, registered.opDef, types.1, types.2,
    if opts.expectDeviceSpec then nodeDef.device else ""⟩

/-- Collects the inputs of a node, and whether a data input has no node yet. -/
def collectInputs (g : Graph) (nameIndex : List (String × NodeInfo)) (nodeDef : NodeDef) :
    List String → Bool → List InputInfo → Bool → Except Error (List InputInfo × Bool)
  | [], _, inputs, hasDataBackEdge => .ok (inputs, hasDataBackEdge)
  | input :: rest, inControlDependence, inputs, hasDataBackEdge => do
    check (isControlInput input || !inControlDependence) (.controlFirst nodeDef.name)
    let inControlDependence := isControlInput input || inControlDependence
    let id := inputId input
    let srcNode := (nameIndex.lookup id.1).bind NodeInfo.node
    if inControlDependence then
      collectInputs g nameIndex nodeDef rest inControlDependence
        (inputs ++ [⟨id.1, srcNode, kControlSlot⟩]) hasDataBackEdge
    else
      match srcNode.bind g.node with
      | none =>
        collectInputs g nameIndex nodeDef rest inControlDependence
          (inputs ++ [⟨id.1, srcNode, id.2⟩]) true
      | some src => do
        check (id.2 < src.outputTypes.length)
          (.invalidOutput nodeDef.name id.2 id.1 src.outputTypes.length)
        collectInputs g nameIndex nodeDef rest inControlDependence
          (inputs ++ [⟨id.1, srcNode, id.2⟩]) hasDataBackEdge

/-- Adds the edges from the inputs that have a node and records the others. -/
def addInputs (id : Nat) : List InputInfo → Nat → State R → Except (Failure R) (State R)
  | [], _, s => .ok s
  | input :: rest, i, s =>
    match input.node with
    | none =>
      addInputs id rest (i + 1)
        { s with backEdges := s.backEdges ++ [⟨input.name, input.index, id, i⟩] }
    | some src =>
      if input.index = kControlSlot then
        addInputs id rest (i + 1) { s with graph := s.graph.addControlEdge src id }
      else makeEdge env src input.index id i s >>= addInputs id rest (i + 1)

def setNode (id : Nat) (name : String) (entry : String × NodeInfo) : String × NodeInfo :=
  if entry.1 = name then (entry.1, ⟨entry.2.gdefIndex, some id⟩) else entry

/-- One round of `Convert`, for the node that was taken from `ready_`. -/
def convertNode (o : Nat) (nodeDef : NodeDef) (s : State R) : Except (Failure R) (State R) := do
  orFail s (validateColocationConstraints opts nodeDef (s.nameIndex.map Prod.fst))
  let (inputs, hasDataBackEdge) ←
    orFail s (collectInputs s.graph s.nameIndex nodeDef nodeDef.input false [] false)
  orFail s (check (!(hasDataBackEdge && !isMerge nodeDef)) (.backEdge nodeDef.name))
  let importedDef ← orFail s (importedNodeDef env opts nodeDef)
  let node ← orFail s (makeNode env opts importedDef)
  let id := s.graph.numNodeIds
  let s := { s with
    graph := s.graph.allocateNode node
    nameIndex := s.nameIndex.map (setNode id nodeDef.name) }
  let s ← addInputs env id inputs 0 s
  let s ← validateShape env opts id node s
  .ok { s with work := Countdown.signals s.work (s.outputs.getD o []) }

/-- The loop of `Convert`; the fuel bounds the number of rounds. -/
def convertLoop : Nat → Nat → State R → Except (Failure R) (State R × Nat)
  | 0, processed, s => .ok (s, processed)
  | fuel + 1, processed, s =>
    match s.work.ready with
    | [] => .ok (s, processed)
    | o :: rest =>
      match gdef.node[o]? with
      | none => .error ⟨.nullNode, s⟩
      | some nodeDef => do
        let s ← convertNode env opts o nodeDef { s with work := ⟨rest, s.work.pending⟩ }
        convertLoop fuel (processed + 1) s

def convert (s : State R) : Except (Failure R) (State R) := do
  let (s, processed) ← convertLoop env opts gdef gdef.node.length 0 s
  orFail s (check (gdef.node.length ≤ processed) (.cycle (gdef.node.length - processed)))
  .ok s

def addBackEdges : List EdgeInfo → State R → Except (Failure R) (State R)
  | [], s => .ok s
  | e :: rest, s =>
    match (s.nameIndex.lookup e.srcName).bind NodeInfo.node with
    | none => .error ⟨.nullNode, s⟩
    | some src =>
      if e.srcIndex = kControlSlot then
        addBackEdges rest { s with graph := s.graph.addControlEdge src e.dstNode }
      else makeEdge env src e.srcIndex e.dstNode e.dstIndex s >>= addBackEdges rest

/-- The elements of a `std::set` that holds those of the list. -/
def sortedSet (values : List Int) : List Int := values.dedup.mergeSort

def updatedVersions (versions : VersionDef) : VersionDef :=
  if opts.importing then
    { producer := tfGraphDefVersion
      minConsumer := max versions.minConsumer gdef.versions.minConsumer
      badConsumers :=
        if gdef.versions.badConsumers.isEmpty then versions.badConsumers
        else sortedSet (versions.badConsumers ++ gdef.versions.badConsumers) }
  else gdef.versions

def tryImport (s : State R) : Except (Failure R) (State R) := do
  orFail s (ensureNoNameCollisions opts gdef s.graph)
  let s ← buildNodeIndex opts gdef.node 0 s
  let s ← initFromEdges gdef.node 0 { s with outputs := List.replicate gdef.node.length [] }
  let s ← convert env opts gdef s
  let s ← addBackEdges env s.backEdges s
  let g := s.graph.setVersions (updatedVersions opts gdef s.graph.versions)
  .ok { s with graph := g.fixupSourceAndSinkEdges }

def removeRecorded (g : Graph) (entry : String × NodeInfo) : Graph :=
  match entry.2.node with
  | none => g
  | some id => g.removeNode id

/-- `Undo`, whose walk over the index has no order. -/
def undo (originalVersions : VersionDef) (s : State R) : Graph :=
  ((env.walk s.nameIndex).foldl removeRecorded s.graph).setVersions originalVersions

/-- The result of `Construct`, the graph that it leaves and the refiner. -/
def construct (g : Graph) (refiner : R) : Except Error Unit × Graph × R :=
  match checkVersions gdef.versions tfGraphDefVersion 0 with
  | .error error => (.error error, g, refiner)
  | .ok _ =>
    match tryImport env opts gdef (.initial g refiner) with
    | .ok s => (.ok (), s.graph, s.refiner)
    | .error failure =>
      (.error failure.error, undo env g.versions failure.state, failure.state.refiner)

end Constructor

variable {R H : Type} (env : Environment R H)

def convertGraphDefToGraph (allowInternalOps expectDeviceSpec : Bool) (gdef : GraphDef)
    (g : Graph) : Except Error Unit × Graph :=
  let result := construct env (.ofConvert allowInternalOps expectDeviceSpec) gdef g env.newRefiner
  (result.1, result.2.1)

/-- `ImportGraphDef`, which makes a refiner of its own where the caller gives none. -/
def importGraphDef (namePrefix : String) (gdef : GraphDef) (g : Graph) (refiner : Option R) :
    Except Error Unit × Graph × R :=
  construct env (.ofImport namePrefix) gdef g (refiner.getD env.newRefiner)

end TensorFlowOnSpark.Construction
