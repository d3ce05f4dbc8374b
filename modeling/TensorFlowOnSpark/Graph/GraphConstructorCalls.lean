import TensorFlowOnSpark.Framework.OpDefCompatible
import TensorFlowOnSpark.Graph.ConvertGraphDefFaithful

/-!
# The outputs that a conversion reads

The calls of `MakeEdge`, and when each of them names an output and an input that there
are.
-/

namespace TensorFlowOnSpark.Construction

open Ops Fallible List Construction.Graph Nat

variable {R H : Type}

structure EdgeCall where
  graph : Graph
  src : Option Nat
  outputIndex : Int
  dst : Nat
  inputIndex : Nat

def EdgeCall.InRange (c : EdgeCall) : Prop :=
  ∃ src srcNode dstNode, c.src = some src ∧ c.graph.node src = some srcNode ∧
    c.outputIndex < srcNode.outputTypes.length ∧ c.graph.node c.dst = some dstNode ∧
    c.inputIndex < dstNode.inputTypes.length

section Calls

variable (env : Environment R H) (opts : Options) (gdef : GraphDef)

/-- The calls that `addInputs` makes. -/
def addInputsCalls (id : Nat) : List InputInfo → Nat → State R → List EdgeCall
  | [], _, _ => []
  | input :: rest, i, s =>
    match input.node with
    | none =>
      addInputsCalls id rest (i + 1)
        { s with backEdges := s.backEdges ++ [⟨input.name, input.index, id, i⟩] }
    | some src =>
      if input.index = kControlSlot then
        addInputsCalls id rest (i + 1) { s with graph := s.graph.addControlEdge src id }
      else
        ⟨s.graph, some src, input.index, id, i⟩ ::
          match makeEdge env src input.index id i s with
          | .ok s' => addInputsCalls id rest (i + 1) s'
          | .error _ => []

/-- What `convertNode` does before it makes the node. -/
def convertNodeStart (nodeDef : Ops.NodeDef) (s : State R) :
    Except (Failure R) (List InputInfo × Node) := do
  orFail s (validateColocationConstraints opts nodeDef (s.nameIndex.map Prod.fst))
  let (inputs, hasDataBackEdge) ←
    orFail s (collectInputs s.graph s.nameIndex nodeDef nodeDef.input false [] false)
  orFail s (check (!(hasDataBackEdge && !isMerge nodeDef)) (.backEdge nodeDef.name))
  let importedDef ← orFail s (importedNodeDef env opts nodeDef)
  let node ← orFail s (makeNode env opts importedDef)
  .ok (inputs, node)

/-- The state in which `convertNode` has made the node. -/
def withNode (nodeDef : Ops.NodeDef) (node : Node) (s : State R) : State R :=
  { s with
    graph := s.graph.allocateNode node
    nameIndex := s.nameIndex.map (setNode s.graph.numNodeIds nodeDef.name) }

def convertNodeCalls (nodeDef : Ops.NodeDef) (s : State R) : List EdgeCall :=
  match convertNodeStart env opts nodeDef s with
  | .error _ => []
  | .ok (inputs, node) =>
    addInputsCalls env s.graph.numNodeIds inputs 0 (withNode nodeDef node s)

def convertCalls : Nat → State R → List EdgeCall
  | 0, _ => []
  | fuel + 1, s =>
    match s.work.ready with
    | [] => []
    | o :: rest =>
      match gdef.node[o]? with
      | none => []
      | some nodeDef =>
        let s := { s with work := ⟨rest, s.work.pending⟩ }
        convertNodeCalls env opts nodeDef s ++
          match convertNode env opts o nodeDef s with
          | .ok s' => convertCalls fuel s'
          | .error _ => []

def addBackEdgesCalls : List EdgeInfo → State R → List EdgeCall
  | [], _ => []
  | e :: rest, s =>
    let src := (s.nameIndex.lookup e.srcName).bind NodeInfo.node
    if e.srcIndex = kControlSlot then
      match src with
      | none => []
      | some src =>
        addBackEdgesCalls rest { s with graph := s.graph.addControlEdge src e.dstNode }
    else
      ⟨s.graph, src, e.srcIndex, e.dstNode, e.dstIndex⟩ ::
        match src with
        | none => []
        | some src =>
          match makeEdge env src e.srcIndex e.dstNode e.dstIndex s with
          | .ok s' => addBackEdgesCalls rest s'
          | .error _ => []

/-- What `tryImport` does before it calls `Convert`. -/
def tryImportStart (s : State R) : Except (Failure R) (State R) := do
  orFail s (ensureNoNameCollisions opts gdef s.graph)
  let s ← buildNodeIndex opts gdef.node 0 s
  initFromEdges gdef.node 0 { s with outputs := replicate gdef.node.length [] }

def tryImportCalls (s : State R) : List EdgeCall :=
  match tryImportStart opts gdef s with
  | .error _ => []
  | .ok s =>
    convertCalls env opts gdef gdef.node.length s ++
      match convert env opts gdef s with
      | .error _ => []
      | .ok s => addBackEdgesCalls env s.backEdges s

def constructCalls (g : Graph) (refiner : R) : List EdgeCall :=
  match checkVersions gdef.versions tfGraphDefVersion 0 with
  | .error _ => []
  | .ok _ => tryImportCalls env opts gdef (.initial g refiner)

theorem tryImport_eq (s : State R) :
    tryImport env opts gdef s =
      (tryImportStart opts gdef s >>= fun s =>
        convert env opts gdef s >>= fun s =>
          addBackEdges env s.backEdges s >>= fun s =>
            .ok { s with
              graph := (s.graph.setVersions
                (updatedVersions opts gdef s.graph.versions)).fixupSourceAndSinkEdges }) := by
  simp only [tryImport, tryImportStart, bind_assoc]

end Calls

structure InputRef where
  dst : String
  slot : Nat
  input : String
deriving DecidableEq, Repr

def inputRefsFrom (dst : String) : List String → Nat → List InputRef
  | [], _ => []
  | input :: rest, i => ⟨dst, i, input⟩ :: inputRefsFrom dst rest (i + 1)

def inputRefs (nodeDef : Ops.NodeDef) : List InputRef := inputRefsFrom nodeDef.name nodeDef.input 0

variable {inputs : List String}
variable {r : InputRef} {dst : String}

theorem mem_inputRefsFrom {n : Nat} :
    r ∈ inputRefsFrom dst inputs n ↔
      ∃ i input, inputs[i]? = some input ∧ r = ⟨dst, n + i, input⟩ := by
  induction inputs generalizing n with
  | nil => simp [inputRefsFrom]
  | cons input rest ih =>
    rw [inputRefsFrom, mem_cons, ih]
    constructor
    · rintro (rfl | ⟨i, input', hGet, rfl⟩)
      · exact ⟨0, input, rfl, rfl⟩
      · exact ⟨i + 1, input', hGet, by rw [add_right_comm, add_assoc]⟩
    · rintro ⟨i, input', hGet, rfl⟩
      cases i with
      | zero =>
        obtain rfl : input = input' := Option.some.inj hGet
        exact Or.inl rfl
      | succ i => exact Or.inr ⟨i, input', hGet, by rw [add_right_comm, add_assoc]⟩

variable {nodeDef : Ops.NodeDef}

theorem mem_inputRefs : r ∈ inputRefs nodeDef ↔
    nodeDef.input[r.slot]? = some r.input ∧ r.dst = nodeDef.name := by
  rw [inputRefs, mem_inputRefsFrom]
  constructor
  · rintro ⟨i, input, hGet, rfl⟩
    rw [Nat.zero_add]
    exact ⟨hGet, rfl⟩
  · rintro ⟨hGet, hDst⟩
    refine ⟨r.slot, r.input, hGet, ?_⟩
    rw [Nat.zero_add, ← hDst]

/-- The checks of `ValidateNodeDef`, for the ops that are registered. -/
def Validated (env : Environment R H) (nodes : List Ops.NodeDef) : Prop :=
  ∀ d ∈ nodes, ∀ registered, env.lookUpOpDef d.op = some registered →
    d.validateNodeDef registered.opDef = .ok ()

theorem countInputs_le {seenControl : Bool} {k n : Nat}
    (h : nodeDef.countInputs inputs seenControl k = .ok n) : k ≤ n := by
  induction inputs generalizing seenControl k with
  | nil => exact Nat.le_of_eq (Except.ok.inj h)
  | cons input rest ih =>
    rw [Ops.NodeDef.countInputs] at h
    split_ifs at h
    · exact ih h
    · exact Nat.le_of_succ_le (ih h)

theorem countInputs_control {k n : Nat} (h : nodeDef.countInputs inputs true k = .ok n) :
    ∀ input ∈ inputs, isControlInput input = true := by
  induction inputs with
  | nil => simp
  | cons input rest ih =>
    rw [Ops.NodeDef.countInputs] at h
    split_ifs at h with hControl
    · rw [forall_mem_cons]
      exact ⟨hControl, ih h⟩
    · contradiction

variable {input : String}

theorem countInputs_slot {k n i : Nat} (h : nodeDef.countInputs inputs false k = .ok n)
    (hGet : inputs[i]? = some input) (hData : isControlInput input = false) : k + i < n := by
  induction inputs generalizing k i with
  | nil => cases hGet
  | cons first rest ih =>
    rw [Ops.NodeDef.countInputs] at h
    split_ifs at h with hControl
    · have hAll : ∀ input ∈ first :: rest, isControlInput input = true := by
        rw [forall_mem_cons]
        exact ⟨hControl, countInputs_control h⟩
      rw [hAll input (mem_of_getElem? hGet)] at hData
      cases hData
    · cases i with
      | zero => exact countInputs_le h
      | succ i =>
        have hRest := ih h hGet
        omega

section Named

variable (env : Environment R H) (opts : Options) (nodes : List Ops.NodeDef)

/-- The node that is made of the `NodeDef` with a name. -/
def nodeNamed (name : String) : Option Node :=
  (nodes.find? fun d => d.name = name).bind fun d => (makeNode env opts d).toOption

def namesMissing (r : InputRef) : Bool :=
  match nodeNamed env opts nodes (inputId r.input).1 with
  | none => false
  | some src => src.outputTypes.length ≤ inputIndex r.input

/-- What `MakeEdge` checks, which a control input does not reach. -/
def typesFit (r : InputRef) : Bool :=
  inputIndex r.input = kControlSlot ||
    match nodeNamed env opts nodes (inputId r.input).1, nodeNamed env opts nodes r.dst with
    | some src, some dst =>
      typesCompatible (inputType env dst r.slot) (outputType env src (inputIndex r.input))
    | _, _ => false

variable {env opts nodes}

theorem nodeNamed_of_mem (hNodup : (nodes.map Ops.NodeDef.name).Nodup) {d : Ops.NodeDef}
    (hMem : d ∈ nodes) : nodeNamed env opts nodes d.name = (makeNode env opts d).toOption := by
  have hFind : nodes.find? (fun d' => d'.name = d.name) = some d := by
    obtain ⟨d', hFound⟩ := Option.isSome_iff_exists.mp
      (find?_isSome.mpr ⟨d, hMem, by simp⟩ : (nodes.find? fun d' => d'.name = d.name).isSome)
    have hName : d'.name = d.name := by simpa using find?_some hFound
    have hEq : d' = d :=
      inj_on_of_nodup_map hNodup (mem_of_find?_eq_some hFound) hMem hName
    rw [hFound, hEq]
  rw [nodeNamed, hFind, Option.bind_some]

theorem toOption_eq_some {ε α : Type} {x : Except ε α} {a : α} :
    x.toOption = some a ↔ x = .ok a := by
  cases x <;> simp [Except.toOption]

theorem slot_lt (hNodup : (nodes.map Ops.NodeDef.name).Nodup) (hValidated : Validated env nodes)
    {d : Ops.NodeDef} (hMem : d ∈ nodes) (hRef : r ∈ inputRefs d)
    (hData : isControlInput r.input = false) {node : Node}
    (hNode : nodeNamed env opts nodes d.name = some node) : r.slot < node.inputTypes.length := by
  rw [nodeNamed_of_mem hNodup hMem, toOption_eq_some] at hNode
  simp only [makeNode, Fallible.bind_eq_ok] at hNode
  obtain ⟨registered, hLookUp, types, hTypes, hNode⟩ := hNode
  obtain rfl := Except.ok.inj hNode
  rw [Fallible.mapError_eq_ok] at hTypes
  have hFound : env.lookUpOpDef d.op = some registered := by
    unfold lookUp at hLookUp
    split at hLookUp
    · cases hLookUp
    · rename_i found hFound
      rw [hFound, Except.ok.inj hLookUp]
  have hValid := hValidated d hMem registered hFound
  simp only [Ops.NodeDef.validateNodeDef, Fallible.bind_eq_ok, Ops.validate_eq_ok,
    decide_eq_true_eq] at hValid
  obtain ⟨-, -, numInputs, hCount, -, -, -, -, -, -, types', hTypes', hLength⟩ := hValid
  obtain rfl : types = types' := Except.ok.inj (hTypes.symm.trans hTypes')
  obtain ⟨hGet, -⟩ := mem_inputRefs.mp hRef
  have hLt := countInputs_slot hCount hGet hData
  rw [Nat.zero_add, hLength] at hLt
  exact hLt

end Named

instance (inputs : List String) : Decidable (ControlLast inputs) :=
  inferInstanceAs (Decidable (Pairwise _ _))

def isTaken (taken : List Ops.NodeDef) (input : String) : Bool :=
  taken.any fun d => d.name = (inputId input).1

def earlyRefs (taken : List Ops.NodeDef) (nodeDef : Ops.NodeDef) : List InputRef :=
  (inputRefs nodeDef).filter fun r => isTaken taken r.input

def lateRefs (taken : List Ops.NodeDef) (nodeDef : Ops.NodeDef) : List InputRef :=
  (inputRefs nodeDef).filter fun r => !isTaken taken r.input

def putOff : List Ops.NodeDef → List Ops.NodeDef → List InputRef
  | _, [] => []
  | taken, nodeDef :: rest => lateRefs taken nodeDef ++ putOff (nodeDef :: taken) rest

def madeAs (nameIndex : List (String × NodeInfo)) (name : String) : Option Nat :=
  (nameIndex.lookup name).bind NodeInfo.node

variable {nameIndex : List (String × NodeInfo)}

theorem madeAs_setNode {name : String} {id : Nat} (hIndexed : name ∈ nameIndex.map Prod.fst)
    (other : String) :
    madeAs (nameIndex.map (setNode id name)) other =
      if other = name then some id else madeAs nameIndex other := by
  have hLookup : (nameIndex.map (setNode id name)).lookup other = (nameIndex.lookup other).map
      fun info => if other = name then ⟨info.gdefIndex, some id⟩ else info := by
    clear hIndexed
    induction nameIndex with
    | nil => rfl
    | cons entry rest ih =>
      obtain ⟨first, info⟩ := entry
      have hFirst : (setNode id name (first, info)).1 = first := by
        unfold setNode
        split <;> rfl
      rw [map_cons, lookup_cons, lookup_cons, hFirst, ih]
      cases hEq : other == first with
      | false => rfl
      | true =>
        obtain rfl := eq_of_beq hEq
        simp only [setNode]
        split <;> rfl
  unfold madeAs
  rw [hLookup]
  split
  · rename_i hEq
    subst hEq
    obtain ⟨info, hInfo⟩ : ∃ info, nameIndex.lookup other = some info := by
      obtain ⟨entry, hMem, hName⟩ := mem_map.mp hIndexed
      rw [← Option.isSome_iff_exists, lookup_isSome_iff]
      exact ⟨entry, hMem, by simp [hName]⟩
    simp [hInfo]
  · simp

section Round

variable (env : Environment R H) (opts : Options) (nodes : List Ops.NodeDef)

/-- The checks of a round, with those of `MakeEdge`. -/
def roundPasses (taken : List Ops.NodeDef) (nodeDef : Ops.NodeDef) : Bool :=
  decide (ControlLast nodeDef.input) && (nodeNamed env opts nodes nodeDef.name).isSome &&
    (earlyRefs taken nodeDef).all fun r =>
      !namesMissing env opts nodes r && typesFit env opts nodes r

def roundsPass : List Ops.NodeDef → List Ops.NodeDef → Bool
  | _, [] => true
  | taken, nodeDef :: rest =>
    roundPasses env opts nodes taken nodeDef && roundsPass (nodeDef :: taken) rest

structure PutOff (nameIndex : List (String × NodeInfo)) (e : EdgeInfo) (r : InputRef) : Prop where
  srcName : e.srcName = (inputId r.input).1
  srcIndex : e.srcIndex = inputIndex r.input
  dst : madeAs nameIndex r.dst = some e.dstNode
  slot : e.dstIndex = r.slot

/-- The nodes of `taken` are made and the edges of `refs` put off. -/
structure Placed (taken : List Ops.NodeDef) (refs : List InputRef) (s : State R) : Prop where
  node : ∀ name id, madeAs s.nameIndex name = some id →
    ∃ node, nodeNamed env opts nodes name = some node ∧ s.graph.node id = some node
  taken : ∀ name, (madeAs s.nameIndex name).isSome = true ↔ ∃ d ∈ taken, d.name = name
  late : List.Forall₂ (PutOff s.nameIndex) s.backEdges refs

variable {env opts nodes}
variable {taken : List Ops.NodeDef} {refs : List InputRef} {s : State R}

theorem infoOf_madeAs (nameIndex : List (String × NodeInfo)) (input : String) :
    (infoOf nameIndex input).node = madeAs nameIndex (inputId input).1 := rfl

namespace Placed

section

variable (h : Placed env opts nodes taken refs s)
include h

theorem isTaken_iff :
    isTaken taken input = (infoOf s.nameIndex input).node.isSome := by
  rw [infoOf_madeAs, Bool.eq_iff_iff, h.taken]
  simp [isTaken]

theorem source {src : Nat} (hSrc : (infoOf s.nameIndex input).node = some src) :
    ∃ srcNode, nodeNamed env opts nodes (inputId input).1 = some srcNode ∧
      s.graph.node src = some srcNode := h.node _ src hSrc

theorem outputExists_iff (hTaken : isTaken taken r.input) :
    OutputExists s.graph s.nameIndex r.input ↔ namesMissing env opts nodes r = false := by
  rw [h.isTaken_iff, Option.isSome_iff_exists] at hTaken
  obtain ⟨src, hSrc⟩ := hTaken
  obtain ⟨srcNode, hNamed, hNode⟩ := h.source hSrc
  simp only [OutputExists, hSrc, Option.bind_some, hNode, namesMissing, hNamed,
    decide_eq_false_iff_not]
  cases hKind : isControlInput r.input with
  | true =>
    simp only [inputIndex, hKind, if_true, kControlSlot, reduceCtorEq, false_implies, true_iff]
    omega
  | false => simp [inputIndex, hKind]

theorem outputsExist_iff :
    (∀ input ∈ nodeDef.input, OutputExists s.graph s.nameIndex input) ↔
      ∀ r ∈ earlyRefs taken nodeDef, namesMissing env opts nodes r = false := by
  constructor
  · intro hExist r hMem
    obtain ⟨hRef, hTaken⟩ := mem_filter.mp hMem
    exact (h.outputExists_iff hTaken).mp
      (hExist r.input (mem_of_getElem? (mem_inputRefs.mp hRef).1))
  · intro hNamed input hInput
    cases hTaken : isTaken taken input with
    | true =>
      obtain ⟨i, hGet⟩ := mem_iff_getElem?.mp hInput
      have hMem : ⟨nodeDef.name, i, input⟩ ∈ earlyRefs taken nodeDef :=
        mem_filter.mpr ⟨mem_inputRefs.mpr ⟨hGet, rfl⟩, hTaken⟩
      have hRef : isTaken taken (⟨nodeDef.name, i, input⟩ : InputRef).input = true := hTaken
      exact (h.outputExists_iff hRef).mpr (hNamed _ hMem)
    | false =>
      rw [h.isTaken_iff, Option.isSome_eq_false_iff, Option.isNone_iff_eq_none] at hTaken
      intro _ src hSrc
      rw [hTaken] at hSrc
      cases hSrc

theorem typed_iff {node : Node} (hNamed : nodeNamed env opts nodes dst = some node) {n : Nat} :
    (∀ e ∈ earlyEdges s.graph.numNodeIds (inputs.map (infoOf s.nameIndex)) n,
        Typed env (s.graph.allocateNode node) e) ↔
      ∀ r ∈ (inputRefsFrom dst inputs n).filter fun r => isTaken taken r.input,
        typesFit env opts nodes r := by
  induction inputs generalizing n with
  | nil => simp [earlyEdges, inputRefsFrom]
  | cons input rest ih =>
    rw [map_cons, earlyEdges, inputRefsFrom, filter_cons]
    simp only [h.isTaken_iff]
    simp only [h.isTaken_iff] at ih
    cases hSrc : (infoOf s.nameIndex input).node with
    | none =>
      exact ih
    | some src =>
      simp only [Option.isSome_some, if_true, forall_mem_cons]
      apply and_congr ?_ ih
      obtain ⟨srcNode, hSrcNamed, hSrcNode⟩ := h.source hSrc
      have hIndex : (infoOf s.nameIndex input).index = inputIndex input := rfl
      rw [hIndex]
      have hLive : src < s.graph.numNodeIds := (isNode_of_node hSrcNode).lt
      have hSrcOld : (s.graph.allocateNode node).node src = some srcNode :=
        (node_allocateNode_of_lt hLive).trans hSrcNode
      have hDstNew := node_allocateNode_self (g := s.graph) node
      by_cases hControl : inputIndex input = kControlSlot
      · have hFit : typesFit env opts nodes ⟨dst, n, input⟩ := by simp [typesFit, hControl]
        exact iff_of_true (typed_control hControl) hFit
      · have hTyped : Typed env (s.graph.allocateNode node)
            (slotEdge src (inputIndex input) s.graph.numNodeIds n) ↔
              typesCompatible (inputType env node n) (outputType env srcNode (inputIndex input)) =
                true := by
          rw [← @fits_slotEdge _ _ _ _ _ _ _ src s.graph.numNodeIds hControl]
          simp only [Typed, slotEdge_src, slotEdge_dst, hSrcOld, hDstNew]
          simp [hControl]
        rw [hTyped]
        simp [typesFit, hControl, hSrcNamed, hNamed]

theorem convertNode_iff (hImporting : opts.importing = false)
    (hNodup : (nodes.map Ops.NodeDef.name).Nodup) (hMem : nodeDef ∈ nodes)
    (hWaited : isMerge nodeDef = false → ∀ input ∈ nodeDef.input, isTaken taken input = true)
    (o : Nat) : (∃ s', convertNode env opts o nodeDef s = .ok s') ↔
      roundPasses env opts nodes taken nodeDef = true := by
  have hFronts : isMerge nodeDef = false → ∀ input ∈ nodeDef.input,
      isDataBackEdge s.graph s.nameIndex input = false := by
    intro hMerge input hInput
    have hTaken := hWaited hMerge input hInput
    rw [h.isTaken_iff, Option.isSome_iff_exists] at hTaken
    obtain ⟨src, hSrc⟩ := hTaken
    obtain ⟨srcNode, -, hNode⟩ := h.source hSrc
    exact isDataBackEdge_of_made hSrc (isNode_of_node hNode)
  simp only [convertNode_eq_ok hImporting, h.outputsExist_iff, roundPasses, Bool.and_eq_true,
    decide_eq_true_eq, all_eq_true, Bool.not_eq_true', nodeNamed_of_mem hNodup hMem]
  constructor
  · rintro ⟨s', hLast, hOutputs, -, node, hNode, hTyped, -⟩
    have hNamed : nodeNamed env opts nodes nodeDef.name = some node := by
      rw [nodeNamed_of_mem hNodup hMem, toOption_eq_some, hNode]
    refine ⟨⟨hLast, by simp [hNode, Except.toOption]⟩, ?_⟩
    intro r hRef
    exact ⟨hOutputs r hRef, (h.typed_iff hNamed).mp hTyped r hRef⟩
  · rintro ⟨⟨hLast, hSome⟩, hRefs⟩
    obtain ⟨node, hNode⟩ := Option.isSome_iff_exists.mp hSome
    have hNamed : nodeNamed env opts nodes nodeDef.name = some node := by
      rw [nodeNamed_of_mem hNodup hMem, hNode]
    rw [toOption_eq_some] at hNode
    exact ⟨_, hLast, fun r hRef => (hRefs r hRef).1, hFronts, node, hNode,
      (h.typed_iff hNamed).mpr fun r hRef => (hRefs r hRef).2, rfl⟩

theorem lateEdges_putOff {id : Nat} (hDst : madeAs nameIndex dst = some id) (inputs : List String)
    (n : Nat) :
    Forall₂ (PutOff nameIndex) (lateEdges id (inputs.map (infoOf s.nameIndex)) n)
      ((inputRefsFrom dst inputs n).filter fun r => !isTaken taken r.input) := by
  induction inputs generalizing n with
  | nil => exact .nil
  | cons input rest ih =>
    rw [map_cons, lateEdges, inputRefsFrom, filter_cons]
    simp only [h.isTaken_iff]
    simp only [h.isTaken_iff] at ih
    cases (infoOf s.nameIndex input).node with
    | none =>
      exact .cons ⟨rfl, rfl, hDst, rfl⟩ (ih (n + 1))
    | some src =>
      exact ih (n + 1)

theorem round (hImporting : opts.importing = false) (hNodup : (nodes.map Ops.NodeDef.name).Nodup)
    (hMem : nodeDef ∈ nodes) (hIndexed : nodeDef.name ∈ s.nameIndex.map Prod.fst)
    (hNew : madeAs s.nameIndex nodeDef.name = none) {o : Nat} {s' : State R}
    (hOk : convertNode env opts o nodeDef s = .ok s') :
    Placed env opts nodes (nodeDef :: taken) (refs ++ lateRefs taken nodeDef) s' := by
  obtain ⟨-, -, -, node, hNode, -, rfl⟩ := (convertNode_eq_ok hImporting).mp hOk
  have hMade := @madeAs_setNode _ _ s.graph.numNodeIds hIndexed
  constructor
  · intro name id hName
    rw [hMade] at hName
    simp only [addEdges_node]
    split at hName
    · rename_i hEq
      obtain rfl := Option.some.inj hName
      refine ⟨node, ?_, node_allocateNode_self node⟩
      rw [hEq, nodeNamed_of_mem hNodup hMem, hNode]
      rfl
    · obtain ⟨node', hNamed, hFound⟩ := h.node name id hName
      have hLive : id < s.graph.numNodeIds := (isNode_of_node hFound).lt
      exact ⟨node', hNamed, (node_allocateNode_of_lt hLive).trans hFound⟩
  · intro name
    simp only [hMade]
    split
    · rename_i hEq
      simp [hEq]
    · rename_i hNe
      rw [h.taken]
      simp [Ne.symm hNe]
  · apply rel_append
    · apply h.late.imp
      intro e r hPut
      refine ⟨hPut.srcName, hPut.srcIndex, ?_, hPut.slot⟩
      rw [hMade, if_neg]
      · exact hPut.dst
      · intro hEq
        have hDst := hPut.dst
        rw [hEq, hNew] at hDst
        cases hDst
    · apply h.lateEdges_putOff
      rw [hMade, if_pos rfl]

end

theorem addInputsCalls_inRange {g : Graph} {id : Nat} {dstNode : Node}
    (hDst : g.node id = some dstNode) {infos : List InputInfo} {i : Nat} {s : State R}
    (hSame : ∀ id, s.graph.node id = g.node id)
    (hRange : ∀ (k : Nat) (info : InputInfo), infos[k]? = some info →
      info.index ≠ kControlSlot → i + k < dstNode.inputTypes.length ∧
        ∀ src, info.node = some src →
          ∃ srcNode, g.node src = some srcNode ∧ info.index < srcNode.outputTypes.length) :
    ∀ c ∈ addInputsCalls env id infos i s, c.InRange := by
  induction infos generalizing i s with
  | nil => simp [addInputsCalls]
  | cons info rest ih =>
    have hRest : ∀ (k : Nat) (info : InputInfo), rest[k]? = some info →
        info.index ≠ kControlSlot → i + 1 + k < dstNode.inputTypes.length ∧
          ∀ src, info.node = some src →
            ∃ srcNode, g.node src = some srcNode ∧ info.index < srcNode.outputTypes.length := by
      intro k info' hGet hData
      obtain ⟨hSlot, hOutput⟩ := hRange (k + 1) info' hGet hData
      exact ⟨by omega, hOutput⟩
    rw [addInputsCalls]
    cases hSrc : info.node with
    | none => exact ih hSame hRest
    | some src =>
      simp only
      split
      · apply ih ?_ hRest
        intro id
        simp [addControlEdge, hSame]
      · rename_i hData
        obtain ⟨hSlot, hOutput⟩ := hRange 0 info rfl hData
        obtain ⟨srcNode, hSrcNode, hLt⟩ := hOutput src hSrc
        rw [forall_mem_cons]
        constructor
        · exact ⟨src, srcNode, dstNode, rfl, (hSame src).trans hSrcNode, hLt,
            (hSame id).trans hDst, hSlot⟩
        · split
          · rename_i t hMake
            obtain ⟨-, rfl⟩ := (makeEdge_eq_ok hData).mp hMake
            apply ih ?_ hRest
            intro id
            simp [hSame]
          · simp

theorem convertNodeStart_eq_ok (hImporting : opts.importing = false) {start : List InputInfo × Node}
    (hOk : convertNodeStart env opts nodeDef s = .ok start) :
    (∀ input ∈ nodeDef.input, OutputExists s.graph s.nameIndex input) ∧
      makeNode env opts nodeDef = .ok start.2 ∧
      start.1 = nodeDef.input.map (infoOf s.nameIndex) := by
  have hDef : importedNodeDef env opts nodeDef = .ok nodeDef := by
    rw [importedNodeDef, hImporting]
    rfl
  simp only [convertNodeStart, Fallible.bind_eq_ok, orFail_eq_ok, collectInputs_eq_ok, hDef] at hOk
  obtain ⟨-, -, collected, ⟨-, -, hOutputs, rfl⟩, -, -, imported, hImported, node, hNode, hEq⟩ :=
    hOk
  obtain rfl := Except.ok.inj hImported
  obtain rfl := Except.ok.inj hEq
  exact ⟨hOutputs, hNode, rfl⟩

theorem convertNodeCalls_inRange (h : Placed env opts nodes taken refs s)
    (hImporting : opts.importing = false) (hNodup : (nodes.map Ops.NodeDef.name).Nodup)
    (hValidated : Validated env nodes) (hMem : nodeDef ∈ nodes) :
    ∀ c ∈ convertNodeCalls env opts nodeDef s, c.InRange := by
  unfold convertNodeCalls
  split
  · simp
  · rename_i infos node hStart
    obtain ⟨hOutputs, hNode, hInfos⟩ := convertNodeStart_eq_ok hImporting hStart
    subst hInfos
    have hNamed : nodeNamed env opts nodes nodeDef.name = some node := by
      rw [nodeNamed_of_mem hNodup hMem, toOption_eq_some, hNode]
    apply addInputsCalls_inRange (node_allocateNode_self node) fun _ => rfl
    intro k info hGet hData
    rw [getElem?_map, Option.map_eq_some_iff] at hGet
    obtain ⟨input, hInput, rfl⟩ := hGet
    have hKind : isControlInput input = false := by
      cases hKind : isControlInput input with
      | false => rfl
      | true =>
        refine absurd ?_ hData
        simp [infoOf, hKind]
    have hRef : ⟨nodeDef.name, k, input⟩ ∈ inputRefs nodeDef := mem_inputRefs.mpr ⟨hInput, rfl⟩
    constructor
    · rw [Nat.zero_add]
      exact slot_lt hNodup hValidated hMem hRef hKind hNamed
    · intro src hSrc
      obtain ⟨srcNode, -, hSrcNode⟩ := h.source hSrc
      have hLive : src < s.graph.numNodeIds := (isNode_of_node hSrcNode).lt
      refine ⟨srcNode, (node_allocateNode_of_lt hLive).trans hSrcNode, ?_⟩
      have hExists := hOutputs input (mem_of_getElem? hInput) hKind srcNode (by
        rw [hSrc, Option.bind_some, hSrcNode])
      simpa [infoOf, hKind] using hExists

end Placed

end Round

end TensorFlowOnSpark.Construction
