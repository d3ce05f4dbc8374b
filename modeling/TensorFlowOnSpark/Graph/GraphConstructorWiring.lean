import TensorFlowOnSpark.Graph.GraphConstructorIndex

/-!
# The edges that a conversion makes

A round adds the edges from the inputs whose nodes are made and puts the others off.
-/

namespace TensorFlowOnSpark.Construction

open Ops Fallible List Option Nat

variable {R H : Type} {env : Environment R H} {opts : Options}

variable {nodeDef : Ops.NodeDef} {g : Graph} {e : Edge} {src dst i : Nat} {index : Int}
variable {s s' : State R} {at_ : String → Nat}

theorem makeNode_nodeDef {node : Node} (h : makeNode env opts nodeDef = .ok node) :
    node.nodeDef = nodeDef := by
  simp only [makeNode, Fallible.bind_eq_ok] at h
  obtain ⟨registered, -, types, -, hNode⟩ := h
  rw [← Except.ok.inj hNode]

def Fits (env : Environment R H) (src dst : Node) (e : Edge) : Prop :=
  typesCompatible (inputType env dst e.dstInput.toNat) (outputType env src e.srcOutput)

def Typed (env : Environment R H) (g : Graph) (e : Edge) : Prop :=
  e.srcOutput ≠ kControlSlot →
    ∃ src dst, g.node e.src = some src ∧ g.node e.dst = some dst ∧ Fits env src dst e

theorem Typed.congr {g' : Graph} (h : Typed env g e)
    (hSame : ∀ id, g.IsNode id → g'.node id = g.node id) : Typed env g' e := by
  intro hData
  obtain ⟨src, dst, hSrc, hDst, hFits⟩ := h hData
  refine ⟨src, dst, ?_, ?_, hFits⟩
  · rw [hSame _ (Graph.isNode_of_node hSrc), hSrc]
  · rw [hSame _ (Graph.isNode_of_node hDst), hDst]

/-- The edge into slot `i` of `dst`, where a control edge has no slots. -/
def slotEdge (src : Nat) (index : Int) (dst i : Nat) : Edge :=
  if index = kControlSlot then ⟨src, kControlSlot, dst, kControlSlot⟩ else ⟨src, index, dst, i⟩

@[simp] theorem slotEdge_src (src : Nat) (index : Int) (dst i : Nat) :
    (slotEdge src index dst i).src = src := by
  unfold slotEdge
  split <;> rfl

@[simp] theorem slotEdge_dst (src : Nat) (index : Int) (dst i : Nat) :
    (slotEdge src index dst i).dst = dst := by
  unfold slotEdge
  split <;> rfl

@[simp] theorem slotEdge_srcOutput (src : Nat) (index : Int) (dst i : Nat) :
    (slotEdge src index dst i).srcOutput = index := by
  unfold slotEdge
  split
  · exact Eq.symm ‹_›
  · rfl

theorem fits_slotEdge {src dst : Node} {id id' : Nat} (hData : index ≠ kControlSlot) :
    Fits env src dst (slotEdge id index id' i) ↔
      typesCompatible (inputType env dst i) (outputType env src index) := by
  have hEdge : slotEdge id index id' i = ⟨id, index, id', i⟩ := if_neg hData
  rw [hEdge]
  rfl

theorem checkTypes_eq_ok (hData : index ≠ kControlSlot) :
    checkTypes env g src index dst i = .ok () ↔ Typed env g (slotEdge src index dst i) := by
  have hEdge : slotEdge src index dst i = ⟨src, index, dst, i⟩ := if_neg hData
  rw [hEdge]
  unfold checkTypes Typed Fits
  cases g.node src with
  | none => simp [hData]
  | some srcNode =>
    cases g.node dst with
    | none => simp [hData]
    | some dstNode =>
      simp only [Int.toNat_natCast]
      split
      · simp [*]
      · rename_i hNot
        have hFails : ∀ (x : Except Error String) (f : String → Except Error String)
            (g : String → String → Error),
            ¬((do let a ← x; let b ← f a; (.error (g a b) : Except Error Unit)) = .ok ()) := by
          intro x f g
          simp [Fallible.bind_eq_ok]
        constructor
        · intro h
          exact absurd h (hFails _ (fun _ => _) fun a b => _)
        · intro h
          obtain ⟨_, _, hSrc, hDst, hFits⟩ := h hData
          obtain rfl := Option.some.inj hSrc
          obtain rfl := Option.some.inj hDst
          exact absurd hFits hNot

theorem addEdge_of_slot :
    g.addEdge (slotEdge src index dst i) =
      if index = kControlSlot then g.addControlEdge src dst
      else g.addEdge ⟨src, index, dst, i⟩ := by
  unfold slotEdge
  split <;> rfl

def earlyEdges (id : Nat) : List InputInfo → Nat → List Edge
  | [], _ => []
  | input :: rest, i =>
    match input.node with
    | none => earlyEdges id rest (i + 1)
    | some src => slotEdge src input.index id i :: earlyEdges id rest (i + 1)

def lateEdges (id : Nat) : List InputInfo → Nat → List EdgeInfo
  | [], _ => []
  | input :: rest, i =>
    match input.node with
    | none => ⟨input.name, input.index, id, i⟩ :: lateEdges id rest (i + 1)
    | some _ => lateEdges id rest (i + 1)

def addEdges (g : Graph) (edges : List Edge) : Graph := edges.foldl Graph.addEdge g

@[simp] theorem addEdges_node (g : Graph) (edges : List Edge) (id : Nat) :
    (addEdges g edges).node id = g.node id := by
  unfold addEdges
  induction edges generalizing g with
  | nil => rfl
  | cons e rest ih => rw [foldl_cons, ih, Graph.node_addEdge]

theorem addEdges_nodes (g : Graph) (edges : List Edge) : (addEdges g edges).nodes = g.nodes := by
  unfold addEdges
  induction edges generalizing g with
  | nil => rfl
  | cons e rest ih => rw [foldl_cons, ih, Graph.addEdge_nodes]

theorem addEdges_versions (g : Graph) (edges : List Edge) :
    (addEdges g edges).versions = g.versions := by
  unfold addEdges
  induction edges generalizing g with
  | nil => rfl
  | cons e rest ih => rw [foldl_cons, ih, Graph.addEdge_versions]

theorem addEdges_edges {edges : List Edge} (h : ∀ e ∈ edges, g.IsNode e.src ∧ g.IsNode e.dst) :
    (addEdges g edges).edges = g.edges ++ edges := by
  unfold addEdges
  induction edges generalizing g with
  | nil => simp
  | cons e rest ih =>
    rw [forall_mem_cons] at h
    rw [foldl_cons, ih, Graph.addEdge_edges h.1.1 h.1.2, append_assoc, singleton_append]
    intro e' hMem
    simpa [Graph.isNode_iff] using h.2 e' hMem

theorem makeEdge_eq_ok (hData : index ≠ kControlSlot) : makeEdge env src index dst i s = .ok s' ↔
      Typed env s.graph (slotEdge src index dst i) ∧
        s' = { s with graph := s.graph.addEdge (slotEdge src index dst i) } := by
  simp only [makeEdge, Fallible.bind_eq_ok, orFail_eq_ok, exists_unit, checkTypes_eq_ok hData,
    Except.ok.injEq, addEdge_of_slot, if_neg hData]
  exact and_congr_right fun _ => eq_comm

theorem typed_addEdge {e' : Edge} : Typed env (g.addEdge e') e ↔ Typed env g e := by
  simp [Typed]

theorem typed_control (hControl : index = kControlSlot) :
    Typed env g (slotEdge src index dst i) := by
  intro hData
  exact absurd ((slotEdge_srcOutput src index dst i).trans hControl) hData

theorem addInputs_eq_ok {id : Nat} {infos : List InputInfo} :
    addInputs env id infos i s = .ok s' ↔
      (∀ e ∈ earlyEdges id infos i, Typed env s.graph e) ∧
      s' = { s with
        graph := addEdges s.graph (earlyEdges id infos i)
        backEdges := s.backEdges ++ lateEdges id infos i } := by
  induction infos generalizing i s with
  | nil =>
    simp only [addInputs, earlyEdges, lateEdges, append_nil, not_mem_nil, false_implies,
      implies_true, true_and, Except.ok.injEq]
    exact eq_comm
  | cons info rest ih =>
    rw [addInputs, earlyEdges, lateEdges]
    cases info.node with
    | none => simp [ih]
    | some src =>
      simp only [forall_mem_cons, addEdges, foldl_cons]
      split
      · rename_i hControl
        rw [ih, addEdge_of_slot, if_pos hControl]
        simp only [typed_control hControl, true_and, Graph.addControlEdge, typed_addEdge, addEdges]
      · rename_i hData
        simp only [Fallible.bind_eq_ok, makeEdge_eq_ok hData, ih]
        constructor
        · rintro ⟨t, ⟨hTyped, rfl⟩, hRest, rfl⟩
          exact ⟨⟨hTyped, fun e hMem => typed_addEdge.mp (hRest e hMem)⟩, rfl⟩
        · rintro ⟨⟨hTyped, hRest⟩, rfl⟩
          exact ⟨_, ⟨hTyped, rfl⟩, fun e hMem => typed_addEdge.mpr (hRest e hMem), rfl⟩

variable {o : Nat}

theorem convertNode_eq_ok (hImporting : opts.importing = false) :
    convertNode env opts o nodeDef s = .ok s' ↔
      ControlLast nodeDef.input ∧
      (∀ input ∈ nodeDef.input, OutputExists s.graph s.nameIndex input) ∧
      (isMerge nodeDef = false →
        ∀ input ∈ nodeDef.input, isDataBackEdge s.graph s.nameIndex input = false) ∧
      ∃ node, makeNode env opts nodeDef = .ok node ∧
        (∀ e ∈ earlyEdges s.graph.numNodeIds (nodeDef.input.map (infoOf s.nameIndex)) 0,
          Typed env (s.graph.allocateNode node) e) ∧
        s' = { s with
          graph := addEdges (s.graph.allocateNode node)
            (earlyEdges s.graph.numNodeIds (nodeDef.input.map (infoOf s.nameIndex)) 0)
          nameIndex := s.nameIndex.map (setNode s.graph.numNodeIds nodeDef.name)
          backEdges := s.backEdges ++
            lateEdges s.graph.numNodeIds (nodeDef.input.map (infoOf s.nameIndex)) 0
          work := Countdown.signals s.work (s.outputs.getD o []) } := by
  have hColocated : ∀ names, validateColocationConstraints opts nodeDef names = .ok () := by
    intro names
    rw [validateColocationConstraints, hImporting]
    rfl
  have hDef : importedNodeDef env opts nodeDef = .ok nodeDef := by
    rw [importedNodeDef, hImporting]
    rfl
  have hShape : ∀ id node (t : State R), validateShape env opts id node t = .ok t := by
    intro id node t
    rw [validateShape, hImporting]
    rfl
  have hBack : (!((nodeDef.input.any (isDataBackEdge s.graph s.nameIndex)) && !isMerge nodeDef)) =
      true ↔ (isMerge nodeDef = false →
        ∀ input ∈ nodeDef.input, isDataBackEdge s.graph s.nameIndex input = false) := by
    cases isMerge nodeDef <;> simp
  simp only [convertNode, Fallible.bind_eq_ok, orFail_eq_ok, hColocated, hDef, hShape, check_eq_ok,
    exists_unit, collectInputs_eq_ok, Except.ok.injEq, exists_eq_left', true_and, addInputs_eq_ok,
    Bool.false_eq_true, false_implies]
  constructor
  · rintro ⟨collected, ⟨hLast, hOutputs, rfl⟩, hMerge, node, hNode, t, ⟨hTyped, rfl⟩, rfl⟩
    exact ⟨hLast, hOutputs, hBack.mp hMerge, node, hNode, hTyped, rfl⟩
  · rintro ⟨hLast, hOutputs, hMerge, node, hNode, hTyped, rfl⟩
    exact ⟨_, ⟨hLast, hOutputs, rfl⟩, hBack.mpr hMerge, node, hNode, _, ⟨hTyped, rfl⟩, rfl⟩

/-- `kControlSlot` where the input is a control input. -/
def inputIndex (input : String) : Int :=
  if isControlInput input then kControlSlot else (inputId input).2

/-- The edge from an input, when `at_` gives the node of each name. -/
def inputEdge (at_ : String → Nat) (dst : String) (i : Nat) (input : String) : Edge :=
  slotEdge (at_ (inputId input).1) (inputIndex input) (at_ dst) i

def inputEdgesFrom (at_ : String → Nat) (dst : String) : List String → Nat → List Edge
  | [], _ => []
  | input :: rest, i => inputEdge at_ dst i input :: inputEdgesFrom at_ dst rest (i + 1)

def inputEdges (at_ : String → Nat) (nodeDef : Ops.NodeDef) : List Edge :=
  inputEdgesFrom at_ nodeDef.name nodeDef.input 0

def lateEdge (at_ : String → Nat) (e : EdgeInfo) : Edge :=
  slotEdge (at_ e.srcName) e.srcIndex e.dstNode e.dstIndex

/-- `at_` gives the nodes that are made. -/
def Locates (nameIndex : List (String × NodeInfo)) (at_ : String → Nat) : Prop :=
  ∀ name id, (nameIndex.lookup name).bind NodeInfo.node = some id → at_ name = id

theorem early_late_perm {nameIndex : List (String × NodeInfo)}
    (hAt : Locates nameIndex at_) (dst : String) (inputs : List String) (i : Nat) :
    (earlyEdges (at_ dst) (inputs.map (infoOf nameIndex)) i ++
      (lateEdges (at_ dst) (inputs.map (infoOf nameIndex)) i).map (lateEdge at_)).Perm
    (inputEdgesFrom at_ dst inputs i) := by
  induction inputs generalizing i with
  | nil => exact .refl _
  | cons input rest ih =>
    rw [map_cons, earlyEdges, lateEdges]
    cases hNode : (infoOf nameIndex input).node with
    | none => exact perm_middle.trans ((ih (i + 1)).cons _)
    | some src =>
      have hSrc : at_ (inputId input).1 = src := hAt _ _ hNode
      have hEdge : slotEdge src (infoOf nameIndex input).index (at_ dst) i =
          inputEdge at_ dst i input := by
        rw [inputEdge, hSrc]
        rfl
      simp only [hEdge]
      exact (ih (i + 1)).cons _

variable {n : Nat}

theorem mem_inputEdgesFrom {dst : String} {inputs : List String} :
    e ∈ inputEdgesFrom at_ dst inputs n ↔
      ∃ i input, inputs[i]? = some input ∧ e = inputEdge at_ dst (n + i) input := by
  induction inputs generalizing n with
  | nil => simp [inputEdgesFrom]
  | cons input rest ih =>
    rw [inputEdgesFrom, mem_cons, ih]
    constructor
    · rintro (rfl | ⟨i, input', hGet, rfl⟩)
      · exact ⟨0, input, rfl, rfl⟩
      · exact ⟨i + 1, input', hGet, by rw [Nat.add_right_comm, add_assoc]⟩
    · rintro ⟨i, input', hGet, rfl⟩
      cases i with
      | zero =>
        obtain rfl : input = input' := some.inj hGet
        exact Or.inl rfl
      | succ i => exact Or.inr ⟨i, input', hGet, by rw [Nat.add_right_comm, add_assoc]⟩

theorem mem_inputEdges :
    e ∈ inputEdges at_ nodeDef ↔
      ∃ i input, nodeDef.input[i]? = some input ∧ e = inputEdge at_ nodeDef.name i input := by
  rw [inputEdges, mem_inputEdgesFrom]
  simp only [Nat.zero_add]

@[simp] theorem inputEdge_src (at_ : String → Nat) (dst : String) (i : Nat) (input : String) :
    (inputEdge at_ dst i input).src = at_ (inputId input).1 := slotEdge_src ..

@[simp] theorem inputEdge_dst (at_ : String → Nat) (dst : String) (i : Nat) (input : String) :
    (inputEdge at_ dst i input).dst = at_ dst := slotEdge_dst ..

@[simp] theorem inputEdge_srcOutput (at_ : String → Nat) (dst : String) (i : Nat)
    (input : String) : (inputEdge at_ dst i input).srcOutput = inputIndex input :=
  slotEdge_srcOutput ..

theorem addBackEdges_eq_ok {edges : List EdgeInfo} (hAt : Locates s.nameIndex at_) :
    addBackEdges env edges s = .ok s' ↔
      (∀ e ∈ edges, ((s.nameIndex.lookup e.srcName).bind NodeInfo.node).isSome = true ∧
        Typed env s.graph (lateEdge at_ e)) ∧
      s' = { s with graph := addEdges s.graph (edges.map (lateEdge at_)) } := by
  induction edges generalizing s with
  | nil =>
    simp only [addBackEdges, not_mem_nil, false_implies, implies_true, true_and, Except.ok.injEq]
    exact eq_comm
  | cons e rest ih =>
    rw [addBackEdges, forall_mem_cons, map_cons]
    cases hNode : (s.nameIndex.lookup e.srcName).bind NodeInfo.node with
    | none => simp
    | some src =>
      have hSrc : at_ e.srcName = src := hAt _ _ hNode
      simp only [Option.isSome_some, true_and, lateEdge, hSrc, addEdges, foldl_cons]
      split
      · rename_i hControl
        rw [ih (s := { s with graph := s.graph.addControlEdge src e.dstNode }) hAt,
          addEdge_of_slot, if_pos hControl]
        simp only [typed_control hControl, true_and, Graph.addControlEdge, typed_addEdge, addEdges,
          lateEdge]
      · rename_i hData
        simp only [Fallible.bind_eq_ok, makeEdge_eq_ok hData]
        constructor
        · rintro ⟨t, ⟨hTyped, rfl⟩, hRest⟩
          obtain ⟨hLate, rfl⟩ := (ih (s := { s with
            graph := s.graph.addEdge (slotEdge src e.srcIndex e.dstNode e.dstIndex) }) hAt).mp hRest
          exact ⟨⟨hTyped, fun e hMem => ⟨(hLate e hMem).1, typed_addEdge.mp (hLate e hMem).2⟩⟩, rfl⟩
        · rintro ⟨⟨hTyped, hLate⟩, rfl⟩
          refine ⟨_, ⟨hTyped, rfl⟩, (ih (s := { s with
            graph := s.graph.addEdge (slotEdge src e.srcIndex e.dstNode e.dstIndex) }) hAt).mpr
              ⟨?_, rfl⟩⟩
          intro e hMem
          exact ⟨(hLate e hMem).1, typed_addEdge.mpr (hLate e hMem).2⟩

open Function Construction.Graph

theorem countP_or_of_disjoint {α : Type} {p q : α → Bool} {xs : List α}
    (h : ∀ x, p x → q x = false) :
    xs.countP (fun x => p x || q x) = xs.countP p + xs.countP q := by
  induction xs with
  | nil => rfl
  | cons x rest ih =>
    rw [countP_cons, countP_cons, countP_cons]
    cases hp : p x with
    | true =>
      simp [h x hp]
      omega
    | false =>
      simp only [Bool.false_or, Bool.false_eq_true, if_false]
      omega

theorem count_outputsOf (nodes : List Ops.NodeDef) (o i : Nat) : (outputsOf nodes o).count i =
    (nodes[i]?.map fun d => d.input.countP (namesNode nodes o)).getD 0 := by
  have hGeneral : ∀ (rest : List Ops.NodeDef) (n : Nat),
      ((rest.zipIdx n).flatMap fun entry =>
        List.replicate (entry.1.input.countP (namesNode nodes o)) entry.2).count i =
      if n ≤ i then (rest[i - n]?.map fun d => d.input.countP (namesNode nodes o)).getD 0 else
        0 := by
    intro rest
    induction rest with
    | nil => simp
    | cons d rest ih =>
      intro n
      rw [zipIdx_cons, flatMap_cons, count_append, ih, count_replicate]
      by_cases hEq : n = i
      · subst hEq
        rw [if_neg (Nat.not_succ_le_self _)]
        simp
      · have hBeq : (n == i) = false := beq_eq_false_iff_ne.mpr hEq
        rw [hBeq]
        by_cases hLe : n + 1 ≤ i
        · have hSub : i - n = i - (n + 1) + 1 := by omega
          rw [if_pos hLe, if_pos (show n ≤ i by omega), hSub]
          simp
        · rw [if_neg hLe, if_neg (show ¬n ≤ i by omega)]
          simp
  simpa [outputsOf] using hGeneral nodes 0

section Counts

variable {nodes : List Ops.NodeDef} (hNodup : (nodes.map Ops.NodeDef.name).Nodup)
include hNodup

theorem namesNode_unique {o o' : Nat} {input : String} (h : namesNode nodes o input)
    (h' : namesNode nodes o' input) : o = o' := by
  obtain ⟨d, hGet, hName⟩ := namesNode_iff.mp h
  obtain ⟨d', hGet', hName'⟩ := namesNode_iff.mp h'
  exact name_inj hNodup hGet hGet' (hName.trans hName'.symm)

theorem count_done {done : List Nat} (hDone : done.Nodup) {i : Nat} {d : Ops.NodeDef}
    (hGet : nodes[i]? = some d) : (done.flatMap (tasksOf nodes).outputs).count i =
      d.input.countP fun input => done.any fun o => namesNode nodes o input := by
  induction done with
  | nil => simp
  | cons o rest ih =>
    obtain ⟨hNew, hRest⟩ := nodup_cons.mp hDone
    have hDisjoint : ∀ input, namesNode nodes o input = true →
        (rest.any fun o' => namesNode nodes o' input) = false := by
      intro input hNames
      rw [Bool.eq_false_iff]
      intro hAny
      obtain ⟨o', hMem, hNames'⟩ := List.any_eq_true.mp hAny
      rw [namesNode_unique hNodup hNames hNames'] at hNew
      exact hNew hMem
    have hOutputs : ((tasksOf nodes).outputs o).count i = d.input.countP (namesNode nodes o) := by
      have hCount := count_outputsOf nodes o i
      rw [hGet] at hCount
      exact hCount
    rw [flatMap_cons, count_append, ih hRest, hOutputs, ← countP_or_of_disjoint hDisjoint]
    simp only [any_cons]

theorem inputs_done {done : List Nat} (hDone : done.Nodup) {i : Nat} {d : Ops.NodeDef}
    (hGet : nodes[i]? = some d) (hMerge : isMerge d = false)
    (hStarted : Countdown.Started (tasksOf nodes) (done.flatMap (tasksOf nodes).outputs) i) :
    ∀ input ∈ d.input, ∃ o ∈ done, namesNode nodes o input = true := by
  rcases hStarted with hStart | ⟨-, hNeed⟩
  · obtain ⟨d', hGet', hEmpty⟩ := mem_start.mp hStart
    obtain rfl : d = d' := some.inj (hGet.symm.trans hGet')
    simp [hEmpty]
  · have hLength : (tasksOf nodes).need i = d.input.length := by
      simp [tasksOf, hGet, pendingCount, hMerge]
    rw [hLength, count_done hNodup hDone hGet] at hNeed
    have hAll := countP_eq_length.mp
      (Nat.le_antisymm countP_le_length (by exact_mod_cast hNeed))
    intro input hMem
    exact List.any_eq_true.mp (hAll input hMem)

end Counts

variable {nodes : List Ops.NodeDef} {made : Nat → Option Nat} {id i : Nat}

theorem lookup_node (hNodup : (nodes.map Ops.NodeDef.name).Nodup) {name : String} :
    ((indexWith nodes made 0).lookup name).bind NodeInfo.node = some id ↔
      ∃ i d, nodes[i]? = some d ∧ d.name = name ∧ made i = some id := by
  rw [bind_eq_some_iff]
  constructor
  · rintro ⟨info, hLookup, hNode⟩
    obtain ⟨d, hGet, hName, hMade⟩ := (lookup_indexWith hNodup).mp hLookup
    exact ⟨info.gdefIndex, d, hGet, hName, hMade ▸ hNode⟩
  · rintro ⟨i, d, hGet, hName, hMade⟩
    exact ⟨⟨i, made i⟩, (lookup_indexWith hNodup).mpr ⟨d, hGet, hName, rfl⟩, hMade⟩

/-- The edges that the inputs of the node at `i` spell. -/
def edgesAt (nodes : List Ops.NodeDef) (at_ : String → Nat) (i : Nat) : List Edge :=
  (nodes[i]?.map (inputEdges at_)).getD []

/-- What has been built from `g₀` when the nodes of `done` are made. -/
structure Wired (env : Environment R H) (opts : Options) (nodes : List Ops.NodeDef) (g₀ : Graph)
    (done : List Nat) (made : Nat → Option Nat) (s : State R) : Prop where
  grows : g₀.numNodeIds ≤ s.graph.numNodeIds
  fresh : ∀ i id, made i = some id → g₀.numNodeIds ≤ id
  inj : ∀ i j id, made i = some id → made j = some id → i = j
  node : ∀ i id, made i = some id → ∃ d node, nodes[i]? = some d ∧
    makeNode env opts d = .ok node ∧ s.graph.node id = some node
  old : ∀ id < g₀.numNodeIds, s.graph.node id = g₀.node id
  only : ∀ id, g₀.numNodeIds ≤ id → s.graph.IsNode id → ∃ i, made i = some id
  edges : ∀ at_, Locates s.nameIndex at_ →
    (s.graph.edges ++ s.backEdges.map (lateEdge at_)).Perm
      (g₀.edges ++ done.flatMap (edgesAt nodes at_))
  typed : ∀ e ∈ s.graph.edges, Typed env s.graph e
  late : ∀ e ∈ s.backEdges, ∃ i d input, nodes[i]? = some d ∧ made i = some e.dstNode ∧
    d.input[e.dstIndex]? = some input ∧ e.srcName = (inputId input).1 ∧
    e.srcIndex = inputIndex input
  forward : ∀ i id, made i = some id → ∀ d, nodes[i]? = some d → isMerge d = false →
    ∀ input ∈ d.input, ∃ j id', namesNode nodes j input = true ∧ made j = some id' ∧ id' < id
  ordered : ∀ i id, made i = some id → ∀ d, nodes[i]? = some d → ControlLast d.input
  versions : s.graph.versions = g₀.versions

variable {g₀ : Graph}

theorem Wired.initial {s : State R} (hGraph : s.graph = g₀) (hBack : s.backEdges = [])
    (hTyped : ∀ e ∈ g₀.edges, Typed env g₀ e) : Wired env opts nodes g₀ [] (fun _ => none) s := by
  subst hGraph
  constructor
  · exact Nat.le_refl _
  · simp
  · simp
  · simp
  · intro id _
    rfl
  · intro id hGe hLive
    exact absurd hLive.lt (Nat.not_lt_of_le hGe)
  · simp [hBack]
  · exact hTyped
  · simp [hBack]
  · simp
  · simp
  · rfl

variable {infos : List InputInfo}

theorem mem_earlyEdges {e : Edge} (h : e ∈ earlyEdges id infos n)
    : ∃ i info src, infos[i]? = some info ∧
      info.node = some src ∧ e = slotEdge src info.index id (n + i) := by
  induction infos generalizing n with
  | nil => cases h
  | cons info rest ih =>
    have hRest : e ∈ earlyEdges id rest (n + 1) → ∃ i info' src, (info :: rest)[i]? = some info' ∧
        info'.node = some src ∧ e = slotEdge src info'.index id (n + i) := by
      intro hMem
      obtain ⟨i, info', src, hGet, hSrc, rfl⟩ := ih hMem
      exact ⟨i + 1, info', src, hGet, hSrc, by rw [Nat.add_right_comm, add_assoc]⟩
    rw [earlyEdges] at h
    cases hNode : info.node with
    | none =>
      rw [hNode] at h
      exact hRest h
    | some src =>
      rw [hNode] at h
      rcases mem_cons.mp h with rfl | hMem
      · exact ⟨0, info, src, rfl, hNode, rfl⟩
      · exact hRest hMem

theorem mem_lateEdges {e : EdgeInfo} (h : e ∈ lateEdges id infos n)
    : ∃ i info, infos[i]? = some info ∧
      e = ⟨info.name, info.index, id, n + i⟩ := by
  induction infos generalizing n with
  | nil => cases h
  | cons info rest ih =>
    have hRest : e ∈ lateEdges id rest (n + 1) → ∃ i info', (info :: rest)[i]? = some info' ∧
        e = ⟨info'.name, info'.index, id, n + i⟩ := by
      intro hMem
      obtain ⟨i, info', hGet, rfl⟩ := ih hMem
      exact ⟨i + 1, info', hGet, by rw [Nat.add_right_comm, add_assoc]⟩
    rw [lateEdges] at h
    cases hNode : info.node with
    | none =>
      rw [hNode] at h
      rcases mem_cons.mp h with rfl | hMem
      · exact ⟨0, info, rfl, rfl⟩
      · exact hRest hMem
    | some src =>
      rw [hNode] at h
      exact hRest h

theorem regroup {α : Type} {as bs cs ds new early late : List α} (h : (as ++ bs).Perm (cs ++ ds))
    (hNew : (early ++ late).Perm new) : (as ++ early ++ (bs ++ late)).Perm (cs ++ (new ++ ds)) := by
  have hLeft : (as ++ early ++ (bs ++ late)).Perm (as ++ bs ++ (early ++ late)) := by
    rw [append_assoc, append_assoc]
    exact (perm_append_comm_assoc early bs late).append_left as
  have hRight : (cs ++ ds ++ new).Perm (cs ++ (new ++ ds)) := by
    rw [append_assoc]
    exact perm_append_comm.append_left cs
  exact hLeft.trans ((h.append hNew).trans hRight)

theorem update_made {new : Nat} (h : update made o (some new) i = some id) :
    i = o ∧ id = new ∨ i ≠ o ∧ made i = some id := by
  by_cases hEq : i = o
  · subst hEq
    rw [update_self] at h
    exact Or.inl ⟨rfl, (some.inj h).symm⟩
  · rw [update_of_ne hEq] at h
    exact Or.inr ⟨hEq, h⟩

theorem update_made_of_some {new : Nat} (hNone : made o = none)
    (h : made i = some id) : update made o (some new) i = some id := by
  have hNe : i ≠ o := by
    rintro rfl
    rw [hNone] at h
    cases h
  rw [update_of_ne hNe, h]

theorem Wired.lt {done : List Nat}
    {s : State R} (h : Wired env opts nodes g₀ done made s)
    (hMade : made i = some id) : id < s.graph.numNodeIds := by
  obtain ⟨_, _, -, -, hNode⟩ := h.node i id hMade
  exact (isNode_of_node hNode).lt

section Round

variable {nodes : List Ops.NodeDef} {g₀ : Graph} {done : List Nat} {made : Nat → Option Nat}
  {s s' : State R} {o : Nat} {rest : List Nat} {nodeDef : Ops.NodeDef}
  (hNodup : (nodes.map Ops.NodeDef.name).Nodup)
include hNodup

/-- A round makes a node with the edges that its inputs spell. -/
theorem Wired.step (hImporting : opts.importing = false) (h : Wired env opts nodes g₀ done made s)
    (hConverting : Converting nodes done made s) (hReady : s.work.ready = o :: rest)
    (hGet : nodes[o]? = some nodeDef)
    (hOk : convertNode env opts o nodeDef { s with work := ⟨rest, s.work.pending⟩ } = .ok s') :
    Converting nodes (o :: done) (update made o (some s.graph.numNodeIds)) s' ∧
    Wired env opts nodes g₀ (o :: done) (update made o (some s.graph.numNodeIds)) s' := by
  obtain ⟨hLast, -, -, node, hNode, hTyped, rfl⟩ := (convertNode_eq_ok hImporting).mp hOk
  have hUnmade := hConverting.not_made hReady
  have hIndex : s.nameIndex.map (setNode s.graph.numNodeIds nodeDef.name) =
      indexWith nodes (update made o (some s.graph.numNodeIds)) 0 := by
    rw [hConverting.index]
    exact map_setNode hNodup hGet
  have hNext : Converting nodes (o :: done) (update made o (some s.graph.numNodeIds))
      { s with
        graph := addEdges (s.graph.allocateNode node) (earlyEdges s.graph.numNodeIds
          (nodeDef.input.map (infoOf s.nameIndex)) 0)
        nameIndex := s.nameIndex.map (setNode s.graph.numNodeIds nodeDef.name)
        backEdges := s.backEdges ++ lateEdges s.graph.numNodeIds
          (nodeDef.input.map (infoOf s.nameIndex)) 0
        work := Countdown.signals ⟨rest, s.work.pending⟩ (s.outputs.getD o []) } :=
    hConverting.next hReady hIndex rfl rfl
  refine ⟨hNext, ?_⟩
  have hSources : ∀ e ∈ earlyEdges s.graph.numNodeIds (nodeDef.input.map (infoOf s.nameIndex)) 0,
      ∃ j, made j = some e.src ∧ e.dst = s.graph.numNodeIds := by
    intro e hMem
    obtain ⟨i, info, src, hInfo, hSrc, rfl⟩ := mem_earlyEdges hMem
    obtain ⟨input, -, rfl⟩ := List.mem_map.mp (mem_of_getElem? hInfo)
    rw [infoOf, hConverting.index, lookup_node hNodup] at hSrc
    obtain ⟨j, _, -, -, hMade⟩ := hSrc
    exact ⟨j, by rw [slotEdge_src, hMade], slotEdge_dst ..⟩
  have hNodeOld : ∀ id, id < s.graph.numNodeIds →
      (addEdges (s.graph.allocateNode node) (earlyEdges s.graph.numNodeIds
        (nodeDef.input.map (infoOf s.nameIndex)) 0)).node id = s.graph.node id := by
    intro id hLt
    rw [addEdges_node, node_allocateNode_of_lt hLt]
  have hNodeNew : (addEdges (s.graph.allocateNode node) (earlyEdges s.graph.numNodeIds
      (nodeDef.input.map (infoOf s.nameIndex)) 0)).node s.graph.numNodeIds = some node := by
    rw [addEdges_node, node_allocateNode_self]
  have hLength : (addEdges (s.graph.allocateNode node) (earlyEdges s.graph.numNodeIds
      (nodeDef.input.map (infoOf s.nameIndex)) 0)).numNodeIds = s.graph.numNodeIds + 1 := by
    simp [numNodeIds, addEdges_nodes, Graph.allocateNode]
  have hEdges : (addEdges (s.graph.allocateNode node) (earlyEdges s.graph.numNodeIds
      (nodeDef.input.map (infoOf s.nameIndex)) 0)).edges = s.graph.edges ++
      earlyEdges s.graph.numNodeIds (nodeDef.input.map (infoOf s.nameIndex)) 0 := by
    apply addEdges_edges
    intro e hMem
    obtain ⟨j, hMade, hDst⟩ := hSources e hMem
    rw [hDst]
    obtain ⟨_, _, -, -, hSrc⟩ := h.node j _ hMade
    constructor
    · have hSame : (s.graph.allocateNode node).node e.src = s.graph.node e.src :=
        node_allocateNode_of_lt (h.lt hMade)
      exact isNode_of_node (hSame.trans hSrc)
    · exact isNode_of_node (node_allocateNode_self node)
  constructor
  · rw [hLength]
    exact Nat.le_succ_of_le h.grows
  · intro i id hMade
    rcases update_made hMade with ⟨-, rfl⟩ | ⟨-, hMade⟩
    · exact h.grows
    · exact h.fresh i id hMade
  · intro i j id hi hj
    rcases update_made hi with ⟨rfl, rfl⟩ | ⟨-, hOldI⟩
    · rcases update_made hj with ⟨rfl, -⟩ | ⟨-, hOldJ⟩
      · rfl
      · exact absurd (h.lt hOldJ) (Nat.lt_irrefl _)
    · rcases update_made hj with ⟨-, rfl⟩ | ⟨-, hOldJ⟩
      · exact absurd (h.lt hOldI) (Nat.lt_irrefl _)
      · exact h.inj i j id hOldI hOldJ
  · intro i id hMade
    rcases update_made hMade with ⟨rfl, rfl⟩ | ⟨-, hMade⟩
    · exact ⟨nodeDef, node, hGet, hNode, hNodeNew⟩
    · obtain ⟨d, node', hd, hMake, hFound⟩ := h.node i id hMade
      exact ⟨d, node', hd, hMake, (hNodeOld id (h.lt hMade)).trans hFound⟩
  · intro id hLt
    exact (hNodeOld id (Nat.lt_of_lt_of_le hLt h.grows)).trans (h.old id hLt)
  · intro id hGe hLive
    have hLt := hLive.lt
    rw [hLength] at hLt
    by_cases hNew : id = s.graph.numNodeIds
    · exact ⟨o, by rw [update_self, hNew]⟩
    · rw [isNode_iff, hNodeOld id (by omega)] at hLive
      obtain ⟨i, hMade⟩ := h.only id hGe hLive
      exact ⟨i, update_made_of_some hUnmade hMade⟩
  · intro at_ hAt
    have hAtOld : Locates s.nameIndex at_ := by
      intro name id hFound
      rw [hConverting.index, lookup_node hNodup] at hFound
      obtain ⟨i, d, hd, hName, hMade⟩ := hFound
      apply hAt
      rw [hIndex, lookup_node hNodup]
      exact ⟨i, d, hd, hName, update_made_of_some hUnmade hMade⟩
    have hSelf : at_ nodeDef.name = s.graph.numNodeIds := by
      apply hAt
      rw [hIndex, lookup_node hNodup]
      exact ⟨o, nodeDef, hGet, rfl, update_self ..⟩
    have hSpelled := early_late_perm hAtOld nodeDef.name nodeDef.input 0
    rw [hSelf] at hSpelled
    have hHere : edgesAt nodes at_ o = inputEdgesFrom at_ nodeDef.name nodeDef.input 0 := by
      simp [edgesAt, hGet, inputEdges]
    rw [hEdges, map_append, flatMap_cons, hHere]
    exact regroup (h.edges at_ hAtOld) hSpelled
  · intro e hMem
    rw [hEdges] at hMem
    rcases mem_append.mp hMem with hMem | hMem
    · exact (h.typed e hMem).congr fun id hLive => hNodeOld id hLive.lt
    · exact (hTyped e hMem).congr fun id _ => addEdges_node _ _ id
  · intro e hMem
    rcases mem_append.mp hMem with hMem | hMem
    · obtain ⟨i, d, input, hd, hMade, hRest⟩ := h.late e hMem
      exact ⟨i, d, input, hd, update_made_of_some hUnmade hMade, hRest⟩
    · obtain ⟨i, info, hInfo, rfl⟩ := mem_lateEdges hMem
      rw [getElem?_map, map_eq_some_iff] at hInfo
      obtain ⟨input, hInput, rfl⟩ := hInfo
      refine ⟨o, nodeDef, input, hGet, update_self .., ?_, rfl, rfl⟩
      rw [Nat.zero_add]
      exact hInput
  · intro i id hMade d hd hMerge input hMem
    rcases update_made hMade with ⟨rfl, rfl⟩ | ⟨-, hMade⟩
    · obtain rfl : nodeDef = d := some.inj (hGet.symm.trans hd)
      have hDone := (nodup_append.mp hConverting.work.nodup).2.1
      have hStarted := (hConverting.work.started i).mp (by rw [hReady]; simp)
      obtain ⟨j, hj, hNames⟩ := inputs_done hNodup hDone hGet hMerge hStarted input hMem
      obtain ⟨id', hMade'⟩ := isSome_iff_exists.mp ((hConverting.made_iff j).mpr hj)
      exact ⟨j, id', hNames, update_made_of_some hUnmade hMade', h.lt hMade'⟩
    · obtain ⟨j, id', hNames, hMade', hLt⟩ := h.forward i id hMade d hd hMerge input hMem
      exact ⟨j, id', hNames, update_made_of_some hUnmade hMade', hLt⟩
  · intro i id hMade d hd
    rcases update_made hMade with ⟨rfl, -⟩ | ⟨-, hMade⟩
    · obtain rfl : nodeDef = d := some.inj (hGet.symm.trans hd)
      exact hLast
    · exact h.ordered i id hMade d hd
  · rw [addEdges_versions]
    exact h.versions

end Round

theorem convertLoop_wired {gdef : GraphDef} {fuel processed : Nat} {done : List Nat}
    {made : Nat → Option Nat} {s s' : State R} (hImporting : opts.importing = false)
    (hNodup : (gdef.node.map Ops.NodeDef.name).Nodup)
    (hConverting : Converting gdef.node done made s)
    (hWired : Wired env opts gdef.node g₀ done made s)
    (hOk : convertLoop env opts gdef fuel done.length s = .ok (s', processed)) :
    ∃ done' made', Converting gdef.node done' made' s' ∧
      Wired env opts gdef.node g₀ done' made' s' ∧ processed = done'.length ∧
      (s'.work.ready = [] ∨ done'.length = done.length + fuel) := by
  induction fuel generalizing done made s with
  | zero =>
    obtain ⟨rfl, rfl⟩ := Prod.mk.inj (Except.ok.inj hOk)
    exact ⟨done, made, hConverting, hWired, rfl, Or.inr rfl⟩
  | succ fuel ih =>
    rw [convertLoop] at hOk
    cases hReady : s.work.ready with
    | nil =>
      rw [hReady] at hOk
      obtain ⟨rfl, rfl⟩ := Prod.mk.inj (Except.ok.inj hOk)
      exact ⟨done, made, hConverting, hWired, rfl, Or.inl hReady⟩
    | cons o rest =>
      rw [hReady] at hOk
      cases hGet : gdef.node[o]? with
      | none =>
        simp only [hGet] at hOk
        cases hOk
      | some nodeDef =>
        simp only [hGet, Fallible.bind_eq_ok] at hOk
        obtain ⟨t, hRound, hRest⟩ := hOk
        obtain ⟨hConverting', hWired'⟩ :=
          hWired.step hNodup hImporting hConverting hReady hGet hRound
        obtain ⟨done', made', hC, hW, hLength, hEnd⟩ := ih hConverting' hWired' hRest
        refine ⟨done', made', hC, hW, hLength, hEnd.imp_right fun hEq => ?_⟩
        rw [hEq, length_cons]
        omega

def NamesOutputs (env : Environment R H) (opts : Options) (nodes : List Ops.NodeDef) : Prop :=
  ∀ d ∈ nodes, ∀ input ∈ d.input, isControlInput input = false →
    ∃ src ∈ nodes, src.name = (inputId input).1 ∧ ∃ node, makeNode env opts src = .ok node ∧
      0 ≤ (inputId input).2 ∧ (inputId input).2 < node.outputTypes.length

/-- The conditions under which nodes can be converted, whatever their order. -/
structure Convertible (env : Environment R H) (opts : Options) (nodes : List Ops.NodeDef) :
    Prop where
  named : ∀ d ∈ nodes, Named opts d
  nodup : (nodes.map Ops.NodeDef.name).Nodup
  known : ∀ d ∈ nodes, ∀ input ∈ d.input, ∃ src ∈ nodes, src.name = (inputId input).1
  controlLast : ∀ d ∈ nodes, ControlLast d.input
  makes : ∀ d ∈ nodes, ∃ node, makeNode env opts d = .ok node
  fits : ∀ d ∈ nodes, ∀ i input, d.input[i]? = some input → inputIndex input ≠ kControlSlot →
    ∀ src ∈ nodes, src.name = (inputId input).1 → ∀ srcNode dstNode,
      makeNode env opts src = .ok srcNode → makeNode env opts d = .ok dstNode →
        ∀ at_, Fits env srcNode dstNode (inputEdge at_ d.name i input)
  order : ∃ order, Countdown.Admissible (tasksOf nodes) order ∧
    order.Perm (List.range nodes.length)

section Progress

variable {nodes : List Ops.NodeDef} {g₀ : Graph} {done : List Nat} {made : Nat → Option Nat}
  {s : State R} {o : Nat} {rest : List Nat} {nodeDef : Ops.NodeDef}

theorem isDataBackEdge_of_made {g : Graph} {nameIndex : List (String × NodeInfo)} {input : String}
    {id : Nat} (hNode : (infoOf nameIndex input).node = some id) (hLive : g.IsNode id) :
    isDataBackEdge g nameIndex input = false := by
  rw [isDataBackEdge, hNode]
  rw [isNode_iff] at hLive
  obtain ⟨node, hFound⟩ := isSome_iff_exists.mp hLive
  simp [hFound]

/-- What is convertible does not fail in a round. -/
theorem convertNode_progress (hImporting : opts.importing = false)
    (hConvertible : Convertible env opts nodes) (hOutputs : NamesOutputs env opts nodes)
    (hConverting : Converting nodes done made s) (hWired : Wired env opts nodes g₀ done made s)
    (hReady : s.work.ready = o :: rest) (hGet : nodes[o]? = some nodeDef) :
    ∃ s', convertNode env opts o nodeDef { s with work := ⟨rest, s.work.pending⟩ } = .ok s' := by
  have hMem : nodeDef ∈ nodes := mem_of_getElem? hGet
  obtain ⟨node, hNode⟩ := hConvertible.makes nodeDef hMem
  have hMade : ∀ input id, (infoOf s.nameIndex input).node = some id →
      ∃ i d, nodes[i]? = some d ∧ d.name = (inputId input).1 ∧ made i = some id := by
    intro input id hInfo
    rwa [infoOf, hConverting.index, lookup_node hConvertible.nodup] at hInfo
  have hSame : ∀ (i j : Nat) (d d' : Ops.NodeDef), nodes[i]? = some d → nodes[j]? = some d' →
      d.name = d'.name → d = d' := by
    intro i j d d' hi hj hName
    obtain rfl := name_inj hConvertible.nodup hi hj hName
    exact some.inj (hi.symm.trans hj)
  refine ⟨_, (convertNode_eq_ok hImporting).mpr
    ⟨hConvertible.controlLast nodeDef hMem, ?_, ?_, node, hNode, ?_, rfl⟩⟩
  · intro input hInput hData src hSrc
    obtain ⟨id, hInfo, hFound⟩ := bind_eq_some_iff.mp hSrc
    obtain ⟨i, d, hd, hName, hMadeId⟩ := hMade input id hInfo
    obtain ⟨d', node', hd', hMake, hFound'⟩ := hWired.node i id hMadeId
    obtain rfl : d = d' := some.inj (hd.symm.trans hd')
    obtain rfl : node' = src := some.inj (hFound'.symm.trans hFound)
    obtain ⟨named, hNamed, hNamedName, node'', hMake', -, hLt⟩ :=
      hOutputs nodeDef hMem input hInput hData
    obtain ⟨j, hj⟩ := mem_iff_getElem?.mp hNamed
    obtain rfl := hSame i j d named hd hj (hName.trans hNamedName.symm)
    obtain rfl : node' = node'' := Except.ok.inj (hMake.symm.trans hMake')
    exact hLt
  · intro hMerge input hInput
    have hDone := (nodup_append.mp hConverting.work.nodup).2.1
    have hStarted := (hConverting.work.started o).mp (by rw [hReady]; simp)
    obtain ⟨j, hj, hNames⟩ :=
      inputs_done hConvertible.nodup hDone hGet hMerge hStarted input hInput
    obtain ⟨id, hMadeId⟩ := isSome_iff_exists.mp ((hConverting.made_iff j).mpr hj)
    obtain ⟨d, hd, hName⟩ := namesNode_iff.mp hNames
    obtain ⟨_, _, -, -, hFound⟩ := hWired.node j id hMadeId
    apply isDataBackEdge_of_made ?_ (isNode_of_node hFound)
    rw [infoOf, hConverting.index, lookup_node hConvertible.nodup]
    exact ⟨j, d, hd, hName, hMadeId⟩
  · intro e hEarly hData
    obtain ⟨i, info, src, hInfo, hSrc, rfl⟩ := mem_earlyEdges hEarly
    rw [slotEdge_srcOutput] at hData
    rw [getElem?_map, map_eq_some_iff] at hInfo
    obtain ⟨input, hInput, rfl⟩ := hInfo
    have hIndex : inputIndex input ≠ kControlSlot := hData
    obtain ⟨j, d, hd, hName, hMadeSrc⟩ := hMade input src hSrc
    obtain ⟨d', srcNode, hd', hMake, hFound⟩ := hWired.node j src hMadeSrc
    obtain rfl : d = d' := some.inj (hd.symm.trans hd')
    have hLt : src < s.graph.numNodeIds := hWired.lt hMadeSrc
    refine ⟨srcNode, node, ?_, ?_, ?_⟩
    · rw [slotEdge_src, node_allocateNode_of_lt hLt, hFound]
    · rw [slotEdge_dst, node_allocateNode_self]
    · have hFits := hConvertible.fits nodeDef hMem i input hInput hIndex d
        (mem_of_getElem? hd) hName srcNode node hMake hNode fun _ => 0
      rw [inputEdge, fits_slotEdge hIndex] at hFits
      rw [fits_slotEdge hData, Nat.zero_add]
      exact hFits

theorem convertLoop_progress {gdef : GraphDef} (hImporting : opts.importing = false)
    (hConvertible : Convertible env opts gdef.node) (hOutputs : NamesOutputs env opts gdef.node)
    (fuel processed : Nat) {done : List Nat} {made : Nat → Option Nat} {s : State R}
    (hConverting : Converting gdef.node done made s)
    (hWired : Wired env opts gdef.node g₀ done made s) :
    ∃ result, convertLoop env opts gdef fuel processed s = .ok result := by
  induction fuel generalizing processed done made s with
  | zero => exact ⟨_, rfl⟩
  | succ fuel ih =>
    rw [convertLoop]
    cases hReady : s.work.ready with
    | nil => exact ⟨_, rfl⟩
    | cons o rest =>
      have hLt : o < gdef.node.length := hConverting.lt_length (by rw [hReady]; simp)
      have hGet : gdef.node[o]? = some gdef.node[o] := getElem?_eq_getElem hLt
      obtain ⟨t, hRound⟩ :=
        convertNode_progress hImporting hConvertible hOutputs hConverting hWired hReady hGet
      obtain ⟨hConverting', hWired'⟩ :=
        hWired.step hConvertible.nodup hImporting hConverting hReady hGet hRound
      obtain ⟨result, hRest⟩ := ih (processed + 1) hConverting' hWired'
      refine ⟨result, ?_⟩
      simp only [hGet, Fallible.bind_eq_ok]
      exact ⟨t, hRound, hRest⟩

end Progress

end TensorFlowOnSpark.Construction
