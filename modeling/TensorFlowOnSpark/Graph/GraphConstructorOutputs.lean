import TensorFlowOnSpark.Graph.GraphConstructorCalls

/-!
# When a conversion reads an output that there is not

The rounds of `Convert` only make edges from outputs that there are.
-/

namespace TensorFlowOnSpark.Construction

open Ops Fallible List Option

variable {R H : Type}

def nodeOrder (nodes : List Ops.NodeDef) (fuel : Nat) (work : Countdown.State Nat) :
    List Ops.NodeDef :=
  (Countdown.takeOrder (tasksOf nodes).outputs fuel work).filterMap fun o => nodes[o]?

def conversionOrder (nodes : List Ops.NodeDef) : List Ops.NodeDef :=
  nodeOrder nodes nodes.length ⟨(tasksOf nodes).start.reverse, (tasksOf nodes).need⟩

section Missing

variable (env : Environment R H) (opts : Options)

/-- `AddBackEdges` comes to an output that there is not. -/
def readsMissing (nodes : List Ops.NodeDef) : List InputRef → Bool
  | [] => false
  | r :: rest =>
    namesMissing env opts nodes r || typesFit env opts nodes r && readsMissing nodes rest

/-- The name and the index that an input spells, which no `int` bounds. -/
def spelledId (input : String) : String × Nat :=
  let chars := input.toList.reverse
  match chars.takeWhile digit, chars.dropWhile digit with
  | d :: digits, ':' :: c :: rest =>
    (String.ofList (c :: rest).reverse,
      (d :: digits).foldr (fun d index => 10 * index + (d.toNat - 48)) 0)
  | _, _ => (input, 0)

example : spelledId "start:4294967296" = ("start", 4294967296) ∧
    inputId "start:4294967296" = ("start", 0) := by decide +kernel

/-- A data input that refers to an output that its node does not have. -/
def spellsMissing (nodes : List Ops.NodeDef) (r : InputRef) : Bool :=
  !isControlInput r.input &&
    match nodeNamed env opts nodes (spelledId r.input).1 with
    | none => false
    | some src => src.outputTypes.length ≤ (spelledId r.input).2

/-- The conversion comes to `AddBackEdges`. -/
structure Rounds (gdef : GraphDef) : Prop where
  versions : checkVersions gdef.versions tfGraphDefVersion 0 = .ok ()
  named : ∀ d ∈ gdef.node, Named opts d
  nodup : (gdef.node.map Ops.NodeDef.name).Nodup
  known : ∀ d ∈ gdef.node, ∀ input ∈ d.input, ∃ src ∈ gdef.node, src.name = (inputId input).1
  taken : gdef.node.length ≤ (conversionOrder gdef.node).length
  rounds : roundsPass env opts gdef.node [] (conversionOrder gdef.node) = true

structure Misses (gdef : GraphDef) : Prop extends Rounds env opts gdef where
  missing : readsMissing env opts gdef.node (putOff [] (conversionOrder gdef.node)) = true

/-- The conversion succeeds although an input refers to an output that there is not. -/
structure Overlooks (gdef : GraphDef) : Prop extends Rounds env opts gdef where
  fits : ∀ r ∈ putOff [] (conversionOrder gdef.node), typesFit env opts gdef.node r = true
  missing : ∃ d ∈ gdef.node, ∃ r ∈ inputRefs d, spellsMissing env opts gdef.node r = true

end Missing

variable {env : Environment R H} {opts : Options}

section Loop

variable {gdef : GraphDef} {done : List Nat} {made : Nat → Option Nat}
  {taken : List Ops.NodeDef} {refs : List InputRef} {s : State R}
  (hImporting : opts.importing = false) (hNodup : (gdef.node.map Ops.NodeDef.name).Nodup)

variable {nodes : List Ops.NodeDef}

theorem Placed.withWork (h : Placed env opts nodes taken refs s)
    (work : Countdown.State Nat) : Placed env opts nodes taken refs { s with work := work } :=
  ⟨h.node, h.taken, h.late⟩

structure Entered (nodes : List Ops.NodeDef) (taken : List Ops.NodeDef) (s : State R) (o : Nat)
    (nodeDef : Ops.NodeDef) : Prop where
  get : nodes[o]? = some nodeDef
  indexed : nodeDef.name ∈ s.nameIndex.map Prod.fst
  new : madeAs s.nameIndex nodeDef.name = none
  waited : isMerge nodeDef = false → ∀ input ∈ nodeDef.input, isTaken taken input = true

theorem madeAs_eq_some (hConverting : Converting nodes done made s)
    (hNodup : (nodes.map Ops.NodeDef.name).Nodup) {name : String} {id : Nat} :
    madeAs s.nameIndex name = some id ↔
      ∃ i d, nodes[i]? = some d ∧ d.name = name ∧ made i = some id := by
  rw [madeAs, hConverting.index, lookup_node hNodup]

include hNodup

theorem Converting.entered (hConverting : Converting gdef.node done made s)
    (hPlaced : Placed env opts gdef.node taken refs s) {o : Nat} {rest : List Nat}
    (hReady : s.work.ready = o :: rest) : ∃ nodeDef, Entered gdef.node taken s o nodeDef := by
  have hLt : o < gdef.node.length := hConverting.lt_length (by rw [hReady]; simp)
  have hGet : gdef.node[o]? = some gdef.node[o] := getElem?_eq_getElem hLt
  refine ⟨gdef.node[o], hGet, ?_, ?_, ?_⟩
  · rw [hConverting.index, indexWith_names]
    exact List.mem_map_of_mem (getElem_mem hLt)
  · rw [eq_none_iff_forall_ne_some]
    intro id hId
    obtain ⟨i, d, hd, hName, hMade⟩ := (madeAs_eq_some hConverting hNodup).mp hId
    obtain rfl := name_inj hNodup hd hGet hName
    rw [hConverting.not_made hReady] at hMade
    cases hMade
  · intro hMerge input hInput
    have hDone := (nodup_append.mp hConverting.work.nodup).2.1
    have hStarted := (hConverting.work.started o).mp (by rw [hReady]; simp)
    obtain ⟨j, hj, hNames⟩ := inputs_done hNodup hDone hGet hMerge hStarted input hInput
    obtain ⟨id, hMade⟩ := isSome_iff_exists.mp ((hConverting.made_iff j).mpr hj)
    obtain ⟨d, hd, hName⟩ := namesNode_iff.mp hNames
    rw [hPlaced.isTaken_iff, isSome_iff_exists]
    exact ⟨id, (madeAs_eq_some hConverting hNodup).mpr ⟨j, d, hd, hName, hMade⟩⟩

include hImporting

theorem Converting.round (hConverting : Converting gdef.node done made s)
    (hPlaced : Placed env opts gdef.node taken refs s) {o : Nat} {rest : List Nat}
    (hReady : s.work.ready = o :: rest) {nodeDef : Ops.NodeDef}
    (hEntered : Entered gdef.node taken s o nodeDef) {s' : State R}
    (hOk : convertNode env opts o nodeDef { s with work := ⟨rest, s.work.pending⟩ } = .ok s') :
    (∃ made', Converting gdef.node (o :: done) made' s') ∧
      Placed env opts gdef.node (nodeDef :: taken) (refs ++ lateRefs taken nodeDef) s' ∧
      s'.work = Countdown.signals ⟨rest, s.work.pending⟩ ((tasksOf gdef.node).outputs o) := by
  have hPlaced' := (hPlaced.withWork ⟨rest, s.work.pending⟩).round hImporting hNodup
    (mem_of_getElem? hEntered.get) hEntered.indexed hEntered.new hOk
  obtain ⟨-, -, -, node, -, -, rfl⟩ := (convertNode_eq_ok hImporting).mp hOk
  have hIndex : s.nameIndex.map (setNode s.graph.numNodeIds nodeDef.name) =
      indexWith gdef.node (Function.update made o (some s.graph.numNodeIds)) 0 := by
    rw [hConverting.index]
    exact map_setNode hNodup hEntered.get
  refine ⟨⟨_, hConverting.next hReady hIndex rfl rfl⟩, hPlaced', ?_⟩
  simp only [hConverting.outputs o]

theorem convertLoop_iff (fuel processed : Nat) (hConverting : Converting gdef.node done made s)
    (hPlaced : Placed env opts gdef.node taken refs s) :
    (∃ result, convertLoop env opts gdef fuel processed s = .ok result) ↔
      roundsPass env opts gdef.node taken (nodeOrder gdef.node fuel s.work) = true := by
  induction fuel generalizing processed done made taken refs s with
  | zero => exact iff_of_true ⟨_, rfl⟩ rfl
  | succ fuel ih =>
    rw [convertLoop, nodeOrder, Countdown.takeOrder]
    cases hReady : s.work.ready with
    | nil => exact iff_of_true ⟨_, rfl⟩ rfl
    | cons o rest =>
      obtain ⟨nodeDef, hEntered⟩ := hConverting.entered hNodup hPlaced hReady
      have hMem : nodeDef ∈ gdef.node := mem_of_getElem? hEntered.get
      have hRound := (hPlaced.withWork ⟨rest, s.work.pending⟩).convertNode_iff hImporting hNodup
        hMem hEntered.waited o
      simp only [hEntered.get, filterMap_cons, roundsPass, Bool.and_eq_true, ← hRound,
        Fallible.bind_eq_ok]
      constructor
      · rintro ⟨result, s', hOk, hRest⟩
        obtain ⟨⟨made', hConverting'⟩, hPlaced', hWork⟩ :=
          hConverting.round hImporting hNodup hPlaced hReady hEntered hOk
        refine ⟨⟨s', hOk⟩, ?_⟩
        rw [← hWork]
        exact (ih _ hConverting' hPlaced').mp ⟨result, hRest⟩
      · rintro ⟨⟨s', hOk⟩, hRest⟩
        obtain ⟨⟨made', hConverting'⟩, hPlaced', hWork⟩ :=
          hConverting.round hImporting hNodup hPlaced hReady hEntered hOk
        rw [← hWork] at hRest
        obtain ⟨result, hLoop⟩ := (ih (processed + 1) hConverting' hPlaced').mpr hRest
        exact ⟨result, s', hOk, hLoop⟩

theorem convertLoop_placed {fuel processed : Nat} (hConverting : Converting gdef.node done made s)
    (hPlaced : Placed env opts gdef.node taken refs s) {result : State R × Nat}
    (hOk : convertLoop env opts gdef fuel processed s = .ok result) :
    Placed env opts gdef.node ((nodeOrder gdef.node fuel s.work).reverse ++ taken)
        (refs ++ putOff taken (nodeOrder gdef.node fuel s.work)) result.1 ∧
      (∃ done' made', Converting gdef.node done' made' result.1 ∧
        done'.length = done.length + (nodeOrder gdef.node fuel s.work).length) ∧
      result.2 = processed + (nodeOrder gdef.node fuel s.work).length := by
  induction fuel generalizing processed done made taken refs s with
  | zero =>
    obtain rfl := Except.ok.inj hOk
    simp only [nodeOrder, Countdown.takeOrder, filterMap_nil, putOff, append_nil, length_nil,
      Nat.add_zero, and_true]
    exact ⟨hPlaced, done, made, hConverting, rfl⟩
  | succ fuel ih =>
    rw [convertLoop] at hOk
    rw [nodeOrder, Countdown.takeOrder]
    cases hReady : s.work.ready with
    | nil =>
      rw [hReady] at hOk
      obtain rfl := Except.ok.inj hOk
      simp only [filterMap_nil, putOff, append_nil, length_nil, Nat.add_zero, and_true]
      exact ⟨hPlaced, done, made, hConverting, rfl⟩
    | cons o rest =>
      obtain ⟨nodeDef, hEntered⟩ := hConverting.entered hNodup hPlaced hReady
      rw [hReady] at hOk
      simp only [hEntered.get, Fallible.bind_eq_ok] at hOk
      obtain ⟨s', hRound, hRest⟩ := hOk
      obtain ⟨⟨made', hConverting'⟩, hPlaced', hWork⟩ :=
        hConverting.round hImporting hNodup hPlaced hReady hEntered hRound
      obtain ⟨hEnd, ⟨done', made'', hConverted, hLength⟩, hProcessed⟩ :=
        ih hConverting' hPlaced' hRest
      rw [hWork] at hEnd hLength hProcessed
      simp only [hEntered.get, filterMap_cons, reverse_cons, append_assoc, length_cons]
      simp only [append_assoc] at hEnd
      refine ⟨hEnd, ⟨done', made'', hConverted, ?_⟩, ?_⟩
      · rw [hLength, length_cons]
        simp only [nodeOrder]
        omega
      · rw [hProcessed]
        simp only [nodeOrder]
        omega

theorem convertCalls_inRange (hValidated : Validated env gdef.node) (fuel : Nat)
    (hConverting : Converting gdef.node done made s)
    (hPlaced : Placed env opts gdef.node taken refs s) :
    ∀ c ∈ convertCalls env opts gdef fuel s, c.InRange := by
  induction fuel generalizing done made taken refs s with
  | zero => simp [convertCalls]
  | succ fuel ih =>
    rw [convertCalls]
    cases hReady : s.work.ready with
    | nil => simp
    | cons o rest =>
      obtain ⟨nodeDef, hEntered⟩ := hConverting.entered hNodup hPlaced hReady
      have hMem : nodeDef ∈ gdef.node := mem_of_getElem? hEntered.get
      simp only [hEntered.get, forall_mem_append]
      constructor
      · exact (hPlaced.withWork _).convertNodeCalls_inRange hImporting hNodup hValidated hMem
      · split
        · rename_i s' hRound
          obtain ⟨⟨made', hConverting'⟩, hPlaced', -⟩ :=
            hConverting.round hImporting hNodup hPlaced hReady hEntered hRound
          exact ih hConverting' hPlaced'
        · simp

end Loop

variable {r : InputRef}

variable {taken order : List Ops.NodeDef}

theorem mem_putOff (h : r ∈ putOff taken order) :
    ∃ d ∈ order, r ∈ inputRefs d := by
  induction order generalizing taken with
  | nil => cases h
  | cons d rest ih =>
    rcases mem_append.mp h with hHere | hThere
    · exact ⟨d, mem_cons_self, mem_of_mem_filter hHere⟩
    · obtain ⟨d', hMem, hRef⟩ := ih hThere
      exact ⟨d', mem_cons_of_mem d hMem, hRef⟩

variable {d : Ops.NodeDef}

variable {nodes : List Ops.NodeDef}

section Late

variable {nodes : List Ops.NodeDef} {s : State R}

structure Reaches (env : Environment R H) (opts : Options) (nodes : List Ops.NodeDef) (s : State R)
    (e : EdgeInfo) (r : InputRef) : Prop where
  index : e.srcIndex = inputIndex r.input
  slot : e.dstIndex = r.slot
  ends : ∃ src srcNode dstNode, madeAs s.nameIndex e.srcName = some src ∧
    nodeNamed env opts nodes (inputId r.input).1 = some srcNode ∧
    s.graph.node src = some srcNode ∧
    nodeNamed env opts nodes r.dst = some dstNode ∧ s.graph.node e.dstNode = some dstNode ∧
    (inputIndex r.input ≠ kControlSlot → r.slot < dstNode.inputTypes.length)

variable {e : EdgeInfo} {r : InputRef} {edges : List EdgeInfo} {refs : List InputRef}

section

variable (h : Reaches env opts nodes s e r)
include h

theorem Reaches.addEdge
    (e' : Edge) : Reaches env opts nodes { s with graph := s.graph.addEdge e' } e r := by
  obtain ⟨src, srcNode, dstNode, hSrc, hSrcNamed, hSrcNode, hDstNamed, hDstNode, hSlot⟩ := h.ends
  exact ⟨h.index, h.slot, src, srcNode, dstNode, hSrc, hSrcNamed,
    (Graph.node_addEdge e' src).trans hSrcNode, hDstNamed,
    (Graph.node_addEdge e' e.dstNode).trans hDstNode, hSlot⟩

theorem Reaches.makeEdge_eq_ok {src : Nat} (hSrc : madeAs s.nameIndex e.srcName = some src)
    (hData : e.srcIndex ≠ kControlSlot) {t : State R} :
    makeEdge env src e.srcIndex e.dstNode e.dstIndex s = .ok t ↔
      typesFit env opts nodes r = true ∧
        t = { s with graph := s.graph.addEdge ⟨src, e.srcIndex, e.dstNode, e.dstIndex⟩ } := by
  obtain ⟨src', srcNode, dstNode, hSrc', hSrcNamed, hSrcNode, hDstNamed, hDstNode, -⟩ := h.ends
  obtain rfl := some.inj (hSrc.symm.trans hSrc')
  have hIndex : inputIndex r.input ≠ kControlSlot := h.index ▸ hData
  rw [Construction.makeEdge_eq_ok hData, addEdge_of_slot, if_neg hData]
  apply and_congr_left'
  rw [Typed, slotEdge_src, slotEdge_dst, hSrcNode, hDstNode]
  simp only [typesFit, hSrcNamed, hDstNamed, h.index, h.slot]
  simp [hIndex, fits_slotEdge hIndex]

theorem Reaches.control (hControl : e.srcIndex = kControlSlot) :
    namesMissing env opts nodes r = false ∧ typesFit env opts nodes r = true := by
  obtain ⟨-, srcNode, -, -, hSrcNamed, -⟩ := h.ends
  have hIndex : inputIndex r.input = kControlSlot := h.index ▸ hControl
  constructor
  · simp only [namesMissing, hSrcNamed, hIndex, kControlSlot, decide_eq_false_iff_not]
    omega
  · simp [typesFit, hIndex]

theorem Reaches.inRange_iff (hData : e.srcIndex ≠ kControlSlot) :
    (⟨s.graph, madeAs s.nameIndex e.srcName, e.srcIndex, e.dstNode, e.dstIndex⟩ :
      EdgeCall).InRange ↔ namesMissing env opts nodes r = false := by
  obtain ⟨src, srcNode, dstNode, hSrc, hSrcNamed, hSrcNode, hDstNamed, hDstNode, hSlot⟩ := h.ends
  have hIndex : inputIndex r.input ≠ kControlSlot := h.index ▸ hData
  rw [namesMissing, hSrcNamed]
  simp only [decide_eq_false_iff_not, Int.not_le, ← h.index]
  constructor
  · rintro ⟨src', srcNode', -, hSrc', hSrcNode', hLt, -⟩
    obtain rfl := some.inj (hSrc.symm.trans hSrc')
    obtain rfl := some.inj (hSrcNode.symm.trans hSrcNode')
    exact hLt
  · intro hLt
    refine ⟨src, srcNode, dstNode, hSrc, hSrcNode, hLt, hDstNode, ?_⟩
    simp only [h.slot]
    exact hSlot hIndex

end

variable (hLate : List.Forall₂ (Reaches env opts nodes s) edges refs)
include hLate

theorem reaches_addEdge (e : Edge) :
    Forall₂ (Reaches env opts nodes { s with graph := s.graph.addEdge e }) edges refs :=
  hLate.imp fun _ _ h => h.addEdge e

theorem addBackEdges_isOk :
    (∃ s', addBackEdges env edges s = .ok s') ↔ ∀ r ∈ refs, typesFit env opts nodes r = true := by
  induction edges generalizing refs s with
  | nil =>
    cases hLate
    simp [addBackEdges]
  | cons e rest ih =>
    obtain ⟨r, refs, hHere, hRest, rfl⟩ := forall₂_cons_left_iff.mp hLate
    obtain ⟨src, -, -, hSrc, -⟩ := hHere.ends
    have hLookup : (s.nameIndex.lookup e.srcName).bind NodeInfo.node = some src := hSrc
    rw [addBackEdges, hLookup, forall_mem_cons]
    simp only
    split
    · rename_i hControl
      rw [and_iff_right (hHere.control hControl).2]
      exact ih (reaches_addEdge hRest _)
    · rename_i hData
      simp only [bind_eq_ok, hHere.makeEdge_eq_ok hSrc hData]
      constructor
      · rintro ⟨s', -, ⟨hFit, rfl⟩, hOk⟩
        exact ⟨hFit, (ih (reaches_addEdge hRest _)).mp ⟨s', hOk⟩⟩
      · rintro ⟨hFit, hFits⟩
        obtain ⟨s', hOk⟩ := (ih (reaches_addEdge hRest _)).mpr hFits
        exact ⟨s', _, ⟨hFit, rfl⟩, hOk⟩

theorem addBackEdgesCalls_iff :
    (∀ c ∈ addBackEdgesCalls env edges s, c.InRange) ↔
      readsMissing env opts nodes refs = false := by
  induction edges generalizing refs s with
  | nil =>
    cases hLate
    simp [addBackEdgesCalls, readsMissing]
  | cons e rest ih =>
    obtain ⟨r, refs, hHere, hRest, rfl⟩ := forall₂_cons_left_iff.mp hLate
    obtain ⟨src, -, -, hSrc, -⟩ := hHere.ends
    have hLookup : (s.nameIndex.lookup e.srcName).bind NodeInfo.node = some src := hSrc
    rw [addBackEdgesCalls, readsMissing]
    simp only [hLookup]
    split
    · rename_i hControl
      obtain ⟨hNamed, hFit⟩ := hHere.control hControl
      rw [hNamed, hFit]
      exact ih (reaches_addEdge hRest _)
    · rename_i hData
      have hRange := hHere.inRange_iff hData
      rw [hSrc] at hRange
      rw [forall_mem_cons, hRange, Bool.or_eq_false_iff]
      apply and_congr_right'
      split
      · rename_i t hMake
        obtain ⟨hFit, rfl⟩ := (hHere.makeEdge_eq_ok hSrc hData).mp hMake
        rw [hFit]
        exact ih (reaches_addEdge hRest _)
      · rename_i failure hFails
        have hUnfit : typesFit env opts nodes r = false := by
          rw [Bool.eq_false_iff]
          intro hFit
          have hMake := (hHere.makeEdge_eq_ok hSrc hData).mpr ⟨hFit, rfl⟩
          rw [hFails] at hMake
          cases hMake
        simp [hUnfit]

end Late

theorem Prepared.placed {s : State R}
    (hNodup : (nodes.map Ops.NodeDef.name).Nodup) (h : Prepared nodes s) :
    Placed env opts nodes [] [] s := by
  have hNone : ∀ name, madeAs s.nameIndex name = none := by
    intro name
    rw [eq_none_iff_forall_ne_some]
    intro id hId
    obtain ⟨-, -, -, -, hMade⟩ := (madeAs_eq_some h.converting hNodup).mp hId
    cases hMade
  constructor
  · intro name id hName
    rw [hNone] at hName
    cases hName
  · simp [hNone]
  · rw [h.backEdges]
    exact .nil

section Whole

variable {gdef : GraphDef} {g : Graph} {refiner : R} (hImporting : opts.importing = false)
  (hPrefix : opts.namePrefix = "")
include hImporting hPrefix

theorem ensureNoNameCollisions_ok : ensureNoNameCollisions opts gdef g = .ok () := by
  rw [ensureNoNameCollisions, if_pos hPrefix, hImporting]
  rfl

def indexedState (gdef : GraphDef) (g : Graph) (refiner : R) : State R :=
  { State.initial g refiner with
    nameIndex := indexWith gdef.node (fun _ => none) 0
    outputs := replicate gdef.node.length [] }

theorem tryImportStart_eq_ok {s : State R} :
    tryImportStart opts gdef (.initial g refiner) = .ok s ↔
      (∀ d ∈ gdef.node, Named opts d) ∧ (gdef.node.map Ops.NodeDef.name).Nodup ∧
        initFromEdges gdef.node 0 (indexedState gdef g refiner) = .ok s := by
  simp only [tryImportStart, Fallible.bind_eq_ok, orFail_eq_ok, exists_unit, buildNodeIndex_eq_ok,
    ensureNoNameCollisions_ok hImporting hPrefix, true_and]
  constructor
  · rintro ⟨t, ⟨hNamed, hNodup, rfl⟩, hInit⟩
    exact ⟨fun d hMem => (hNamed d hMem).1, hNodup, hInit⟩
  · rintro ⟨hNamed, hNodup, hInit⟩
    exact ⟨_, ⟨fun d hMem => ⟨hNamed d hMem, by simp [State.initial]⟩, hNodup, rfl⟩, hInit⟩

theorem tryImportStart_iff :
    (∃ s, tryImportStart opts gdef (.initial g refiner) = .ok s) ↔
      (∀ d ∈ gdef.node, Named opts d) ∧ (gdef.node.map Ops.NodeDef.name).Nodup ∧
        ∀ d ∈ gdef.node, ∀ input ∈ d.input, ∃ src ∈ gdef.node, src.name = (inputId input).1 := by
  simp only [tryImportStart_eq_ok hImporting hPrefix, exists_and_left, initFromEdges_isOk]
  apply and_congr_right'
  apply and_congr_right
  intro hNodup
  simp only [indexedState, lookup_isSome hNodup]

theorem tryImportStart_prepared {s : State R}
    (hOk : tryImportStart opts gdef (.initial g refiner) = .ok s) :
    Prepared gdef.node s ∧
      s.work = ⟨(tasksOf gdef.node).start.reverse, (tasksOf gdef.node).need⟩ := by
  obtain ⟨-, hNodup, hInit⟩ := (tryImportStart_eq_ok hImporting hPrefix).mp hOk
  have hIndex : (indexedState gdef g refiner).nameIndex =
      indexWith gdef.node (fun _ => none) 0 := rfl
  refine ⟨initFromEdges_prepared hNodup hIndex rfl rfl rfl hInit, ?_⟩
  have hCounted := initFromEdges_counted hNodup hIndex (by simp [indexedState]) hInit
  have hReady : s.work.ready = (tasksOf gdef.node).start.reverse := by
    rw [hCounted.ready]
    simp [tasksOf, indexedState, State.initial]
  have hPending : s.work.pending = (tasksOf gdef.node).need := by
    funext i
    rw [hCounted.pending]
    simp [tasksOf, indexedState, State.initial]
  rw [← hReady, ← hPending]

/-- What `Convert` leaves when it succeeds. -/
structure Converted (env : Environment R H) (opts : Options) (nodes : List Ops.NodeDef)
    (s : State R) : Prop where
  rounds : roundsPass env opts nodes [] (conversionOrder nodes) = true
  all : nodes.length ≤ (conversionOrder nodes).length
  placed : Placed env opts nodes (conversionOrder nodes).reverse
    (putOff [] (conversionOrder nodes)) s
  made : ∀ d ∈ nodes, (madeAs s.nameIndex d.name).isSome = true

section

variable {s : State R} (hNodup : (gdef.node.map Ops.NodeDef.name).Nodup)
  (hPrepared : Prepared gdef.node s)
  (hWork : s.work = ⟨(tasksOf gdef.node).start.reverse, (tasksOf gdef.node).need⟩)
include hNodup hPrepared hWork

omit hPrefix in
theorem converted_of_convert {w : State R} (hOk : convert env opts gdef s = .ok w) :
    Converted env opts gdef.node w := by
  simp only [convert, Fallible.bind_eq_ok, orFail_eq_ok, check_eq_ok, exists_unit,
    decide_eq_true_eq] at hOk
  obtain ⟨⟨w', processed⟩, hLoop, hAll, hEq⟩ := hOk
  obtain rfl : w' = w := Except.ok.inj hEq
  have hPlaced : Placed env opts gdef.node [] [] s := hPrepared.placed hNodup
  have hRounds := (convertLoop_iff hImporting hNodup _ 0 hPrepared.converting hPlaced).mp
    ⟨_, hLoop⟩
  obtain ⟨hEnd, ⟨done, made, hConverting, hLength⟩, hProcessed⟩ :=
    convertLoop_placed hImporting hNodup hPrepared.converting hPlaced hLoop
  rw [hWork] at hRounds hEnd hLength hProcessed
  change roundsPass env opts gdef.node [] (conversionOrder gdef.node) = true at hRounds
  change processed = 0 + (conversionOrder gdef.node).length at hProcessed
  change done.length = 0 + (conversionOrder gdef.node).length at hLength
  have hCount : gdef.node.length ≤ done.length := by omega
  have hPerm := done_all hConverting hCount
  constructor
  · exact hRounds
  · omega
  · simpa [conversionOrder] using hEnd
  · intro d hMem
    obtain ⟨i, hGet⟩ := mem_iff_getElem?.mp hMem
    rw [isSome_iff_exists]
    exact ⟨_, (madeAs_eq_some hConverting hNodup).mpr
      ⟨i, d, hGet, rfl, placeIn_made hNodup hConverting hPerm hGet⟩⟩

omit hPrefix in
theorem convert_isOk (hRounds : roundsPass env opts gdef.node [] (conversionOrder gdef.node) = true)
    (hAll : gdef.node.length ≤ (conversionOrder gdef.node).length) :
    ∃ w, convert env opts gdef s = .ok w := by
  have hPlaced : Placed env opts gdef.node [] [] s := hPrepared.placed hNodup
  obtain ⟨⟨w, processed⟩, hLoop⟩ :=
    (convertLoop_iff hImporting hNodup gdef.node.length 0 hPrepared.converting hPlaced).mpr
      (by rw [hWork]; exact hRounds)
  obtain ⟨-, -, hProcessed⟩ :=
    convertLoop_placed hImporting hNodup hPrepared.converting hPlaced hLoop
  rw [hWork] at hProcessed
  change processed = 0 + (conversionOrder gdef.node).length at hProcessed
  simp only [convert, Fallible.bind_eq_ok, orFail_eq_ok, check_eq_ok, exists_unit,
    decide_eq_true_eq]
  exact ⟨w, (w, processed), hLoop, by omega, rfl⟩

end

end Whole

theorem mem_of_mem_conversionOrder (h : d ∈ conversionOrder nodes)
    : d ∈ nodes := by
  obtain ⟨o, -, hGet⟩ := mem_filterMap.mp h
  exact mem_of_getElem? hGet

namespace Converted

variable {nodes : List Ops.NodeDef} {w : State R} (h : Converted env opts nodes w)
  (hNodup : (nodes.map Ops.NodeDef.name).Nodup)
include h

include hNodup

theorem reaches (hValidated : Validated env nodes)
    (hKnown : ∀ d ∈ nodes, ∀ input ∈ d.input, ∃ src ∈ nodes, src.name = (inputId input).1) :
    Forall₂ (Reaches env opts nodes w) w.backEdges (putOff [] (conversionOrder nodes)) := by
  have hRefs : ∀ r ∈ putOff [] (conversionOrder nodes), ∃ d ∈ nodes, r ∈ inputRefs d := by
    intro r hRef
    obtain ⟨d, hd, hIn⟩ := mem_putOff hRef
    exact ⟨d, mem_of_mem_conversionOrder hd, hIn⟩
  have hBoth := ((forall₂_and_left _ _).mpr ⟨hRefs, h.placed.late.flip⟩).flip
  apply hBoth.imp
  rintro e r ⟨⟨d, hd, hRef⟩, hPut⟩
  obtain ⟨hGet, hDst⟩ := mem_inputRefs.mp hRef
  obtain ⟨src, hSrc, hSrcName⟩ := hKnown d hd r.input (mem_of_getElem? hGet)
  obtain ⟨id, hMade⟩ := isSome_iff_exists.mp (h.made src hSrc)
  rw [hSrcName] at hMade
  obtain ⟨srcNode, hSrcNamed, hSrcNode⟩ := h.placed.node _ id hMade
  obtain ⟨dstNode, hDstNamed, hDstNode⟩ := h.placed.node _ _ hPut.dst
  refine ⟨hPut.srcIndex, hPut.slot, id, srcNode, dstNode, ?_, hSrcNamed, hSrcNode, hDstNamed,
    hDstNode, ?_⟩
  · rw [hPut.srcName]
    exact hMade
  · intro hData
    apply slot_lt hNodup hValidated hd hRef ?_ (hDst ▸ hDstNamed)
    cases hKind : isControlInput r.input with
    | false => rfl
    | true => exact absurd (by simp [inputIndex, hKind]) hData

end Converted

variable (env) (allowInternalOps expectDeviceSpec : Bool)

theorem constructCalls_inRange_iff (hImporting : opts.importing = false)
    (hPrefix : opts.namePrefix = "") (gdef : GraphDef) (g : Graph) (refiner : R)
    (hValidated : Validated env gdef.node) :
    (∀ c ∈ constructCalls env opts gdef g refiner, c.InRange) ↔ ¬Misses env opts gdef := by
  constructor
  · intro hRange hMisses
    obtain ⟨s, hStart⟩ : ∃ s, tryImportStart opts gdef (.initial g refiner) = .ok s :=
      (tryImportStart_iff hImporting hPrefix).mpr ⟨hMisses.named, hMisses.nodup, hMisses.known⟩
    obtain ⟨hPrepared, hWork⟩ := tryImportStart_prepared hImporting hPrefix hStart
    obtain ⟨w, hConvert⟩ : ∃ w, convert env opts gdef s = .ok w :=
      convert_isOk hImporting hMisses.nodup hPrepared hWork
      hMisses.rounds hMisses.taken
    have hConverted := converted_of_convert hImporting hMisses.nodup hPrepared hWork hConvert
    have hLate := hConverted.reaches hMisses.nodup hValidated hMisses.known
    have hReads := (addBackEdgesCalls_iff hLate).mp fun c hMem => hRange c (by
      simp only [constructCalls, hMisses.versions, tryImportCalls, hStart, hConvert]
      exact mem_append_right _ hMem)
    rw [hMisses.missing] at hReads
    cases hReads
  · intro hNot c hMem
    unfold constructCalls at hMem
    split at hMem
    · cases hMem
    · rename_i hVersions
      unfold tryImportCalls at hMem
      split at hMem
      · cases hMem
      · rename_i s hStart
        obtain ⟨hNamed, hNodup, hKnown⟩ := (tryImportStart_iff hImporting hPrefix).mp ⟨s, hStart⟩
        obtain ⟨hPrepared, hWork⟩ := tryImportStart_prepared hImporting hPrefix hStart
        rcases mem_append.mp hMem with hMem | hMem
        · exact convertCalls_inRange hImporting hNodup hValidated _ hPrepared.converting
            (hPrepared.placed hNodup) c hMem
        · split at hMem
          · cases hMem
          · rename_i w hConvert
            have hConverted :=
              converted_of_convert hImporting hNodup hPrepared hWork hConvert
            have hLate := hConverted.reaches hNodup hValidated hKnown
            apply (addBackEdgesCalls_iff hLate).mpr ?_ c hMem
            rw [Bool.eq_false_iff]
            intro hReads
            exact hNot ⟨⟨hVersions, hNamed, hNodup, hKnown, hConverted.all, hConverted.rounds⟩,
              hReads⟩

theorem convertGraphDefToGraph_isOk (gdef : GraphDef) (g : Graph)
    (hValidated : Validated env gdef.node) :
    (convertGraphDefToGraph env allowInternalOps expectDeviceSpec gdef g).1 = .ok () ↔
      Rounds env (.ofConvert allowInternalOps expectDeviceSpec) gdef ∧
        ∀ r ∈ putOff [] (conversionOrder gdef.node),
          typesFit env (.ofConvert allowInternalOps expectDeviceSpec) gdef.node r = true := by
  have hImport : (convertGraphDefToGraph env allowInternalOps expectDeviceSpec gdef g).1 = .ok () ↔
      checkVersions gdef.versions tfGraphDefVersion 0 = .ok () ∧
        ∃ s, tryImport env (.ofConvert allowInternalOps expectDeviceSpec) gdef
          (.initial g env.newRefiner) = .ok s := by
    unfold convertGraphDefToGraph construct
    split
    · rename_i hVersions
      simp [hVersions]
    · rename_i hVersions
      split
      · rename_i hOk
        simp [hVersions, hOk]
      · rename_i hError
        simp [hError]
  rw [hImport, tryImport_eq]
  simp only [bind_eq_ok]
  constructor
  · rintro ⟨hVersions, _, s, hStart, w, hConvert, x, hBack, -⟩
    obtain ⟨hNamed, hNodup, hKnown⟩ := (tryImportStart_iff rfl rfl).mp ⟨s, hStart⟩
    obtain ⟨hPrepared, hWork⟩ := tryImportStart_prepared rfl rfl hStart
    have hConverted := converted_of_convert rfl hNodup hPrepared hWork hConvert
    exact ⟨⟨hVersions, hNamed, hNodup, hKnown, hConverted.all, hConverted.rounds⟩,
      (addBackEdges_isOk (hConverted.reaches hNodup hValidated hKnown)).mp ⟨x, hBack⟩⟩
  · rintro ⟨hRounds, hFits⟩
    obtain ⟨s, hStart⟩ : ∃ s, tryImportStart (.ofConvert allowInternalOps expectDeviceSpec) gdef
        (.initial g env.newRefiner) = .ok s :=
      (tryImportStart_iff rfl rfl).mpr ⟨hRounds.named, hRounds.nodup, hRounds.known⟩
    obtain ⟨hPrepared, hWork⟩ := tryImportStart_prepared rfl rfl hStart
    obtain ⟨w, hConvert⟩ := convert_isOk rfl hRounds.nodup hPrepared hWork
      hRounds.rounds hRounds.taken
    have hConverted := converted_of_convert rfl hRounds.nodup hPrepared hWork hConvert
    obtain ⟨x, hBack⟩ :=
      (addBackEdges_isOk (hConverted.reaches hRounds.nodup hValidated hRounds.known)).mpr hFits
    exact ⟨hRounds.versions, _, s, hStart, w, hConvert, x, hBack, rfl⟩

/-- A loop whose `Merge` reads an output that does not come back. -/
def pastLoopDef : GraphDef :=
  ⟨[loopNode "next" "NextIteration" ["merge"], loopNode "merge" "Merge" ["start", "next:5"],
    loopNode "start" "Const" []], ⟨17, 0, []⟩⟩

theorem validated_of_all {R H : Type} {env : Environment R H}
    (h : (nodes.all fun d => (env.lookUpOpDef d.op).all fun registered =>
      (d.validateNodeDef registered.opDef).isOk) = true) : Validated env nodes := by
  intro d hMem registered hLookUp
  have hOk := List.all_eq_true.mp h d hMem
  rw [hLookUp, all_some] at hOk
  cases hValid : d.validateNodeDef registered.opDef with
  | ok u => rfl
  | error error =>
    rw [hValid] at hOk
    cases hOk

end TensorFlowOnSpark.Construction
