import TensorFlowOnSpark.Graph.GraphConstructorWiring
import TensorFlowOnSpark.Lib.Dependency

/-!
# A GraphDef and the graph that it becomes

A conversion that succeeds gives each node of the `GraphDef` a node of the graph, and the
inputs of the nodes their edges.
-/

namespace TensorFlowOnSpark.Construction

open Ops Fallible List

variable {R H : Type} {env : Environment R H} {opts : Options}

/-- A graph that holds `g₀` and the nodes of a `GraphDef`, whose places `at_` gives. -/
structure Assembled (env : Environment R H) (opts : Options) (nodes : List Ops.NodeDef) (g₀ : Graph)
    (at_ : String → Nat) (g : Graph) : Prop where
  node : ∀ d ∈ nodes, ∃ node, makeNode env opts d = .ok node ∧ g.node (at_ d.name) = some node
  fresh : ∀ d ∈ nodes, g₀.numNodeIds ≤ at_ d.name
  inj : ∀ d ∈ nodes, ∀ d' ∈ nodes, at_ d.name = at_ d'.name → d = d'
  old : ∀ id < g₀.numNodeIds, g.node id = g₀.node id
  only : ∀ id, g₀.numNodeIds ≤ id → g.IsNode id → ∃ d ∈ nodes, at_ d.name = id
  edges : g.edges.Perm (g₀.edges ++ nodes.flatMap (inputEdges at_))
  typed : ∀ e ∈ g.edges, Typed env g e
  forward : ∀ d ∈ nodes, isMerge d = false → ∀ input ∈ d.input,
    at_ (inputId input).1 < at_ d.name
  versions : g.versions = g₀.versions

theorem flatMap_edgesAt (nodes : List Ops.NodeDef) (at_ : String → Nat) :
    (List.range nodes.length).flatMap (edgesAt nodes at_) = nodes.flatMap (inputEdges at_) := by
  induction nodes with
  | nil => rfl
  | cons d rest ih =>
    rw [length_cons, range_succ_eq_map, flatMap_cons, flatMap_map, flatMap_cons, ← ih]
    rfl

def placeIn (nameIndex : List (String × NodeInfo)) (name : String) : Nat :=
  ((nameIndex.lookup name).bind NodeInfo.node).getD 0

theorem locates_placeIn (nameIndex : List (String × NodeInfo)) :
    Locates nameIndex (placeIn nameIndex) := by
  intro name id h
  rw [placeIn, h, Option.getD_some]

variable {d : Ops.NodeDef}

section Finish

variable {nodes : List Ops.NodeDef} {g₀ : Graph} {done : List Nat} {made : Nat → Option Nat}
  {s : State R} (hNodup : (nodes.map Ops.NodeDef.name).Nodup)
  (hConverting : Converting nodes done made s) (hWired : Wired env opts nodes g₀ done made s)
  (hAll : done.Perm (List.range nodes.length))
include hNodup hConverting hWired hAll

omit hWired in
theorem placeIn_made {i : Nat} {d : Ops.NodeDef} (hGet : nodes[i]? = some d) :
    made i = some (placeIn s.nameIndex d.name) := by
  have hLt := (List.getElem?_eq_some_iff.mp hGet).1
  obtain ⟨id, hMade⟩ := Option.isSome_iff_exists.mp
    ((hConverting.made_iff i).mpr (hAll.mem_iff.mpr (mem_range.mpr hLt)))
  have hPlace : placeIn s.nameIndex d.name = id := by
    apply locates_placeIn
    rw [hConverting.index, lookup_node hNodup]
    exact ⟨i, d, hGet, rfl, hMade⟩
  rw [hPlace, hMade]

theorem place_node (hMem : d ∈ nodes) : ∃ node, makeNode env opts d = .ok node ∧
    s.graph.node (placeIn s.nameIndex d.name) = some node := by
  obtain ⟨i, hGet⟩ := mem_iff_getElem?.mp hMem
  obtain ⟨d', node, hGet', hMake, hNode⟩ :=
    hWired.node i _ (placeIn_made hNodup hConverting hAll hGet)
  obtain rfl : d = d' := Option.some.inj (hGet.symm.trans hGet')
  exact ⟨node, hMake, hNode⟩

/-- The edges that were put off complete the graph. -/
theorem assembled_of_wired {t : State R} (hKnown : ∀ d ∈ nodes, ∀ input ∈ d.input,
      ∃ src ∈ nodes, src.name = (inputId input).1)
    (hOk : addBackEdges env s.backEdges s = .ok t) :
    Assembled env opts nodes g₀ (placeIn s.nameIndex) t.graph := by
  obtain ⟨hLate, rfl⟩ := (addBackEdges_eq_ok (locates_placeIn s.nameIndex)).mp hOk
  have hPlace := fun (i : Nat) (d : Ops.NodeDef) (hGet : nodes[i]? = some d) =>
    placeIn_made hNodup hConverting hAll hGet
  have hEnds : ∀ e ∈ s.backEdges.map (lateEdge (placeIn s.nameIndex)),
      s.graph.IsNode e.src ∧ s.graph.IsNode e.dst := by
    intro e hMem
    obtain ⟨info, hInfo, rfl⟩ := mem_map.mp hMem
    obtain ⟨i, d, input, hd, hMade, hInput, hName, -⟩ := hWired.late info hInfo
    obtain ⟨src, hSrc, hSrcName⟩ :=
      hKnown d (mem_of_getElem? hd) input (mem_of_getElem? hInput)
    obtain ⟨_, -, hSrcNode⟩ := place_node hNodup hConverting hWired hAll hSrc
    obtain ⟨_, _, -, -, hDstNode⟩ := hWired.node i _ hMade
    rw [lateEdge, slotEdge_src, slotEdge_dst, hName, ← hSrcName]
    exact ⟨Graph.isNode_of_node hSrcNode, Graph.isNode_of_node hDstNode⟩
  have hEdges := addEdges_edges hEnds
  have hIsNode : ∀ id, (addEdges s.graph (s.backEdges.map
      (lateEdge (placeIn s.nameIndex)))).IsNode id ↔ s.graph.IsNode id := by
    intro id
    rw [Graph.isNode_iff, addEdges_node, Graph.isNode_iff]
  constructor
  · intro d hMem
    obtain ⟨node, hMake, hNode⟩ := place_node hNodup hConverting hWired hAll hMem
    exact ⟨node, hMake, (addEdges_node _ _ _).trans hNode⟩
  · intro d hMem
    obtain ⟨i, hGet⟩ := mem_iff_getElem?.mp hMem
    exact hWired.fresh i _ (hPlace i d hGet)
  · intro d hMem d' hMem' hEq
    obtain ⟨i, hGet⟩ := mem_iff_getElem?.mp hMem
    obtain ⟨j, hGet'⟩ := mem_iff_getElem?.mp hMem'
    obtain rfl := hWired.inj i j _ (hPlace i d hGet) (hEq ▸ hPlace j d' hGet')
    exact Option.some.inj (hGet.symm.trans hGet')
  · intro id hLt
    exact (addEdges_node _ _ _).trans (hWired.old id hLt)
  · intro id hGe hLive
    obtain ⟨i, hMade⟩ := hWired.only id hGe ((hIsNode id).mp hLive)
    obtain ⟨d, _, hGet, -, -⟩ := hWired.node i id hMade
    have hSame := hPlace i d hGet
    rw [hMade] at hSame
    exact ⟨d, mem_of_getElem? hGet, (Option.some.inj hSame).symm⟩
  · rw [hEdges, ← flatMap_edgesAt]
    apply (hWired.edges _ (locates_placeIn s.nameIndex)).trans
    exact (hAll.flatMap_right _).append_left _
  · intro e hMem
    rw [hEdges] at hMem
    have hTyped : Typed env s.graph e := by
      rcases mem_append.mp hMem with hMem | hMem
      · exact hWired.typed e hMem
      · obtain ⟨info, hInfo, rfl⟩ := mem_map.mp hMem
        exact (hLate info hInfo).2
    exact hTyped.congr fun id _ => addEdges_node _ _ id
  · intro d hMem hMerge input hInput
    obtain ⟨i, hGet⟩ := mem_iff_getElem?.mp hMem
    obtain ⟨j, id, hNames, hMade, hLt⟩ :=
      hWired.forward i _ (hPlace i d hGet) d hGet hMerge input hInput
    obtain ⟨src, hSrc, hName⟩ := namesNode_iff.mp hNames
    have hSame := hPlace j src hSrc
    rw [hMade, hName] at hSame
    rw [← Option.some.inj hSame]
    exact hLt
  · exact (addEdges_versions _ _).trans hWired.versions

end Finish

variable {nodes : List Ops.NodeDef}

theorem done_all {done : List Nat} {made : Nat → Option Nat} {s : State R}
    (h : Converting nodes done made s) (hLength : nodes.length ≤ done.length) :
    done.Perm (List.range nodes.length) := by
  have hNodup := (nodup_append.mp h.work.nodup).2.1
  have hSub : done ⊆ List.range nodes.length :=
    fun i hMem => mem_range.mpr (h.lt_length (mem_append_right _ hMem))
  apply (hNodup.subperm hSub).perm_of_length_le
  rw [List.length_range]
  exact hLength

theorem lookup_isSome {made : Nat → Option Nat}
    (hNodup : (nodes.map Ops.NodeDef.name).Nodup) {name : String} :
    ((indexWith nodes made 0).lookup name).isSome = true ↔ ∃ d ∈ nodes, d.name = name := by
  rw [Option.isSome_iff_exists]
  constructor
  · rintro ⟨info, hLookup⟩
    obtain ⟨d, hGet, hName, -⟩ := (lookup_indexWith hNodup).mp hLookup
    exact ⟨d, mem_of_getElem? hGet, hName⟩
  · rintro ⟨d, hMem, hName⟩
    obtain ⟨i, hGet⟩ := mem_iff_getElem?.mp hMem
    exact ⟨⟨i, made i⟩, (lookup_indexWith hNodup).mpr ⟨d, hGet, hName, rfl⟩⟩

section Whole

variable {gdef : GraphDef} {g₀ : Graph} {refiner : R} (hImporting : opts.importing = false)
  (hPrefix : opts.namePrefix = "") (hTyped : ∀ e ∈ g₀.edges, Typed env g₀ e)
include hImporting hPrefix hTyped

omit hPrefix in
theorem tryImport_assembled {s' : State R}
    (hOk : tryImport env opts gdef (.initial g₀ refiner) = .ok s') :
    Convertible env opts gdef.node ∧ ∃ at_ g, Assembled env opts gdef.node g₀ at_ g ∧
      s'.graph = (g.setVersions gdef.versions).fixupSourceAndSinkEdges := by
  simp only [tryImport, convert, Fallible.bind_eq_ok, orFail_eq_ok, check_eq_ok, exists_unit,
    decide_eq_true_eq, Except.ok.injEq] at hOk
  obtain ⟨-, t, hBuild, u, hInit, v, ⟨⟨w, processed⟩, hLoop, hAll, rfl⟩, x, hBack, rfl⟩ := hOk
  obtain ⟨hNamed, hNodup, rfl⟩ := buildNodeIndex_eq_ok.mp hBuild
  have hKnown : ∀ d ∈ gdef.node, ∀ input ∈ d.input,
      ∃ src ∈ gdef.node, src.name = (inputId input).1 := by
    intro d hMem input hInput
    have hLookup := initFromEdges_isOk.mp ⟨u, hInit⟩ d hMem input hInput
    change ((indexWith gdef.node (fun _ => none) 0).lookup _).isSome = true at hLookup
    exact (lookup_isSome hNodup).mp hLookup
  have hPrepared := initFromEdges_prepared hNodup rfl rfl rfl rfl hInit
  have hSame := initFromEdges_ends.of_ok hInit
  have hWired₀ : Wired env opts gdef.node g₀ [] (fun _ => none) u :=
    .initial hSame.1 hPrepared.backEdges hTyped
  obtain ⟨done, made, hConverting, hWired, rfl, -⟩ :=
    convertLoop_wired hImporting hNodup hPrepared.converting hWired₀ hLoop
  have hPerm := done_all hConverting hAll
  have hAssembled := assembled_of_wired hNodup hConverting hWired hPerm hKnown hBack
  refine ⟨?_, _, x.graph, hAssembled, ?_⟩
  · constructor
    · exact fun d hMem => (hNamed d hMem).1
    · exact hNodup
    · exact hKnown
    · intro d hMem
      obtain ⟨i, hGet⟩ := mem_iff_getElem?.mp hMem
      exact hWired.ordered i _ (placeIn_made hNodup hConverting hPerm hGet) d hGet
    · intro d hMem
      obtain ⟨node, hMake, -⟩ := hAssembled.node d hMem
      exact ⟨node, hMake⟩
    · intro d hMem i input hInput hData src hSrc hName srcNode dstNode hSrcMake hDstMake at_
      have hEdge : inputEdge (placeIn w.nameIndex) d.name i input ∈ x.graph.edges := by
        rw [hAssembled.edges.mem_iff]
        apply mem_append_right
        exact mem_flatMap.mpr ⟨d, hMem, mem_inputEdges.mpr ⟨i, input, hInput, rfl⟩⟩
      obtain ⟨srcNode', dstNode', hSrcNode, hDstNode, hFits⟩ :=
        hAssembled.typed _ hEdge (by rwa [inputEdge_srcOutput])
      rw [inputEdge_src, ← hName] at hSrcNode
      rw [inputEdge_dst] at hDstNode
      obtain ⟨srcNode'', hMake, hNode⟩ := hAssembled.node src hSrc
      obtain ⟨dstNode'', hMake', hNode'⟩ := hAssembled.node d hMem
      obtain rfl : srcNode' = srcNode'' := Option.some.inj (hSrcNode.symm.trans hNode)
      obtain rfl : dstNode' = dstNode'' := Option.some.inj (hDstNode.symm.trans hNode')
      obtain rfl : srcNode' = srcNode := Except.ok.inj (hMake.symm.trans hSrcMake)
      obtain rfl : dstNode' = dstNode := Except.ok.inj (hMake'.symm.trans hDstMake)
      rw [inputEdge, fits_slotEdge hData] at hFits ⊢
      exact hFits
    · exact ⟨done, hConverting.admissible, hPerm⟩
  · have hVersions : updatedVersions opts gdef x.graph.versions = gdef.versions := by
      rw [updatedVersions, hImporting]
      rfl
    rw [hVersions]

variable (refiner) in
/-- What is convertible is converted. -/
theorem tryImport_isOk (hConvertible : Convertible env opts gdef.node)
    (hOutputs : NamesOutputs env opts gdef.node) :
    ∃ s', tryImport env opts gdef (.initial g₀ refiner) = .ok s' := by
  have hNames : ensureNoNameCollisions opts gdef g₀ = .ok () := by
    rw [ensureNoNameCollisions, if_pos hPrefix, hImporting]
    rfl
  have hNodup := hConvertible.nodup
  let indexed : State R := { State.initial g₀ refiner with
    nameIndex := indexWith gdef.node (fun _ => none) 0 }
  have hBuild : buildNodeIndex opts gdef.node 0 (.initial g₀ refiner) = .ok indexed := by
    apply buildNodeIndex_eq_ok.mpr
    refine ⟨fun d hMem => ⟨hConvertible.named d hMem, ?_⟩, hNodup, rfl⟩
    simp [State.initial]
  obtain ⟨u, hInit⟩ : ∃ u, initFromEdges gdef.node 0
      { indexed with outputs := List.replicate gdef.node.length [] } = .ok u := by
    apply initFromEdges_isOk.mpr
    intro d hMem input hInput
    change ((indexWith gdef.node (fun _ => none) 0).lookup _).isSome = true
    exact (lookup_isSome hNodup).mpr (hConvertible.known d hMem input hInput)
  have hPrepared := initFromEdges_prepared hNodup rfl rfl rfl rfl hInit
  have hSame := initFromEdges_ends.of_ok hInit
  have hWired₀ : Wired env opts gdef.node g₀ [] (fun _ => none) u :=
    .initial hSame.1 hPrepared.backEdges hTyped
  obtain ⟨⟨w, processed⟩, hLoop⟩ := convertLoop_progress hImporting hConvertible hOutputs
    gdef.node.length 0 hPrepared.converting hWired₀
  obtain ⟨done, made, hConverting, hWired, rfl, hEnd⟩ :=
    convertLoop_wired hImporting hNodup hPrepared.converting hWired₀ hLoop
  have hAll : gdef.node.length ≤ done.length := by
    rcases hEnd with hReady | hLength
    · obtain ⟨order, hAdmissible, hOrder⟩ := hConvertible.order
      have hWork : w.work = ⟨[], w.work.pending⟩ := by rw [← hReady]
      have hComplete := (hWork ▸ hConverting.work).complete hAdmissible
      have hLe := (hAdmissible.nodup.subperm hComplete).length_le
      rwa [hOrder.length_eq, List.length_range] at hLe
    · rw [hLength]
      exact Nat.le_add_left ..
  have hPerm := done_all hConverting hAll
  have hLate : ∀ e ∈ w.backEdges,
      ((w.nameIndex.lookup e.srcName).bind NodeInfo.node).isSome = true ∧
        Typed env w.graph (lateEdge (placeIn w.nameIndex) e) := by
    intro e hMem
    obtain ⟨i, d, input, hGet, hMade, hInput, hName, hIndex⟩ := hWired.late e hMem
    have hd := mem_of_getElem? hGet
    obtain ⟨src, hSrc, hSrcName⟩ := hConvertible.known d hd input (mem_of_getElem? hInput)
    obtain ⟨j, hj⟩ := mem_iff_getElem?.mp hSrc
    have hSrcMade := placeIn_made hNodup hConverting hPerm hj
    constructor
    · rw [hConverting.index, hName, ← hSrcName]
      exact Option.isSome_iff_exists.mpr ⟨_, (lookup_node hNodup).mpr ⟨j, src, hj, rfl, hSrcMade⟩⟩
    · intro hData
      rw [lateEdge, slotEdge_srcOutput] at hData
      obtain ⟨srcNode, hSrcMake, hSrcNode⟩ := place_node hNodup hConverting hWired hPerm hSrc
      obtain ⟨dstNode, hDstMake, hDstNode⟩ := place_node hNodup hConverting hWired hPerm hd
      have hDst : placeIn w.nameIndex d.name = e.dstNode := by
        have hSame := placeIn_made hNodup hConverting hPerm hGet
        rw [hMade] at hSame
        exact (Option.some.inj hSame).symm
      refine ⟨srcNode, dstNode, ?_, ?_, ?_⟩
      · rw [lateEdge, slotEdge_src, hName, ← hSrcName, hSrcNode]
      · rw [lateEdge, slotEdge_dst, ← hDst, hDstNode]
      · have hFits := hConvertible.fits d hd e.dstIndex input hInput (hIndex ▸ hData) src hSrc
          hSrcName srcNode dstNode hSrcMake hDstMake fun _ => 0
        rw [inputEdge, fits_slotEdge (hIndex ▸ hData), ← hIndex] at hFits
        rw [lateEdge, fits_slotEdge hData]
        exact hFits
  have hBack := (addBackEdges_eq_ok (locates_placeIn w.nameIndex)).mpr ⟨hLate, rfl⟩
  simp only [tryImport, convert, Fallible.bind_eq_ok, orFail_eq_ok, check_eq_ok, exists_unit,
    decide_eq_true_eq]
  exact ⟨_, hNames, indexed, hBuild, u, hInit, w, ⟨⟨w, done.length⟩, hLoop, hAll, rfl⟩, _, hBack,
    rfl⟩

end Whole

variable {nodes' : List Ops.NodeDef}

theorem NamesOutputs.perm (h : NamesOutputs env opts nodes)
    (hPerm : nodes'.Perm nodes) : NamesOutputs env opts nodes' := by
  intro d hMem input hInput hData
  obtain ⟨src, hSrc, hRest⟩ := h d (hPerm.mem_iff.mp hMem) input hInput hData
  exact ⟨src, hPerm.mem_iff.mpr hSrc, hRest⟩

def placeAmong (nodes nodes' : List Ops.NodeDef) (i : Nat) : Nat :=
  match nodes[i]? with
  | some d => nodes'.idxOf d
  | none => 0

theorem placeAmong_spec (hPerm : nodes'.Perm nodes) {i : Nat}
    (hGet : nodes[i]? = some d) : nodes'[placeAmong nodes nodes' i]? = some d := by
  have hMem : d ∈ nodes' := hPerm.mem_iff.mpr (mem_of_getElem? hGet)
  have hPlace : placeAmong nodes nodes' i = nodes'.idxOf d := by rw [placeAmong, hGet]
  rw [hPlace]
  exact getElem?_idxOf hMem

theorem Convertible.perm (h : Convertible env opts nodes)
    (hPerm : nodes'.Perm nodes) : Convertible env opts nodes' := by
  have hMem : ∀ d, d ∈ nodes' ↔ d ∈ nodes := fun d => hPerm.mem_iff
  obtain ⟨order, hAdmissible, hOrder⟩ := h.order
  have hGet : ∀ i ∈ order, ∃ d, nodes[i]? = some d ∧
      nodes'[placeAmong nodes nodes' i]? = some d := by
    intro i hi
    have hLt := mem_range.mp (hOrder.mem_iff.mp hi)
    have hSome : nodes[i]? = some nodes[i] := getElem?_eq_getElem hLt
    exact ⟨_, hSome, placeAmong_spec hPerm hSome⟩
  have hInj : ∀ i ∈ order, ∀ j ∈ order,
      placeAmong nodes nodes' i = placeAmong nodes nodes' j → i = j := by
    intro i hi j hj hEq
    obtain ⟨d, hd, hd'⟩ := hGet i hi
    obtain ⟨e, he, he'⟩ := hGet j hj
    rw [hEq, he'] at hd'
    obtain rfl := Option.some.inj hd'
    exact name_inj h.nodup hd he rfl
  constructor
  · exact fun d hd => h.named d ((hMem d).mp hd)
  · exact (hPerm.map _).nodup_iff.mpr h.nodup
  · intro d hd input hInput
    obtain ⟨src, hSrc, hName⟩ := h.known d ((hMem d).mp hd) input hInput
    exact ⟨src, (hMem src).mpr hSrc, hName⟩
  · exact fun d hd => h.controlLast d ((hMem d).mp hd)
  · exact fun d hd => h.makes d ((hMem d).mp hd)
  · intro d hd i input hInput hData src hSrc
    exact h.fits d ((hMem d).mp hd) i input hInput hData src ((hMem src).mp hSrc)
  · refine ⟨order.map (placeAmong nodes nodes'), ?_, ?_⟩
    · apply hAdmissible.map _ hInj
      · intro i hi hStart
        obtain ⟨d, hd, hd'⟩ := hGet i hi
        obtain ⟨e, he, hEmpty⟩ := mem_start.mp hStart
        obtain rfl : d = e := Option.some.inj (hd.symm.trans he)
        exact mem_start.mpr ⟨d, hd', hEmpty⟩
      · intro i hi
        obtain ⟨d, hd, hd'⟩ := hGet i hi
        simp [tasksOf, hd, hd']
      · intro i hi o ho
        obtain ⟨d, hd, hd'⟩ := hGet i hi
        obtain ⟨e, he, he'⟩ := hGet o ho
        have hNames : namesNode nodes' (placeAmong nodes nodes' o) = namesNode nodes o := by
          funext input
          rw [namesNode, namesNode, he, he']
        have hCount := count_outputsOf nodes o i
        have hCount' := count_outputsOf nodes' (placeAmong nodes nodes' o)
          (placeAmong nodes nodes' i)
        rw [hd] at hCount
        rw [hd', hNames] at hCount'
        exact hCount'.trans hCount.symm
    · have hNodup : (order.map (placeAmong nodes nodes')).Nodup :=
        List.Nodup.map_on hInj hAdmissible.nodup
      have hSub : order.map (placeAmong nodes nodes') ⊆ List.range nodes'.length := by
        intro j hj
        obtain ⟨i, hi, rfl⟩ := mem_map.mp hj
        obtain ⟨d, -, hd'⟩ := hGet i hi
        exact mem_range.mpr (List.getElem?_eq_some_iff.mp hd').1
      apply (hNodup.subperm hSub).perm_of_length_le
      rw [List.length_range, length_map, hOrder.length_eq, List.length_range, hPerm.length_eq]

section Order

variable {nodes nodes' : List Ops.NodeDef} {g₀ g g' : Graph} {at_ at' : String → Nat}

def transport (nodes : List Ops.NodeDef) (g₀ : Graph) (at_ at' : String → Nat) (id : Nat) : Nat :=
  if id < g₀.numNodeIds then id
  else
    match nodes.find? fun d => at_ d.name = id with
    | some d => at' d.name
    | none => id

theorem transport_place (h : Assembled env opts nodes g₀ at_ g) (hMem : d ∈ nodes) :
    transport nodes g₀ at_ at' (at_ d.name) = at' d.name := by
  unfold transport
  rw [if_neg (Nat.not_lt_of_le (h.fresh d hMem))]
  cases hFind : nodes.find? fun d' => at_ d'.name = at_ d.name with
  | none => exact absurd (find?_eq_none.mp hFind d hMem) (by simp)
  | some d' =>
    have hEq : at_ d'.name = at_ d.name := by simpa using find?_some hFind
    rw [h.inj d' (mem_of_find?_eq_some hFind) d hMem hEq]

theorem transport_old {id : Nat} (h : id < g₀.numNodeIds) : transport nodes g₀ at_ at' id = id := by
  rw [transport, if_pos h]

theorem relabel_inputEdgesFrom {rename : Nat → Nat} {dst : String} {inputs : List String} {n : Nat}
    (hDst : rename (at_ dst) = at' dst)
    (hSrc : ∀ input ∈ inputs, rename (at_ (inputId input).1) = at' (inputId input).1) :
    (inputEdgesFrom at_ dst inputs n).map (relabel rename) = inputEdgesFrom at' dst inputs n := by
  induction inputs generalizing n with
  | nil => rfl
  | cons input rest ih =>
    rw [forall_mem_cons] at hSrc
    have hEdge : relabel rename (inputEdge at_ dst n input) = inputEdge at' dst n input := by
      unfold inputEdge slotEdge relabel
      split <;> simp [hDst, hSrc.1]
    rw [inputEdgesFrom, inputEdgesFrom, map_cons, ih hSrc.2, hEdge]

theorem Assembled.relabels (h : Assembled env opts nodes g₀ at_ g)
    (h' : Assembled env opts nodes' g₀ at' g') (hPerm : nodes'.Perm nodes)
    (hKnown : ∀ d ∈ nodes, ∀ input ∈ d.input, ∃ src ∈ nodes, src.name = (inputId input).1) :
    Relabels (transport nodes g₀ at_ at') g g' := by
  have hSplit : ∀ id, g.IsNode id → id < g₀.numNodeIds ∨ ∃ d ∈ nodes, at_ d.name = id := by
    intro id hLive
    by_cases hLt : id < g₀.numNodeIds
    · exact Or.inl hLt
    · exact Or.inr (h.only id (Nat.le_of_not_lt hLt) hLive)
  have hMem : ∀ d, d ∈ nodes' ↔ d ∈ nodes := fun d => hPerm.mem_iff
  constructor
  · intro id hLive
    rcases hSplit id hLive with hLt | ⟨d, hd, rfl⟩
    · rw [transport_old hLt, h.old id hLt, h'.old id hLt]
    · obtain ⟨node, hMake, hNode⟩ := h.node d hd
      obtain ⟨node', hMake', hNode'⟩ := h'.node d ((hMem d).mpr hd)
      obtain rfl : node = node' := Except.ok.inj (hMake.symm.trans hMake')
      rw [transport_place h hd, hNode, hNode']
  · intro id id' hId hId' hEq
    rcases hSplit id hId with hLt | ⟨d, hd, rfl⟩
    · rcases hSplit id' hId' with hLt' | ⟨d', hd', rfl⟩
      · rwa [transport_old hLt, transport_old hLt'] at hEq
      · rw [transport_old hLt, transport_place h hd'] at hEq
        have := h'.fresh d' ((hMem d').mpr hd')
        omega
    · rcases hSplit id' hId' with hLt' | ⟨d', hd', rfl⟩
      · rw [transport_old hLt', transport_place h hd] at hEq
        have := h'.fresh d ((hMem d).mpr hd)
        omega
      · rw [transport_place h hd, transport_place h hd'] at hEq
        rw [h'.inj d ((hMem d).mpr hd) d' ((hMem d').mpr hd') hEq]
  · intro id' hLive
    by_cases hLt : id' < g₀.numNodeIds
    · refine ⟨id', ?_, transport_old hLt⟩
      rw [Graph.isNode_iff, h'.old id' hLt] at hLive
      rw [Graph.isNode_iff, h.old id' hLt]
      exact hLive
    · obtain ⟨d, hd, rfl⟩ := h'.only id' (Nat.le_of_not_lt hLt) hLive
      have hd' := (hMem d).mp hd
      obtain ⟨_, -, hNode⟩ := h.node d hd'
      exact ⟨at_ d.name, Graph.isNode_of_node hNode, transport_place h hd'⟩
  · exact transport_old g₀.source_live.lt_length
  · exact transport_old g₀.sink_live.lt_length
  · have hOld : g₀.edges.map (relabel (transport nodes g₀ at_ at')) = g₀.edges := by
      have hSame : g₀.edges.map (relabel (transport nodes g₀ at_ at')) = g₀.edges.map id := by
        apply map_congr_left
        intro e hEdge
        obtain ⟨hSrc, hDst⟩ := g₀.ends_live e hEdge
        rw [relabel, transport_old hSrc.lt_length, transport_old hDst.lt_length]
        rfl
      rw [hSame, map_id]
    have hNew : (nodes.flatMap (inputEdges at_)).map (relabel (transport nodes g₀ at_ at')) =
        nodes.flatMap (inputEdges at') := by
      rw [map_flatMap]
      apply flatMap_congr
      intro d hd
      apply relabel_inputEdgesFrom (transport_place h hd)
      intro input hInput
      obtain ⟨src, hSrc, hName⟩ := hKnown d hd input hInput
      rw [← hName]
      exact transport_place h hSrc
    have hMap := h.edges.map (relabel (transport nodes g₀ at_ at'))
    rw [map_append, hOld, hNew] at hMap
    apply h'.edges.trans
    exact ((hPerm.flatMap_right _).append_left _).trans hMap.symm
  · rw [h'.versions, h.versions]

end Order

end TensorFlowOnSpark.Construction
