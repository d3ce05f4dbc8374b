import TensorFlowOnSpark.Graph.GraphConstructorIndex

/-!
# An import that fails leaves the graph alone

Whatever the constructor has added when an error is met, the nodes of it are those that
the name index knows, and its edges start at them.
-/

namespace TensorFlowOnSpark.Construction

open Ops Fallible List Construction.Graph Function Nat

variable {R H : Type}

/-- What `Undo` needs to know of the graph and the index to restore `g`. -/
structure Undoable (g graph : Graph) (nameIndex : List (String × NodeInfo)) : Prop where
  grows : g.numNodeIds ≤ graph.numNodeIds
  lower : ∀ id < g.numNodeIds, graph.node id = g.node id
  edges : ∃ added, graph.edges = g.edges ++ added ∧ ∀ e ∈ added, g.numNodeIds ≤ e.src
  fresh : ∀ entry ∈ nameIndex, ∀ id, entry.2.node = some id → g.numNodeIds ≤ id
  recorded : ∀ id, g.numNodeIds ≤ id → graph.IsNode id →
    ∃ entry ∈ nameIndex, entry.2.node = some id

theorem Graph.kSinkId_lt_numNodeIds (g : Graph) : kSinkId < g.numNodeIds := g.sink_live.lt_length

theorem removeNode_node {g : Graph} {id : Nat} (hOp : kSinkId < id) (id' : Nat) :
    (g.removeNode id).node id' = if id = id' then none else g.node id' := by
  unfold removeNode
  rw [dif_pos hOp]
  exact findNodeId_set_none id'

theorem removeNode_edges {g : Graph} {id : Nat} (hOp : kSinkId < id) :
    (g.removeNode id).edges = g.edges.filter fun e => e.src ≠ id ∧ e.dst ≠ id := by
  unfold removeNode
  rw [dif_pos hOp]

def recordedIds (index : List (String × NodeInfo)) : List Nat :=
  index.filterMap fun entry => entry.2.node

variable {index : List (String × NodeInfo)}

theorem foldl_removeRecorded {g : Graph} (hOps : ∀ id ∈ recordedIds index, kSinkId < id) :
    (∀ id, (index.foldl removeRecorded g).node id =
      if id ∈ recordedIds index then none else g.node id) ∧
    (index.foldl removeRecorded g).edges =
      g.edges.filter fun e => e.src ∉ recordedIds index ∧ e.dst ∉ recordedIds index := by
  induction index generalizing g with
  | nil => simp [recordedIds]
  | cons entry rest ih =>
    rw [foldl_cons]
    cases hNode : entry.2.node with
    | none =>
      have hIds : recordedIds (entry :: rest) = recordedIds rest := by
        simp [recordedIds, hNode]
      have hSame : removeRecorded g entry = g := by simp [removeRecorded, hNode]
      rw [hIds] at hOps ⊢
      rw [hSame]
      exact ih hOps
    | some id =>
      have hIds : recordedIds (entry :: rest) = id :: recordedIds rest := by
        simp [recordedIds, hNode]
      have hRemove : removeRecorded g entry = g.removeNode id := by simp [removeRecorded, hNode]
      rw [hIds] at hOps ⊢
      rw [forall_mem_cons] at hOps
      obtain ⟨hNodes, hEdges⟩ := ih (g := g.removeNode id) hOps.2
      rw [hRemove, hEdges, removeNode_edges hOps.1, filter_filter]
      constructor
      · intro id'
        rw [hNodes, removeNode_node hOps.1]
        by_cases hEq : id = id'
        · simp [hEq]
        · simp [hEq, Ne.symm hEq]
      · apply filter_congr
        intro e _
        simp only [mem_cons, not_or, ← Bool.decide_and]
        congr 1
        exact propext (by tauto)

theorem mem_recordedIds {id : Nat} :
    id ∈ recordedIds index ↔ ∃ entry ∈ index, entry.2.node = some id := by
  simp [recordedIds]

structure SameGraph (g g' : Graph) : Prop where
  node : ∀ id, g'.node id = g.node id
  edges : g'.edges = g.edges
  versions : g'.versions = g.versions

theorem undo_restores {env : Environment R H} {g : Graph} {s : State R}
    (h : Undoable g s.graph s.nameIndex) : SameGraph g (undo env g.versions s) := by
  have hPerm := (env.walk_perm s.nameIndex).filterMap fun entry => entry.2.node
  have hMem : ∀ id, id ∈ recordedIds (env.walk s.nameIndex) ↔
      ∃ entry ∈ s.nameIndex, entry.2.node = some id := by
    intro id
    rw [← mem_recordedIds]
    exact hPerm.mem_iff
  have hFresh : ∀ id ∈ recordedIds (env.walk s.nameIndex), g.numNodeIds ≤ id := by
    intro id hId
    obtain ⟨entry, hEntry, hNode⟩ := (hMem id).mp hId
    exact h.fresh entry hEntry id hNode
  obtain ⟨hNodes, hEdges⟩ := foldl_removeRecorded (g := s.graph) fun id hId =>
    Nat.lt_of_lt_of_le g.kSinkId_lt_numNodeIds (hFresh id hId)
  constructor
  · intro id
    have hUndone := hNodes id
    change ((env.walk s.nameIndex).foldl removeRecorded s.graph).node id = g.node id
    rw [hUndone]
    by_cases hLt : id < g.numNodeIds
    · rw [if_neg fun hId => absurd (hFresh id hId) (by omega), h.lower id hLt]
    · have hGe : g.numNodeIds ≤ id := Nat.le_of_not_lt hLt
      have hGone : g.node id = none := by
        unfold node findNodeId
        rw [getElem?_eq_none hGe]
        rfl
      rw [hGone]
      split
      · rfl
      · have hDead : ¬s.graph.IsNode id := fun hLive =>
          ‹id ∉ _› ((hMem id).mpr (h.recorded id hGe hLive))
        rw [isNode_iff, Bool.not_eq_true, Option.isSome_eq_false_iff,
          Option.isNone_iff_eq_none] at hDead
        exact hDead
  · change ((env.walk s.nameIndex).foldl removeRecorded s.graph).edges = g.edges
    obtain ⟨added, hGraph, hAdded⟩ := h.edges
    rw [hEdges, hGraph, filter_append]
    have hOld : ∀ e ∈ g.edges, decide (e.src ∉ recordedIds (env.walk s.nameIndex) ∧
        e.dst ∉ recordedIds (env.walk s.nameIndex)) := by
      intro e hEdge
      obtain ⟨hSrc, hDst⟩ := g.ends_live e hEdge
      rw [decide_eq_true_eq]
      constructor
      · exact fun hId => absurd (hFresh _ hId) (Nat.not_le_of_lt hSrc.lt_length)
      · exact fun hId => absurd (hFresh _ hId) (Nat.not_le_of_lt hDst.lt_length)
    have hNew : ∀ e ∈ added, ¬decide (e.src ∉ recordedIds (env.walk s.nameIndex) ∧
        e.dst ∉ recordedIds (env.walk s.nameIndex)) := by
      intro e hEdge
      rw [decide_eq_true_eq]
      rintro ⟨hSrc, -⟩
      have hLive := (s.graph.ends_live e (hGraph ▸ mem_append_right _ hEdge)).1
      exact hSrc ((hMem _).mpr (h.recorded _ (hAdded e hEdge) hLive))
    rw [filter_eq_self.mpr hOld, filter_eq_nil_iff.mpr hNew, append_nil]
  · rfl

namespace Undoable

variable {g graph : Graph} {nameIndex : List (String × NodeInfo)}

theorem untouched (hNone : ∀ entry ∈ nameIndex, entry.2.node = none) : Undoable g g nameIndex := by
  constructor
  · exact Nat.le_refl _
  · intro id _
    rfl
  · exact ⟨[], by simp, by simp⟩
  · intro entry hMem id hNode
    rw [hNone entry hMem] at hNode
    cases hNode
  · intro id hGe hLive
    exact absurd hLive.lt (Nat.not_lt_of_le hGe)

section

variable (h : Undoable g graph nameIndex)

include h

theorem addEdge {e : Edge} (hNew : g.numNodeIds ≤ e.src) :
    Undoable g (graph.addEdge e) nameIndex := by
  have hNodes : (graph.addEdge e).nodes = graph.nodes := addEdge_nodes e
  constructor
  · unfold numNodeIds
    rw [hNodes]
    exact h.grows
  · intro id hLt
    rw [node_addEdge]
    exact h.lower id hLt
  · obtain ⟨added, hEdges, hAdded⟩ := h.edges
    by_cases hEnds : graph.IsNode e.src ∧ graph.IsNode e.dst
    · refine ⟨added ++ [e], ?_, ?_⟩
      · rw [addEdge_edges hEnds.1 hEnds.2, hEdges, append_assoc]
      · intro e' hMem
        rcases mem_append.mp hMem with hMem | hMem
        · exact hAdded e' hMem
        · rw [mem_singleton.mp hMem]
          exact hNew
    · unfold Graph.addEdge
      rw [dif_neg hEnds]
      exact ⟨added, hEdges, hAdded⟩
  · exact h.fresh
  · intro id hGe hLive
    rw [isNode_iff, node_addEdge] at hLive
    exact h.recorded id hGe hLive

theorem modifyNode {id : Nat} (hNew : g.numNodeIds ≤ id)
    (f : Node → Node) : Undoable g (graph.modifyNode id f) nameIndex := by
  constructor
  · unfold numNodeIds Graph.modifyNode
    rw [length_modify]
    exact h.grows
  · intro id' hLt
    rw [node_modifyNode, if_neg (by omega)]
    exact h.lower id' hLt
  · exact h.edges
  · exact h.fresh
  · intro id' hGe hLive
    exact h.recorded id' hGe (live_modify.mp hLive)

theorem allocateNode {node : Node}
    {nameIndex' : List (String × NodeInfo)}
    (hNew : ∀ id, (∃ entry ∈ nameIndex', entry.2.node = some id) ↔
      (∃ entry ∈ nameIndex, entry.2.node = some id) ∨ id = graph.numNodeIds) :
    Undoable g (graph.allocateNode node) nameIndex' := by
  have hLength : (graph.allocateNode node).numNodeIds = graph.numNodeIds + 1 := by
    simp [numNodeIds, Graph.allocateNode]
  constructor
  · rw [hLength]
    exact le_succ_of_le h.grows
  · intro id hLt
    rw [node_allocateNode_of_lt (Nat.lt_of_lt_of_le hLt h.grows)]
    exact h.lower id hLt
  · exact h.edges
  · intro entry hMem id hNode
    rcases (hNew id).mp ⟨entry, hMem, hNode⟩ with ⟨entry', hMem', hNode'⟩ | hEq
    · exact h.fresh entry' hMem' id hNode'
    · rw [hEq]
      exact h.grows
  · intro id hGe hLive
    rw [hNew]
    by_cases hLt : id < graph.numNodeIds
    · left
      rw [isNode_iff, node_allocateNode_of_lt hLt] at hLive
      exact h.recorded id hGe hLive
    · right
      have := hLive.lt
      omega

end

end Undoable

variable {made : Nat → Option Nat}
variable {nodeDef : Ops.NodeDef} {nodes : List Ops.NodeDef}

theorem recorded_update {o new : Nat} (hNone : made o = none) (hGet : nodes[o]? = some nodeDef)
    {id : Nat} :
    (∃ entry ∈ indexWith nodes (update made o (some new)) 0, entry.2.node = some id) ↔
      (∃ entry ∈ indexWith nodes made 0, entry.2.node = some id) ∨ id = new := by
  constructor
  · rintro ⟨entry, hMem, hNode⟩
    obtain ⟨i, d, hi, rfl⟩ := mem_indexWith.mp hMem
    simp only [Nat.zero_add] at hNode
    by_cases hEq : i = o
    · subst hEq
      rw [Function.update_self] at hNode
      exact Or.inr (Option.some.inj hNode).symm
    · rw [Function.update_of_ne hEq] at hNode
      exact Or.inl ⟨_, mem_indexWith.mpr ⟨i, d, hi, rfl⟩, by simpa using hNode⟩
  · rintro (⟨entry, hMem, hNode⟩ | rfl)
    · obtain ⟨i, d, hi, rfl⟩ := mem_indexWith.mp hMem
      simp only [Nat.zero_add] at hNode
      have hNe : i ≠ o := by
        rintro rfl
        rw [hNone] at hNode
        cases hNode
      refine ⟨_, mem_indexWith.mpr ⟨i, d, hi, rfl⟩, ?_⟩
      rw [Nat.zero_add, Function.update_of_ne hNe]
      exact hNode
    · refine ⟨_, mem_indexWith.mpr ⟨o, nodeDef, hGet, rfl⟩, ?_⟩
      rw [Nat.zero_add, Function.update_self]

section Rounds

variable {env : Environment R H} {opts : Options} {g : Graph}

def Undoing (g : Graph) (s : State R) (x : Except (Failure R) (State R)) : Prop :=
  Ends (fun s' => Undoable g s'.graph s'.nameIndex ∧ SameWork s s')
    (fun f => Undoable g f.state.graph f.state.nameIndex) x

variable {s : State R} {id : Nat} {gdef : GraphDef}
variable {x : Except (Failure R) (State R)}

theorem Undoing.bind {f : State R → Except (Failure R) (State R)} (h : Undoing g s x)
    (hNext : ∀ t, Undoable g t.graph t.nameIndex → SameWork s t → Undoing g t (f t)) :
    Undoing g s (x >>= f) := by
  refine Ends.bind h fun t _ hUndo => ?_
  apply (hNext t hUndo.1 hUndo.2).mono
  · intro s' hDone
    exact ⟨hDone.1, hUndo.2.trans hDone.2⟩
  · exact fun _ hFail => hFail

theorem Undoing.ofSame {t : State R} (hSame : SameWork s t) (h : Undoing g t x) : Undoing g s x :=
  Ends.mono h (fun _ hDone => ⟨hDone.1, hSame.trans hDone.2⟩) fun _ hFail => hFail

theorem makeEdge_undoing {src dst inputIndex : Nat} {outputIndex : Int}
    (h : Undoable g s.graph s.nameIndex) (hSrc : g.numNodeIds ≤ src) :
    Undoing g s (makeEdge env src outputIndex dst inputIndex s) := by
  refine (orFail_ends fun _ => h).bind fun _ _ _ => ?_
  exact .ok ⟨h.addEdge hSrc, rfl, rfl, rfl⟩

theorem addInputs_undoing {i : Nat} {inputs : List InputInfo} (h : Undoable g s.graph s.nameIndex)
    (hInputs : ∀ input ∈ inputs, ∀ src, input.node = some src → g.numNodeIds ≤ src) :
    Undoing g s (addInputs env id inputs i s) := by
  induction inputs generalizing i s with
  | nil => exact .ok ⟨h, .refl s⟩
  | cons input rest ih =>
    rw [forall_mem_cons] at hInputs
    rw [addInputs]
    split
    · apply Undoing.ofSame ?_ (ih ?_ hInputs.2)
      · exact ⟨rfl, rfl, rfl⟩
      · exact h
    · rename_i src hNode
      have hSrc := hInputs.1 src hNode
      split
      · apply Undoing.ofSame ?_ (ih ?_ hInputs.2)
        · exact ⟨rfl, rfl, rfl⟩
        · exact h.addEdge hSrc
      · exact (makeEdge_undoing h hSrc).bind fun t hUndo _ => ih hUndo hInputs.2

theorem setShapes_undoing {i : Nat} {shapes : List Bytes} (h : Undoable g s.graph s.nameIndex)
    : Undoing g s (setShapes env id nodeDef shapes i s) := by
  induction shapes generalizing i s with
  | nil => exact .ok ⟨h, .refl s⟩
  | cons proto rest ih =>
    rw [setShapes]
    split
    · exact .error h
    · split
      · apply Undoing.ofSame ?_ (ih ?_)
        · exact ⟨rfl, rfl, rfl⟩
        · exact h
      · split
        · apply Undoing.ofSame ?_ (ih ?_)
          · exact ⟨rfl, rfl, rfl⟩
          · exact h
        · exact .error h

theorem validateShape_undoing {node : Node} (h : Undoable g s.graph s.nameIndex)
    (hNew : g.numNodeIds ≤ id) : Undoing g s (validateShape env opts id node s) := by
  unfold Undoing validateShape
  split
  · split
    · exact .error h
    · split
      · exact .ok ⟨h, rfl, rfl, rfl⟩
      · refine (orFail_ends fun _ => h).bind fun _ _ _ => ?_
        refine Ends.bind (setShapes_undoing h) fun t _ hSet => ?_
        exact .ok ⟨hSet.1.modifyNode hNew _, hSet.2.nameIndex, hSet.2.work, hSet.2.outputs⟩
  · exact .ok ⟨h, .refl s⟩

theorem convertNode_ends {done : List Nat} {o : Nat} {rest : List Nat}
    (hNodup : (nodes.map Ops.NodeDef.name).Nodup) (hGet : nodes[o]? = some nodeDef)
    (h : Undoable g s.graph s.nameIndex) (hConverting : Converting nodes done made s)
    (hReady : s.work.ready = o :: rest) :
    Fallible.Ends (fun s' => Undoable g s'.graph s'.nameIndex ∧
        Converting nodes (o :: done) (update made o (some s.graph.numNodeIds)) s')
      (fun f => Undoable g f.state.graph f.state.nameIndex)
      (convertNode env opts o nodeDef { s with work := ⟨rest, s.work.pending⟩ }) := by
  refine (orFail_ends fun _ => h).bind fun _ _ _ => ?_
  refine (orFail_ends fun _ => h).bind fun collected hCollected _ => ?_
  refine (orFail_ends fun _ => h).bind fun _ _ _ => ?_
  refine (orFail_ends fun _ => h).bind fun importedDef _ _ => ?_
  refine (orFail_ends fun _ => h).bind fun node _ _ => ?_
  have hIndex : s.nameIndex.map (setNode s.graph.numNodeIds nodeDef.name) =
      indexWith nodes (update made o (some s.graph.numNodeIds)) 0 := by
    rw [hConverting.index]
    exact map_setNode hNodup hGet
  have hMade : Undoable g (s.graph.allocateNode node)
      (s.nameIndex.map (setNode s.graph.numNodeIds nodeDef.name)) := by
    apply h.allocateNode
    intro id
    rw [hIndex, hConverting.index]
    exact recorded_update (hConverting.not_made hReady) hGet
  have hInputs : ∀ input ∈ collected.1, ∀ src, input.node = some src → g.numNodeIds ≤ src := by
    have hEq := (collectInputs_eq_ok.mp (orFail_eq_ok.mp hCollected)).2.2.2
    rw [hEq]
    intro input hMem src hNode
    obtain ⟨name, -, rfl⟩ := mem_map.mp hMem
    obtain ⟨entry, hEntry, hFound⟩ := infoOf_node hNode
    exact h.fresh entry hEntry src hFound
  refine Ends.bind (addInputs_undoing hMade hInputs) fun t _ hAdded => ?_
  refine Ends.bind (validateShape_undoing hAdded.1 h.grows) fun u _ hShape => ?_
  have hSame := hAdded.2.trans hShape.2
  refine .ok ⟨hShape.1, hConverting.next hReady ?_ hSame.outputs ?_⟩
  · exact hSame.nameIndex.trans hIndex
  · rw [hSame.work, hSame.outputs]

theorem convertLoop_ends (hNodup : (gdef.node.map Ops.NodeDef.name).Nodup) {fuel processed : Nat}
    {done : List Nat} (h : Undoable g s.graph s.nameIndex)
    (hConverting : Converting gdef.node done made s) :
    Fallible.Ends (fun result => Undoable g result.1.graph result.1.nameIndex)
      (fun f => Undoable g f.state.graph f.state.nameIndex)
      (convertLoop env opts gdef fuel processed s) := by
  induction fuel generalizing processed done made s with
  | zero => exact .ok h
  | succ fuel ih =>
    rw [convertLoop]
    split
    · exact .ok h
    · split
      · exact .error h
      · refine (convertNode_ends hNodup ‹_› h hConverting ‹_›).bind fun t _ hNext => ?_
        exact ih hNext.1 hNext.2

theorem convert_ends (hNodup : (gdef.node.map Ops.NodeDef.name).Nodup)
    (h : Undoable g s.graph s.nameIndex) (hPrepared : Prepared gdef.node s) :
    Fallible.Ends (fun s' => Undoable g s'.graph s'.nameIndex)
      (fun f => Undoable g f.state.graph f.state.nameIndex) (convert env opts gdef s) := by
  refine (convertLoop_ends hNodup h hPrepared.converting).bind fun result _ hLoop => ?_
  refine (orFail_ends fun _ => hLoop).bind fun _ _ _ => ?_
  exact .ok hLoop

theorem addBackEdges_ends {edges : List EdgeInfo}
    (h : Undoable g s.graph s.nameIndex) : Undoing g s (addBackEdges env edges s) := by
  induction edges generalizing s with
  | nil => exact .ok ⟨h, .refl s⟩
  | cons e rest ih =>
    rw [addBackEdges]
    split
    · exact .error h
    · rename_i src hNode
      have hSrc : g.numNodeIds ≤ src := by
        obtain ⟨found, hLookup, hFound⟩ := Option.bind_eq_some_iff.mp hNode
        obtain ⟨before, after, hSplit, -⟩ := lookup_eq_some_iff.mp hLookup
        exact h.fresh (e.srcName, found) (by rw [hSplit]; simp) src hFound
      split
      · apply Undoing.ofSame ?_ (ih ?_)
        · exact ⟨rfl, rfl, rfl⟩
        · exact h.addEdge hSrc
      · exact (makeEdge_undoing h hSrc).bind fun t hUndo _ => ih hUndo

theorem tryImport_ends {refiner : R} :
    Fallible.Ends (fun _ => True) (fun f => Undoable g f.state.graph f.state.nameIndex)
      (tryImport env opts gdef (.initial g refiner)) := by
  have hEmpty : Undoable g g [] := .untouched (by simp)
  refine (orFail_ends fun _ => hEmpty).bind fun _ _ _ => ?_
  refine Ends.bind (Q := fun _ => True) ?_ fun t hBuild _ => ?_
  · apply (buildNodeIndex_ends (by simp [State.initial])).mono fun _ _ => trivial
    rintro f ⟨hGraph, hNone⟩
    rw [hGraph]
    exact .untouched hNone
  obtain ⟨-, hNodup, rfl⟩ := buildNodeIndex_eq_ok.mp hBuild
  have hIndexed : Undoable g g (indexWith gdef.node (fun _ => none) 0) := by
    apply Undoable.untouched
    intro entry hMem
    obtain ⟨i, d, -, rfl⟩ := mem_indexWith.mp hMem
    rfl
  refine Ends.bind (Q := fun s => s.graph = g ∧ s.nameIndex = indexWith gdef.node (fun _ => none) 0)
    ?_ fun u hInit hSame => ?_
  · apply initFromEdges_ends.mono fun _ hSame => hSame
    rintro f ⟨hGraph, hIndex⟩
    rw [hGraph, hIndex]
    exact hIndexed
  have hPrepared : Prepared gdef.node u := initFromEdges_prepared hNodup rfl rfl rfl rfl hInit
  have hUndo : Undoable g u.graph u.nameIndex := by
    rw [hSame.1, hSame.2]
    exact hIndexed
  refine (convert_ends hNodup hUndo hPrepared).bind fun v _ hConverted => ?_
  refine Ends.bind (addBackEdges_ends hConverted) fun w _ _ => ?_
  exact .ok trivial

theorem construct_restores {refiner refiner' : R} {error : Error} {g' : Graph}
    (h : construct env opts gdef g refiner = (.error error, g', refiner')) : SameGraph g g' := by
  unfold construct at h
  split at h
  · obtain rfl : g = g' := (Prod.mk.inj (Prod.mk.inj h).2).1
    exact ⟨fun _ => rfl, rfl, rfl⟩
  · split at h
    · cases h
    · rename_i failure hFailed
      obtain rfl := (Prod.mk.inj (Prod.mk.inj h).2).1
      exact undo_restores (tryImport_ends.of_error hFailed)

end Rounds

/-- An import that fails leaves the nodes of the graph, its edges and its versions alone. -/
theorem importGraphDef_atomic (env : Environment R H) (namePrefix : String) (gdef : GraphDef)
    (g g' : Graph) (refiner : Option R) (refiner' : R) (error : Error)
    (h : importGraphDef env namePrefix gdef g refiner = (.error error, g', refiner')) :
    (∀ id, g'.node id = g.node id) ∧ g'.edges = g.edges ∧ g'.versions = g.versions := by
  have hSame := construct_restores h
  exact ⟨hSame.node, hSame.edges, hSame.versions⟩

theorem walk_id_perm (index : List (String × NodeInfo)) : (id index).Perm index := .rfl

/-- A registry with the op `NoOp` and a refiner that knows no shapes. -/
def noOpEnvironment : Environment Unit Unit where
  lookUpOpDef := fun op => if op = "NoOp" then some ⟨noOp, none⟩ else none
  newRefiner := ()
  addNode := fun _ _ _ => (.ok (), ())
  makeShapeFromShapeProto := fun _ _ _ => (.ok (), ())
  setShape := fun _ _ _ _ _ => (.ok (), ())
  stray := fun _ _ => dtInvalid
  walk := id
  walk_perm := walk_id_perm

def selfWaiting : GraphDef := ⟨[noOpNode "a" [], noOpNode "b" ["^a", "^b"]], ⟨17, 0, []⟩⟩

theorem selfWaiting_undone :
    let result := importGraphDef noOpEnvironment "" selfWaiting new none
    result.1.isOk = false ∧ (∀ id, result.2.1.node id = new.node id) ∧
      result.2.1.edges = new.edges ∧ result.2.1.versions = new.versions := by
  have hFails : (importGraphDef noOpEnvironment "" selfWaiting new none).1.isOk = false := by
    decide +kernel
  refine ⟨hFails, ?_⟩
  cases hResult : (importGraphDef noOpEnvironment "" selfWaiting new none).1 with
  | ok _ =>
    rw [hResult] at hFails
    cases hFails
  | error error =>
    exact importGraphDef_atomic noOpEnvironment "" selfWaiting new _ none _ error
      (Prod.ext hResult rfl)

end TensorFlowOnSpark.Construction
