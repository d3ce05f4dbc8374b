import TensorFlowOnSpark.Graph.ConvertGraphDefFaithful
import TensorFlowOnSpark.Graph.ImportGraphDef
import TensorFlowOnSpark.Graph.SubgraphFeeds

/-!
# When a rewriting keeps feeds apart

`RewriteGraphForExecution` compares the spellings of feeds and fetches and not what they
denote.
-/

namespace TensorFlowOnSpark.Construction.Subgraph

open List Function Construction.Graph Nat

variable {names : String → Option Node}

section Names

variable (stray : List Ops.DataType → Int → Ops.DataType) (device : DeviceAttributes)

def feedNames : List String → (String → Option Node) → Except Error (String → Option Node)
  | [], names => .ok names
  | t :: rest, names => do
    let recv ← recvNode stray device t (names (parseTensorName t).1)
    feedNames rest (update names recv.nodeDef.name (some recv))

def fetchNames : List String → (String → Option Node) → List String →
    Except Error ((String → Option Node) × List String)
  | [], names, fetchNodes => .ok (names, fetchNodes)
  | t :: rest, names, fetchNodes => do
    let send ← sendNode stray device t (names (parseTensorName t).1)
    fetchNames rest (update names send.nodeDef.name (some send))
      (fetchNodes ++ [send.nodeDef.name])

def IsTarget (names : String → Option Node) (name : String) : Prop :=
  ∃ node, names (parseTensorName name).1 = some node ∧ node.nodeDef.name = name

structure Passes (g : Graph) (feeds fetches targets : List String) : Prop where
  some : ¬(fetches = [] ∧ targets = [])
  once : feeds.Nodup
  apart : ∀ t ∈ fetches, t ∉ feeds
  found : ∃ names names' fetchNodes,
    feedNames stray device feeds (⟨g, nameIndex g⟩ : Rewriting).find = .ok names ∧
    fetchNames stray device fetches names [] = .ok (names', fetchNodes) ∧
    ∀ name ∈ fetchNodes ++ targets, IsTarget names' name

variable {stray device}

theorem feedInputs_iff {feeds : List String} {s : Rewriting} (hIndexed : s.Indexed)
    : feedNames stray device feeds s.find = .ok names ↔
      ∃ s', feedInputs stray device feeds s = .ok s' ∧ s'.find = names := by
  induction feeds generalizing s with
  | nil =>
    rw [feedNames, feedInputs]
    simp
  | cons t rest ih =>
    have hStep : ∀ recv, update s.find recv.nodeDef.name (some recv) =
        (s.feed t recv).find := fun recv => ((feed_adds s t recv).find hIndexed).symm
    have hNext : ∀ recv, (s.feed t recv).Indexed :=
      fun recv => (feed_adds s t recv).indexed hIndexed
    simp only [feedNames, feedInputs, Fallible.bind_eq_ok, hStep, ih (hNext _)]
    constructor
    · rintro ⟨recv, hRecv, s', hRest, hFind⟩
      exact ⟨s', ⟨recv, hRecv, hRest⟩, hFind⟩
    · rintro ⟨s', ⟨recv, hRecv, hRest⟩, hFind⟩
      exact ⟨recv, hRecv, s', hRest, hFind⟩

end Names

section Fetch

variable {s : Rewriting} {t : String} {send : Node}

theorem fetch_adds (s : Rewriting) (t : String) (send : Node) : Adds s (s.fetch t send) send := by
  constructor
  · rfl
  · intro id
    simp [Rewriting.fetch, addControlEdge]

theorem fetch_numNodeIds (s : Rewriting) (t : String) (send : Node) :
    (s.fetch t send).graph.numNodeIds = s.graph.numNodeIds + 1 := by
  simp [Rewriting.fetch, addControlEdge]

theorem mem_fetch {e : Edge} (hSrc : e.src < s.graph.numNodeIds)
    (hDst : e.dst < s.graph.numNodeIds) :
    e ∈ (s.fetch t send).graph.edges ↔ e ∈ s.graph.edges := by
  constructor
  · intro hMem
    rcases mem_addEdge hMem with hMem | rfl
    · rcases mem_addEdge hMem with hMem | rfl
      · exact hMem
      · exact absurd hDst (lt_irrefl _)
    · exact absurd hSrc (lt_irrefl _)
  · exact fun hMem => mem_addEdge_of_mem (mem_addEdge_of_mem hMem)

end Fetch

structure Fetched (s s' : Rewriting) : Prop where
  size : s.graph.numNodeIds ≤ s'.graph.numNodeIds
  old : ∀ id < s.graph.numNodeIds, s'.graph.node id = s.graph.node id
  edges : ∀ e : Edge, e.src < s.graph.numNodeIds → e.dst < s.graph.numNodeIds →
    (e ∈ s'.graph.edges ↔ e ∈ s.graph.edges)
  indexed : s'.Indexed

variable {stray : List Ops.DataType → Int → Ops.DataType} {device : DeviceAttributes}

theorem fetchOutputs_fetched {fetches names : List String} {s : Rewriting} (hIndexed : s.Indexed)
    {result : Rewriting × List String}
    (hOk : fetchOutputs stray device fetches s names = .ok result) : Fetched s result.1 := by
  induction fetches generalizing s names with
  | nil =>
    obtain rfl := Except.ok.inj hOk
    exact ⟨le_refl _, fun _ _ => rfl, fun _ _ _ => .rfl, hIndexed⟩
  | cons t rest ih =>
    obtain ⟨send, -, hRest⟩ := Fallible.bind_eq_ok.mp hOk
    have hAdds := fetch_adds s t send
    have hSize := fetch_numNodeIds s t send
    have hFetched := ih (hAdds.indexed hIndexed) hRest
    constructor
    · exact le_trans (by omega) hFetched.size
    · intro id hLt
      rw [hFetched.old id (by omega), hAdds.node, node_allocateNode_of_lt hLt]
    · intro e hSrc hDst
      rw [hFetched.edges e (by omega) (by omega), mem_fetch hSrc hDst]
    · exact hFetched.indexed

theorem fetchOutputs_iff {fetches acc : List String} {s : Rewriting} (hIndexed : s.Indexed)
    {fetchNodes : List String} :
    fetchNames stray device fetches s.find acc = .ok (names, fetchNodes) ↔
      ∃ s', fetchOutputs stray device fetches s acc = .ok (s', fetchNodes) ∧ s'.find = names := by
  induction fetches generalizing s acc with
  | nil =>
    rw [fetchNames, fetchOutputs]
    simp only [Except.ok.injEq, Prod.mk.injEq]
    constructor
    · rintro ⟨hFind, rfl⟩
      exact ⟨s, ⟨rfl, rfl⟩, hFind⟩
    · rintro ⟨s', ⟨rfl, rfl⟩, hFind⟩
      exact ⟨hFind, rfl⟩
  | cons t rest ih =>
    have hStep : ∀ send, update s.find send.nodeDef.name (some send) =
        (s.fetch t send).find := fun send => ((fetch_adds s t send).find hIndexed).symm
    have hNext : ∀ send, (s.fetch t send).Indexed :=
      fun send => (fetch_adds s t send).indexed hIndexed
    simp only [fetchNames, fetchOutputs, Fallible.bind_eq_ok, hStep, ih (hNext _)]
    constructor
    · rintro ⟨send, hSend, s', hRest, hFind⟩
      exact ⟨s', ⟨send, hSend, hRest⟩, hFind⟩
    · rintro ⟨s', ⟨send, hSend, hRest⟩, hFind⟩
      exact ⟨send, hSend, s', hRest, hFind⟩

section Prune

variable {g : Graph}

theorem foldl_removeNode_node (ids : List Nat) (g : Graph) (id : Nat) :
    (ids.foldl removeNode g).node id =
      if id ∈ ids ∧ kSinkId < id then none else g.node id := by
  induction ids generalizing g with
  | nil => simp
  | cons first rest ih =>
    rw [foldl_cons, ih]
    by_cases hOp : kSinkId < first
    · rw [removeNode_node hOp]
      by_cases hEq : first = id
      · subst hEq
        simp [hOp]
      · simp [hEq, Ne.symm hEq]
    · have hSame : g.removeNode first = g := dif_neg hOp
      rw [hSame]
      by_cases hEq : id = first
      · subst hEq
        simp [hOp]
      · simp [hEq]

theorem mem_foldl_removeNode (ids : List Nat) (g : Graph) (e : Edge) :
    e ∈ (ids.foldl removeNode g).edges ↔
      e ∈ g.edges ∧ ∀ id ∈ ids, kSinkId < id → e.src ≠ id ∧ e.dst ≠ id := by
  induction ids generalizing g with
  | nil => simp
  | cons first rest ih =>
    rw [foldl_cons, ih, forall_mem_cons, ← and_assoc]
    apply and_congr_left'
    by_cases hOp : kSinkId < first
    · rw [removeNode_edges hOp, mem_filter, decide_eq_true_eq]
      exact and_congr_right fun _ => ⟨fun h _ => h, fun h => h hOp⟩
    · have hSame : g.removeNode first = g := dif_neg hOp
      rw [hSame]
      exact ⟨fun h => ⟨h, fun hLt => absurd hLt hOp⟩, fun h => h.1⟩

variable {targets : List Nat} {e : Edge}

/-- An edge into a node that is kept is kept, and so is the node that it comes from. -/
theorem prune_keeps (hLive : ∀ id ∈ targets, g.IsNode id) (hMem : e ∈ g.edges)
    (hOp : kSinkId < e.dst) (hKept : (g.pruneForReverseReachability targets).IsNode e.dst) :
    e ∈ (g.pruneForReverseReachability targets).edges ∧
      (g.pruneForReverseReachability targets).node e.src = g.node e.src := by
  obtain ⟨hSrc, hDst⟩ := g.ends_live e hMem
  have hClosed : ∀ n ∈ g.nodeIds, (g.inEdges n).map Edge.src ⊆ g.nodeIds := by
    intro n _ m hm
    obtain ⟨e', he', rfl⟩ := mem_map.mp hm
    exact mem_nodeIds.mpr (g.ends_live e' (mem_inEdges.mp he').1).1
  have hInv : BreadthFirst.Inv (fun n => (g.inEdges n).map Edge.src) g.nodeIds g.numNodeIds
      ⟨targets.dedup, targets.dedup⟩ := by
    constructor
    · exact Subset.refl _
    · exact nodup_dedup targets
    · exact fun id hId => mem_nodeIds.mpr (hLive id (mem_dedup.mp hId))
    · exact fun n hn => Or.inl hn
    · have hLength : g.nodeIds.length ≤ g.numNodeIds := by
        refine le_trans (length_filter_le _ _) ?_
        exact le_of_eq length_range
      exact Nat.add_le_add_right hLength _
  obtain ⟨-, hEnd⟩ := BreadthFirst.search_closed hClosed hInv
  unfold pruneForReverseReachability at hKept ⊢
  generalize BreadthFirst.search (fun n => (g.inEdges n).map Edge.src) g.numNodeIds _ = visited
    at hEnd hKept ⊢
  have hUnvisited : ∀ id, id ∈ g.nodeIds.filter (fun id => id ∉ visited) ↔
      g.IsNode id ∧ id ∉ visited := by
    intro id
    rw [mem_filter, mem_nodeIds, decide_eq_true_eq]
  -- What is kept has been visited, and so has all that it reads.
  have hIn : e.dst ∈ visited := by
    by_contra hOut
    rw [isNode_iff, foldl_removeNode_node, if_pos ⟨(hUnvisited _).mpr ⟨hDst, hOut⟩, hOp⟩]
      at hKept
    cases hKept
  have hInSrc : e.src ∈ visited :=
    hEnd e.dst hIn (mem_map.mpr ⟨e, mem_inEdges.mpr ⟨hMem, rfl⟩, rfl⟩)
  constructor
  · rw [mem_foldl_removeNode]
    refine ⟨hMem, fun id hId _ => ?_⟩
    have hOut := ((hUnvisited id).mp hId).2
    exact ⟨fun hEq => hOut (hEq ▸ hInSrc), fun hEq => hOut (hEq ▸ hIn)⟩
  · rw [foldl_removeNode_node, if_neg]
    exact fun h => ((hUnvisited _).mp h.1).2 hInSrc

theorem mem_prune (hMem : e ∈ (g.pruneForReverseReachability targets).edges) : e ∈ g.edges :=
  ((mem_foldl_removeNode _ _ _).mp hMem).1

theorem foldl_fixupNode_node (ids : List Nat) (g : Graph) (id : Nat) :
    (ids.foldl fixupNode g).node id = g.node id := by
  induction ids generalizing g with
  | nil => rfl
  | cons first rest ih => rw [foldl_cons, ih, fixupNode_node]

theorem fixup_node (g : Graph) (id : Nat) : g.fixupSourceAndSinkEdges.node id = g.node id :=
  foldl_fixupNode_node g.nodeIds g id

theorem mem_addControlEdge {src dst : Nat} (hData : e.srcOutput ≠ kControlSlot) :
    e ∈ (g.addControlEdge src dst).edges ↔ e ∈ g.edges := by
  constructor
  · intro hMem
    rcases mem_addEdge hMem with hMem | rfl
    · exact hMem
    · exact absurd rfl hData
  · exact mem_addEdge_of_mem

theorem mem_fixupNode {id : Nat} (hData : e.srcOutput ≠ kControlSlot) :
    e ∈ (g.fixupNode id).edges ↔ e ∈ g.edges := by
  unfold fixupNode connectSink connectSource
  split <;> split <;> simp only [mem_addControlEdge hData]

theorem mem_fixup (hData : e.srcOutput ≠ kControlSlot) :
    e ∈ g.fixupSourceAndSinkEdges.edges ↔ e ∈ g.edges := by
  have hFold : ∀ (ids : List Nat) (g : Graph),
      e ∈ (ids.foldl fixupNode g).edges ↔ e ∈ g.edges := by
    intro ids
    induction ids with
    | nil => exact fun _ => Iff.rfl
    | cons first rest ih =>
      intro g
      rw [foldl_cons, ih, mem_fixupNode hData]
  exact hFold g.nodeIds g

theorem Moved.kept (hLive : ∀ id ∈ targets, g.IsNode id) {r : Nat}
    (h : Moved r e g) (hOp : kSinkId < e.dst) (hData : e.srcOutput ≠ kControlSlot)
    (hKept : (g.pruneForReverseReachability targets).fixupSourceAndSinkEdges.IsNode e.dst) :
    Moved r e (g.pruneForReverseReachability targets).fixupSourceAndSinkEdges ∧
      (g.pruneForReverseReachability targets).fixupSourceAndSinkEdges.node r = g.node r := by
  rw [isNode_iff, fixup_node] at hKept
  obtain ⟨hEdge, hNode⟩ := prune_keeps hLive h.1 hOp hKept
  rw [fixup_node]
  refine ⟨⟨?_, ?_⟩, hNode⟩
  · apply (mem_fixup _).mpr hEdge
    simp only [kControlSlot]
    decide
  · rw [mem_fixup hData]
    exact fun hMem => h.2 (mem_prune hMem)

end Prune

section Checks

theorem require_eq_ok {condition : Bool} {error : Error} {u : Unit} :
    require condition error = .ok u ↔ condition := by
  unfold require
  cases condition <;> simp

theorem checkFeeds_eq_ok {feeds endpoints : List String} {u : Unit} :
    checkFeeds feeds endpoints = .ok u ↔ feeds.Nodup ∧ ∀ t ∈ feeds, t ∉ endpoints := by
  induction feeds generalizing endpoints with
  | nil => simp [checkFeeds]
  | cons t rest ih =>
    simp only [checkFeeds, Fallible.bind_eq_ok, require_eq_ok, decide_eq_true_eq, ih,
      nodup_cons, forall_mem_cons]
    simp only [mem_cons, not_or]
    constructor
    · rintro ⟨-, hNew, hNodup, hRest⟩
      exact ⟨⟨fun hMem => (hRest t hMem).1 rfl, hNodup⟩, hNew, fun u hu => (hRest u hu).2⟩
    · rintro ⟨⟨hFirst, hNodup⟩, hNew, hRest⟩
      exact ⟨(), hNew, hNodup, fun u hu => ⟨fun hEq => hFirst (hEq ▸ hu), hRest u hu⟩⟩

theorem checkFetches_eq_ok {endpoints fetches : List String} {u : Unit} :
    checkFetches endpoints fetches = .ok u ↔ ∀ t ∈ fetches, t ∉ endpoints := by
  induction fetches with
  | nil => simp [checkFetches]
  | cons t rest ih =>
    simp only [checkFetches, Fallible.bind_eq_ok, require_eq_ok, decide_eq_true_eq, ih,
      forall_mem_cons, exists_const]

variable {s : Rewriting}

theorem addNodeToTargets_isSome {name : String} :
    (s.addNodeToTargets name).isSome ↔ IsTarget s.find name := by
  unfold Rewriting.addNodeToTargets IsTarget
  cases hFind : s.find (parseTensorName name).1 with
  | none => simp
  | some node =>
    have hIndex : (s.nameIndex (parseTensorName name).1).isSome := by
      obtain ⟨n, hn, -⟩ := Option.bind_eq_some_iff.mp hFind
      rw [hn]
      rfl
    by_cases hName : node.nodeDef.name = name <;> simp [hName, hIndex]

theorem addNodeToTargets_live (hIndexed : s.Indexed) {name : String} {n : Nat}
    (h : s.addNodeToTargets name = some n) : s.graph.IsNode n := by
  unfold Rewriting.addNodeToTargets at h
  split at h
  · cases h
  · split at h
    · exact hIndexed _ n h
    · cases h

theorem pruneForTargets_eq_ok {names : List String} {g' : Graph} :
    pruneForTargets s names = .ok g' ↔ (∀ name ∈ names, IsTarget s.find name) ∧
      g' = (s.graph.pruneForReverseReachability
        (names.filterMap s.addNodeToTargets)).fixupSourceAndSinkEdges := by
  simp only [pruneForTargets, Fallible.bind_eq_ok, require_eq_ok, List.isEmpty_iff,
    filter_eq_nil_iff, exists_const, Except.ok.injEq, eq_comm (a := g')]
  apply and_congr_left'
  apply forall₂_congr
  intro name _
  rw [← addNodeToTargets_isSome, Bool.not_eq_true, Option.isNone_eq_false_iff]

end Checks

section Rewrite

variable {g g' : Graph} {feeds fetches targets : List String}

theorem rewriteGraphForExecution_eq_ok :
    rewriteGraphForExecution stray device g feeds fetches targets = .ok g' ↔
      ¬(fetches = [] ∧ targets = []) ∧ feeds.Nodup ∧ (∀ t ∈ fetches, t ∉ feeds) ∧
      ∃ s s' fetchNodes, feedInputs stray device feeds ⟨g, nameIndex g⟩ = .ok s ∧
        fetchOutputs stray device fetches s [] = .ok (s', fetchNodes) ∧
        (if fetchNodes.isEmpty && targets.isEmpty then .ok s'.graph
          else pruneForTargets s' (fetchNodes ++ targets)) = .ok g' := by
  simp only [rewriteGraphForExecution, Fallible.bind_eq_ok, require_eq_ok, exists_const,
    checkFeeds_eq_ok, checkFetches_eq_ok, Prod.exists]
  have hSome : (!(fetches.isEmpty && targets.isEmpty)) ↔ ¬(fetches = [] ∧ targets = []) := by
    rw [Bool.not_eq_true', ← Bool.not_eq_true, Bool.and_eq_true, List.isEmpty_iff, List.isEmpty_iff]
  have hOnce : (feeds.Nodup ∧ ∀ t ∈ feeds, t ∉ ([] : List String)) ↔ feeds.Nodup :=
    and_iff_left fun _ _ => not_mem_nil
  rw [hSome, hOnce]
  apply and_congr_right'
  apply and_congr_right'
  apply and_congr_right'
  constructor
  · rintro ⟨s, hFeed, s', fetchNodes, hFetch, hEnd⟩
    exact ⟨s, s', fetchNodes, hFeed, hFetch, hEnd⟩
  · rintro ⟨s, s', fetchNodes, hFeed, hFetch, hEnd⟩
    exact ⟨s, hFeed, s', fetchNodes, hFetch, hEnd⟩

theorem rewriteGraphForExecution_isOk :
    (∃ g', rewriteGraphForExecution stray device g feeds fetches targets = .ok g') ↔
      Passes stray device g feeds fetches targets := by
  simp only [rewriteGraphForExecution_eq_ok]
  constructor
  · rintro ⟨g', hSome, hOnce, hApart, s, s', fetchNodes, hFeed, hFetch, hEnd⟩
    refine ⟨hSome, hOnce, hApart, s.find, s'.find, fetchNodes, ?_, ?_, ?_⟩
    · exact (feedInputs_iff (indexed_start g)).mpr ⟨s, hFeed, rfl⟩
    · obtain ⟨ms, hTraced⟩ := feedInputs_traced (indexed_start g) hFeed
      exact (fetchOutputs_iff hTraced.indexed).mpr ⟨s', hFetch, rfl⟩
    · split at hEnd
      · rename_i hEmpty
        rw [Bool.and_eq_true, List.isEmpty_iff, List.isEmpty_iff] at hEmpty
        simp [hEmpty.1, hEmpty.2]
      · exact (pruneForTargets_eq_ok.mp hEnd).1
  · rintro ⟨hSome, hOnce, hApart, names, names', fetchNodes, hNames, hNames', hTargets⟩
    obtain ⟨s, hFeed, rfl⟩ := (feedInputs_iff (indexed_start g)).mp hNames
    obtain ⟨ms, hTraced⟩ := feedInputs_traced (indexed_start g) hFeed
    obtain ⟨s', hFetch, rfl⟩ := (fetchOutputs_iff hTraced.indexed).mp hNames'
    by_cases hEmpty : (fetchNodes.isEmpty && targets.isEmpty)
    · exact ⟨s'.graph, hSome, hOnce, hApart, s, s', fetchNodes, hFeed, hFetch, if_pos hEmpty⟩
    · have hPrune := pruneForTargets_eq_ok.mpr ⟨hTargets, rfl⟩
      exact ⟨_, hSome, hOnce, hApart, s, s', fetchNodes, hFeed, hFetch,
        (if_neg hEmpty).trans hPrune⟩

def SharedTensor (g : Graph) (feeds fetches : List String) : Prop :=
  (∃ (i j : Nat) (t u : String), i < j ∧ feeds[i]? = some t ∧ feeds[j]? = some u ∧
    SameTensor g t u) ∨
  ∃ t ∈ feeds, ∃ u ∈ fetches, SameTensor g t u

/-- Each fed value takes the place of its tensor for all consumers, in the graph `fed` that
feeding leaves, and in the pruned graph for those that are kept. -/
def Delivered (g fed g' : Graph) (feeds : List String) : Prop :=
  ∀ (i : Nat) (t : String) (e : Edge), feeds[i]? = some t → Consumer g t e →
    Moved (g.numNodeIds + i) e fed ∧ (g'.IsNode e.dst → Moved (g.numNodeIds + i) e g' ∧
      ∃ recv, g'.node (g.numNodeIds + i) = some recv ∧ IsRecvOf t recv)

theorem SameTensor.symm {t u : String} (h : SameTensor g t u) : SameTensor g u t :=
  ⟨h.2 ▸ h.1, h.2.symm⟩

theorem once_of_not_shared (h : ¬SharedTensor g feeds fetches) (i j : Nat) (t u : String)
    (ht : feeds[i]? = some t) (hu : feeds[j]? = some u) (hSame : SameTensor g t u) : i = j := by
  apply le_antisymm
  · apply Nat.le_of_not_lt
    exact fun hLt => h (Or.inl ⟨j, i, u, t, hLt, hu, ht, hSame.symm⟩)
  · apply Nat.le_of_not_lt
    exact fun hLt => h (Or.inl ⟨i, j, t, u, hLt, ht, hu, hSame⟩)

theorem delivered_of_moved {s : Rewriting} {ms : List Redirect}
    (hTraced : Traced feeds ⟨g, nameIndex g⟩ s ms)
    (hMoved : ∀ (i : Nat) (t : String) (e : Edge), feeds[i]? = some t → Consumer g t e →
      Moved (g.numNodeIds + i) e s.graph)
    {s' : Rewriting} (hFetched : Fetched s s') {names : List String}
    (hEnd : g' = s'.graph ∨ pruneForTargets s' names = .ok g') : Delivered g s.graph g' feeds := by
  intro i t e hFeed hConsumer
  have hHere := hMoved i t e hFeed hConsumer
  refine ⟨hHere, fun hKept => ?_⟩
  have hSize : s.graph.numNodeIds = g.numNodeIds + feeds.length := hTraced.size
  have hLt : i < feeds.length := (List.getElem?_eq_some_iff.mp hFeed).1
  obtain ⟨hSrc, hDst⟩ := g.ends_live e hConsumer.1
  have hSrcLt : e.src < g.numNodeIds := hSrc.lt_length
  have hDstLt : e.dst < g.numNodeIds := hDst.lt_length
  obtain ⟨recv, hRecv, hLabel⟩ := hTraced.recvs i t hFeed
  have hRecv' : s'.graph.node (g.numNodeIds + i) = some recv := by
    rw [hFetched.old _ (by omega)]
    exact hRecv
  have hMoved' : Moved (g.numNodeIds + i) e s'.graph := by
    refine ⟨(hFetched.edges _ ?_ ?_).mpr hHere.1, fun hMem => hHere.2 ?_⟩
    · change g.numNodeIds + i < s.graph.numNodeIds
      omega
    · change e.dst < s.graph.numNodeIds
      omega
    · exact (hFetched.edges e (by omega) (by omega)).mp hMem
  rcases hEnd with rfl | hPrune
  · exact ⟨hMoved', recv, hRecv', hLabel⟩
  · obtain ⟨-, rfl⟩ := pruneForTargets_eq_ok.mp hPrune
    have hLive : ∀ id ∈ names.filterMap s'.addNodeToTargets, s'.graph.IsNode id := by
      intro id hId
      obtain ⟨name, -, hName⟩ := mem_filterMap.mp hId
      exact addNodeToTargets_live hFetched.indexed hName
    have hData : e.srcOutput ≠ kControlSlot := by
      obtain ⟨-, -, hPos, -⟩ := tensorOf_eq_some.mp hConsumer.2.1
      simp only [kControlSlot]
      omega
    obtain ⟨hKeptEdge, hNode⟩ := hMoved'.kept hLive hConsumer.2.2 hData hKept
    exact ⟨hKeptEdge, recv, hNode.trans hRecv', hLabel⟩

/-- An output that is fed twice, or fed and fetched, is an error, and all else that is fed is
delivered. -/
def FeedsDeliver (stray : List Ops.DataType → Int → Ops.DataType) (device : DeviceAttributes)
    (g : Graph) (feeds fetches targets : List String) : Prop :=
  (SharedTensor g feeds fetches → ∃ error,
    rewriteGraphForExecution stray device g feeds fetches targets = .error error) ∧
  ∀ s g', feedInputs stray device feeds ⟨g, nameIndex g⟩ = .ok s →
    rewriteGraphForExecution stray device g feeds fetches targets = .ok g' →
    Delivered g s.graph g' feeds

theorem feedsDeliver_iff (stray : List Ops.DataType → Int → Ops.DataType)
    (device : DeviceAttributes) (g : Graph) (feeds fetches targets : List String) :
    FeedsDeliver stray device g feeds fetches targets ↔
    ¬(Passes stray device g feeds fetches targets ∧
      (SharedTensor g feeds fetches ∨ Shadowed g feeds)) := by
  constructor
  · rintro ⟨hError, hDelivers⟩ ⟨hPasses, hBad⟩
    obtain ⟨g', hOk⟩ := rewriteGraphForExecution_isOk.mpr hPasses
    by_cases hShared : SharedTensor g feeds fetches
    · obtain ⟨error, hFails⟩ := hError hShared
      rw [hOk] at hFails
      cases hFails
    · have hOnce := once_of_not_shared hShared
      obtain ⟨i, j, t, u, e, ht, hu, hConsumer, hShadow⟩ := hBad.resolve_left hShared
      obtain ⟨-, -, -, s, -, -, hFeed, -, -⟩ := rewriteGraphForExecution_eq_ok.mp hOk
      obtain ⟨ms, hTraced⟩ := feedInputs_traced (indexed_start g) hFeed
      obtain ⟨hMoved, -⟩ := hDelivers s g' hFeed hOk i t e ht hConsumer
      rcases hShadow with ⟨hLt, hName⟩ | ⟨hLt, hName⟩
      · exact hMoved.2 (hTraced.stays hOnce ht hu hConsumer hLt hName)
      · exact hTraced.loses hOnce ht hu hConsumer hLt hName hMoved.1
  · intro hGood
    constructor
    · intro hShared
      cases hResult : rewriteGraphForExecution stray device g feeds fetches targets with
      | error error => exact ⟨error, rfl⟩
      | ok g' =>
        exact absurd ⟨rewriteGraphForExecution_isOk.mp ⟨g', hResult⟩, Or.inl hShared⟩ hGood
    · intro s g' hFeed hOk
      have hPasses := rewriteGraphForExecution_isOk.mp ⟨g', hOk⟩
      have hClear : ¬(SharedTensor g feeds fetches ∨ Shadowed g feeds) :=
        fun hBad => hGood ⟨hPasses, hBad⟩
      rw [not_or] at hClear
      obtain ⟨-, -, -, s₁, s', fetchNodes, hFeed₁, hFetch, hEnd⟩ :=
        rewriteGraphForExecution_eq_ok.mp hOk
      obtain rfl : s₁ = s := Except.ok.inj (hFeed₁.symm.trans hFeed)
      obtain ⟨ms, hTraced⟩ := feedInputs_traced (indexed_start g) hFeed
      have hMoved := fun (i : Nat) (t : String) (e : Edge) (hGet : feeds[i]? = some t) =>
        hTraced.moved (e := e) (once_of_not_shared hClear.1) hClear.2 hGet
      have hFetched := fetchOutputs_fetched hTraced.indexed hFetch
      apply delivered_of_moved hTraced hMoved hFetched
      split at hEnd
      · exact Or.inl (Except.ok.inj hEnd).symm
      · exact Or.inr hEnd

/-- What feeds and fetches are parsed to is kept apart, and from the names of `_recv_` nodes. -/
structure PairsApart (feeds fetches : List String) : Prop where
  once : (feeds.map parseTensorName).Nodup
  apart : ∀ t ∈ feeds, ∀ u ∈ fetches, parseTensorName t ≠ parseTensorName u
  noRecv : ∀ t ∈ feeds, ∀ u ∈ feeds, (parseTensorName t).1 ≠ recvName (parseTensorName u)

theorem SameTensor.parsed_eq {t u : String} (h : SameTensor g t u) :
    parseTensorName t = parseTensorName u := by
  obtain ⟨hSome, hSame⟩ := h
  obtain ⟨⟨n, index⟩, ht⟩ := Option.isSome_iff_exists.mp hSome
  obtain ⟨htName, htIndex, -⟩ := tensorOf_eq_some.mp ht
  obtain ⟨huName, huIndex, -⟩ := tensorOf_eq_some.mp (hSame.symm.trans ht)
  obtain ⟨node, hNode, hName⟩ := nameIndex_node htName
  obtain ⟨node', hNode', hName'⟩ := nameIndex_node huName
  cases hNode.symm.trans hNode'
  exact Prod.ext (hName.symm.trans hName') (htIndex.trans huIndex.symm)

theorem PairsApart.clear (h : PairsApart feeds fetches) :
    ¬(SharedTensor g feeds fetches ∨ Shadowed g feeds) := by
  rintro (hShared | hShadowed)
  · rcases hShared with ⟨i, j, t, u, hLt, ht, hu, hSame⟩ | ⟨t, ht, u, hu, hSame⟩
    · have hParsed : (feeds.map parseTensorName)[i]? = (feeds.map parseTensorName)[j]? := by
        rw [getElem?_map, getElem?_map, ht, hu, Option.map_some, Option.map_some, hSame.parsed_eq]
      have hLess : i < (feeds.map parseTensorName).length := by
        rw [length_map]
        exact (List.getElem?_eq_some_iff.mp ht).1
      exact absurd (((getElem?_inj hLess h.once).mp hParsed)) (Nat.ne_of_lt hLt)
    · exact h.apart t ht u hu hSame.parsed_eq
  · obtain ⟨i, j, t, u, e, ht, hu, -, hName⟩ := hShadowed
    have ht := mem_of_getElem? ht
    have hu := mem_of_getElem? hu
    rcases hName with ⟨-, hName⟩ | ⟨-, hName⟩
    · exact h.noRecv t ht u hu hName.symm
    · exact h.noRecv u hu t ht (congrArg Prod.fst hName)

/-- The spellings are kept apart, and not the outputs that they denote. -/
theorem rewriteGraphForExecution_feeds_iff (stray : List Ops.DataType → Int → Ops.DataType)
    (device : DeviceAttributes) (g : Graph) (feeds fetches targets : List String) :
    (FeedsDeliver stray device g feeds fetches targets ↔
      ¬(Passes stray device g feeds fetches targets ∧
        (SharedTensor g feeds fetches ∨ Shadowed g feeds))) ∧
    (PairsApart feeds fetches → FeedsDeliver stray device g feeds fetches targets) :=
  ⟨feedsDeliver_iff .., fun h => (feedsDeliver_iff ..).mpr fun hBad => h.clear hBad.2⟩

end Rewrite

def readDef : GraphDef :=
  ⟨[loopNode "x" "Const" [], loopNode "y" "NextIteration" ["x"]], ⟨17, 0, []⟩⟩

def readGraph : Graph := (convertGraphDefToGraph loopEnvironment false false readDef new).2

theorem readGraph_fedTwice : SharedTensor readGraph ["x", "x:0"] ["y"] ∧
    ¬∃ error, rewriteGraphForExecution (fun _ _ => Ops.dtInvalid) ⟨"/cpu:0", 1⟩ readGraph
      ["x", "x:0"] ["y"] [] = .error error := by
  constructor
  · have hFirst : tensorOf readGraph "x" = some (2, 0) := by decide +kernel
    have hSecond : tensorOf readGraph "x:0" = some (2, 0) := by decide +kernel
    refine Or.inl ⟨0, 1, "x", "x:0", zero_lt_one, rfl, rfl, ?_, ?_⟩
    · rfl
    · rw [hFirst, hSecond]
  · have hOk : (rewriteGraphForExecution (fun _ _ => Ops.dtInvalid) ⟨"/cpu:0", 1⟩ readGraph
        ["x", "x:0"] ["y"] []).isOk := by decide +kernel
    rintro ⟨error, hError⟩
    rw [hError] at hOk
    cases hOk

end TensorFlowOnSpark.Construction.Subgraph
