import TensorFlowOnSpark.Graph.GraphObjects

/-!
# Edges of a graph in memory that come and go

What `AddEdge`, `RemoveEdge` and the loops of `RemoveNode` leave.
-/

namespace TensorFlowOnSpark.GraphObjects

open List Function Option State Finset

namespace State

def withEdges (s : State) (outEdges inEdges : NodeAddress → EdgeSet → EdgeSet) : State :=
  { s with
    nodeAt := fun n => (s.nodeAt n).map fun o =>
      { o with outEdges := outEdges n o.outEdges, inEdges := inEdges n o.inEdges } }

def at_ (n : NodeAddress) (change : EdgeSet → EdgeSet) : NodeAddress → EdgeSet → EdgeSet :=
  fun m edges => if m = n then change edges else edges

def same : NodeAddress → EdgeSet → EdgeSet := fun _ edges => edges

variable {s : State} {n : NodeAddress} {o : NodeObject} {e : EdgeAddress}

theorem putNode_outEdges (hAt : s.nodeAt n = some o) (change : EdgeSet → EdgeSet) :
    s.putNode n { o with outEdges := change o.outEdges } = s.withEdges (at_ n change) same := by
  have hFun : update s.nodeAt n (some { o with outEdges := change o.outEdges }) =
      (s.withEdges (at_ n change) same).nodeAt := by
    funext m
    by_cases hEq : m = n
    · subst hEq
      simp [withEdges, at_, same, hAt]
    · simp [withEdges, at_, same, hEq]
  rw [putNode, hFun]
  rfl

theorem putNode_inEdges (hAt : s.nodeAt n = some o) (change : EdgeSet → EdgeSet) :
    s.putNode n { o with inEdges := change o.inEdges } = s.withEdges same (at_ n change) := by
  have hFun : update s.nodeAt n (some { o with inEdges := change o.inEdges }) =
      (s.withEdges same (at_ n change)).nodeAt := by
    funext m
    by_cases hEq : m = n
    · subst hEq
      simp [withEdges, at_, same, hAt]
    · simp [withEdges, at_, same, hEq]
  rw [putNode, hFun]
  rfl

theorem withEdges_withEdges (outEdges inEdges : NodeAddress → EdgeSet → EdgeSet) :
    (s.withEdges outEdges same).withEdges same inEdges = s.withEdges outEdges inEdges := by
  simp [withEdges, same, comp_def]

variable {outEdges inEdges : NodeAddress → EdgeSet → EdgeSet}

theorem nodeAt_withEdges (hAt : s.nodeAt n = some o) :
    (s.withEdges outEdges inEdges).nodeAt n = some
      { o with outEdges := outEdges n o.outEdges, inEdges := inEdges n o.inEdges } := by
  simp [withEdges, hAt]

theorem insertOut_eq (hAt : s.nodeAt n = some o) (hProper : o.outEdges.Proper)
    (hNew : e ∉ o.outEdges.elements) :
    s.insertOut n e = .ok (s.withEdges (at_ n fun edges => (edges.insert e).1) same) := by
  have hFlag := (hProper.insert_flag e).mpr hNew
  rw [insertOut, node_eq hAt, Fallible.ok_bind, check_ok hFlag, Fallible.ok_bind]
  rw [← putNode_outEdges hAt fun edges => (edges.insert e).1]

theorem insertIn_eq (outEdges : NodeAddress → EdgeSet → EdgeSet) (hAt : s.nodeAt n = some o)
    (hProper : o.inEdges.Proper) (hNew : e ∉ o.inEdges.elements) :
    (s.withEdges outEdges same).insertIn n e =
      .ok (s.withEdges outEdges (at_ n fun edges => (edges.insert e).1)) := by
  have hAt' : (s.withEdges outEdges same).nodeAt n = some _ := nodeAt_withEdges hAt
  have hFlag := (hProper.insert_flag e).mpr hNew
  have hPut := putNode_inEdges hAt' fun edges => (edges.insert e).1
  rw [withEdges_withEdges] at hPut
  rw [insertIn, node_eq hAt', Fallible.ok_bind]
  exact (congrArg (· >>= _) (check_ok hFlag)).trans (congrArg Except.ok hPut)

theorem eraseOut_eq (hAt : s.nodeAt n = some o) (hProper : o.outEdges.Proper)
    (hMem : e ∈ o.outEdges.elements) :
    s.eraseOut n e = .ok (s.withEdges (at_ n fun edges => (edges.erase e).1) same) := by
  have hCount := (hProper.erase_count e).trans (if_pos hMem)
  rw [eraseOut, node_eq hAt, Fallible.ok_bind, check_ok hCount, Fallible.ok_bind]
  rw [← putNode_outEdges hAt fun edges => (edges.erase e).1]

theorem eraseIn_eq (outEdges : NodeAddress → EdgeSet → EdgeSet) (hAt : s.nodeAt n = some o)
    (hProper : o.inEdges.Proper) (hMem : e ∈ o.inEdges.elements) :
    (s.withEdges outEdges same).eraseIn n e =
      .ok (s.withEdges outEdges (at_ n fun edges => (edges.erase e).1)) := by
  have hAt' : (s.withEdges outEdges same).nodeAt n = some _ := nodeAt_withEdges hAt
  have hCount := (hProper.erase_count e).trans (if_pos hMem)
  have hPut := putNode_inEdges hAt' fun edges => (edges.erase e).1
  rw [withEdges_withEdges] at hPut
  rw [eraseIn, node_eq hAt', Fallible.ok_bind]
  exact (congrArg (· >>= _) (check_ok hCount)).trans (congrArg Except.ok hPut)

theorem nodeAt_withEdges_elim {o' : NodeObject}
    (hAt : (s.withEdges outEdges inEdges).nodeAt n = some o') :
    ∃ o, s.nodeAt n = some o ∧
      o' = { o with outEdges := outEdges n o.outEdges, inEdges := inEdges n o.inEdges } := by
  obtain ⟨o, hAt, hEq⟩ := map_eq_some_iff.mp hAt
  exact ⟨o, hAt, hEq.symm⟩

def link (s : State) (e : EdgeAddress) (o : EdgeObject) (source dest : NodeAddress)
    (free : List EdgeAddress) : State :=
  { (s.putEdge e o).withEdges (at_ source fun edges => (edges.insert e).1)
      (at_ dest fun edges => (edges.insert e).1) with
    edges := s.edges ++ [some e], edgeSet := (s.edgeSet.insert e).1, freeEdges := free }

def unlinked (s : State) (e : EdgeAddress) (j : Nat) (source dest : NodeAddress) : State :=
  { (s.putEdge e freedEdge).withEdges (at_ source fun edges => (edges.erase e).1)
      (at_ dest fun edges => (edges.erase e).1) with
    edges := s.edges.set j none, edgeSet := (s.edgeSet.erase e).1, freeEdges := e :: s.freeEdges }

end State

namespace Sound

variable {s : State}

theorem takeEdge (h : Sound s) {fresh : EdgeAddress} (hFresh : s.edgeAt fresh = none) :
    ∃ e free, s.takeEdge fresh = (e, { s with freeEdges := free }) ∧
      Supplies s.edges s.freeEdges e free := by
  cases hFree : s.freeEdges with
  | nil =>
    refine ⟨fresh, [], ?_, .of_arena ?_⟩
    · simp only [State.takeEdge, hFree]
      rw [← hFree]
    · intro hMem
      obtain ⟨j, o, _, hAt, _⟩ := h.edge_of_mem hMem
      rw [hFresh] at hAt
      cases hAt
  | cons e free =>
    have hHead : e ∈ s.freeEdges := hFree ▸ mem_cons_self
    refine ⟨e, free, ?_, .of_back (hFree ▸ h.freeEdges_nodup) ?_⟩
    · simp only [State.takeEdge, hFree]
    · exact fun hMem => h.not_free_of_joined hMem hHead

variable {n source dest : NodeAddress} {e : EdgeAddress}

theorem inUse (h : Sound s) {o : NodeObject} (hMem : some n ∈ s.nodes)
    (hAt : s.nodeAt n = some o) : ∃ i, o.InUse i := by
  obtain ⟨i, o', _, hAt', hUse⟩ := h.node_of_mem hMem
  cases some.inj (hAt.symm.trans hAt')
  exact ⟨i, hUse⟩

theorem at_elements {change : EdgeSet → EdgeSet} {edges : EdgeSet} {m : NodeAddress}
    (hProper : edges.Proper) (hChange : ∀ edges, edges.Proper → (change edges).Proper) :
    (at_ n change m edges).Proper := by
  unfold at_
  split
  · exact hChange edges hProper
  · exact hProper

theorem link (h : Sound s) {free : List EdgeAddress}
    (hSupplies : Supplies s.edges s.freeEdges e free)
    (hSource : some source ∈ s.nodes) (hDest : some dest ∈ s.nodes)
    (x y : Int) :
    Sound (s.link e ⟨some source, some dest, s.edges.length, x, y⟩ source dest free) := by
  set s' := s.link e ⟨some source, some dest, s.edges.length, x, y⟩ source dest free with hs'
  have hOther {e' : EdgeAddress} (hMem : some e' ∈ s.edges) : e' ≠ e := by
    rintro rfl
    exact hSupplies.notLive hMem
  have hEdgeAt {e' : EdgeAddress} (hNe : e' ≠ e) : s'.edgeAt e' = s.edgeAt e' :=
    update_of_ne hNe _ _
  have hNew : s'.edgeAt e = some ⟨some source, some dest, s.edges.length, x, y⟩ :=
    update_self ..
  have hMemEdges {e' : EdgeAddress} : some e' ∈ s'.edges ↔ some e' ∈ s.edges ∨ e' = e := by
    simp [hs', State.link]
  have hJoins {e' : EdgeAddress} {a b : NodeAddress} :
      s'.Joins e' a b ↔ s.Joins e' a b ∨ e' = e ∧ a = source ∧ b = dest := by
    unfold Joins
    by_cases hEq : e' = e
    · subst hEq
      simp only [hMemEdges, hSupplies.notLive, hNew, some.injEq, true_and, false_and,
        exists_false, false_or, exists_eq_left', eq_comm (b := a), eq_comm (b := b)]
    · simp only [hMemEdges, hEdgeAt hEq, hEq, or_false, false_and]
  have hInsert := fun (edges : EdgeSet) (hProper : edges.Proper) => hProper.insert_proper e
  constructor
  · intro i n hi
    obtain ⟨o, hAt, hUse⟩ := h.node i n hi
    exact ⟨_, nodeAt_withEdges hAt, hUse.id_eq, at_elements hUse.inEdges hInsert,
      at_elements hUse.outEdges hInsert, hUse.props⟩
  · intro j e' hj
    rcases getElem?_append_some.mp hj with hj | ⟨rfl, rfl⟩
    · obtain ⟨o, hAt, hUse⟩ := h.edge j e' hj
      rw [hEdgeAt (hOther (mem_of_getElem? hj))]
      exact ⟨o, hAt, hUse.id_eq, hUse.src, hUse.dst⟩
    · exact ⟨_, hNew, rfl, ⟨source, rfl, hSource⟩, ⟨dest, rfl, hDest⟩⟩
  · intro n o' e' hMem hAt
    obtain ⟨o, hOldAt, rfl⟩ := nodeAt_withEdges_elim hAt
    obtain ⟨i, hUse⟩ := h.inUse hMem hOldAt
    have hOld := h.mem_out n o e' hMem hOldAt
    simp only [hJoins, exists_or, ← hOld]
    by_cases hEq : n = source
    · simp [at_, hEq, hUse.outEdges.insert_elements, or_comm]
    · simp [at_, hEq]
  · intro n o' e' hMem hAt
    obtain ⟨o, hOldAt, rfl⟩ := nodeAt_withEdges_elim hAt
    obtain ⟨i, hUse⟩ := h.inUse hMem hOldAt
    have hOld := h.mem_in n o e' hMem hOldAt
    simp only [hJoins, exists_or, ← hOld]
    by_cases hEq : n = dest
    · simp [at_, hEq, hUse.inEdges.insert_elements, or_comm]
    · simp [at_, hEq]
  · exact h.edgeSet.insert_proper e
  · intro e'
    have hElements := h.edgeSet.insert_elements e
    rw [hMemEdges, ← h.mem_edgeSet, or_comm]
    exact (Finset.ext_iff.mp hElements e').trans mem_insert
  · intro n hMem
    obtain ⟨o, hAt, hUnused⟩ := h.freeNode n hMem
    have hNot : some n ∉ s.nodes := fun hLive => h.not_free_of_live hLive hMem
    have hNeS : n ≠ source := by rintro rfl; exact hNot hSource
    have hNeD : n ≠ dest := by rintro rfl; exact hNot hDest
    refine ⟨_, nodeAt_withEdges hAt, hUnused.id_eq, ?_, ?_⟩
    · exact (if_neg hNeD).trans hUnused.inEdges
    · exact (if_neg hNeS).trans hUnused.outEdges
  · exact h.freeNodes_nodup
  · intro e' hMem
    have hNe : e' ≠ e := by
      rintro rfl
      exact hSupplies.notFree hMem
    rw [hEdgeAt hNe]
    exact h.freeEdge e' (hSupplies.of_mem e' hMem)
  · exact hSupplies.nodup
  · intro n o' hAt
    obtain ⟨o, hOldAt, _⟩ := nodeAt_withEdges_elim hAt
    exact h.nodeKnown n o hOldAt
  · intro e' o hAt
    by_cases hEq : e' = e
    · exact .inl (hMemEdges.mpr (.inr hEq))
    · rw [hEdgeAt hEq] at hAt
      rcases h.edgeKnown e' o hAt with hMem | hFree
      · exact .inl (hMemEdges.mpr (.inl hMem))
      · exact .inr ((hSupplies.mem_or_eq e' hFree).resolve_right hEq)
  · exact h.numNodes
  · exact h.nodes_lt

theorem addEdge (h : Sound s) (hSource : some source ∈ s.nodes)
    (hDest : some dest ∈ s.nodes) {x y : Int} (hSlots : s.SlotsAgree source x dest y)
    {fresh : EdgeAddress} (hFresh : s.edgeAt fresh = none) :
    ∃ e free, Supplies s.edges s.freeEdges e free ∧ s.addEdge source x dest y fresh =
      .ok (e, s.link e ⟨some source, some dest, Ops.NodeDef.toInt32 s.edges.length, x, y⟩ source
        dest free) := by
  obtain ⟨e, free, hTake, hSupplies⟩ := h.takeEdge hFresh
  have hNotJoined {a b : NodeAddress} : ¬s.Joins e a b := fun ⟨_, hMem, _⟩ =>
    hSupplies.notLive hMem
  obtain ⟨i, o, _, hAt, hUse⟩ := h.node_of_mem hSource
  obtain ⟨i', o', _, hAt', hUse'⟩ := h.node_of_mem hDest
  have hOut : e ∉ o.outEdges.elements := by
    rw [h.mem_out source o e hSource hAt]
    rintro ⟨b, hJoins⟩
    exact hNotJoined hJoins
  have hIn : e ∉ o'.inEdges.elements := by
    rw [h.mem_in dest o' e hDest hAt']
    rintro ⟨a, hJoins⟩
    exact hNotJoined hJoins
  refine ⟨e, free, hSupplies, ?_⟩
  rw [State.addEdge, check_ok (h.isValidNode_iff.mpr hSource),
    check_ok (h.isValidNode_iff.mpr hDest), check_ok hSlots, hTake]
  let s₁ : State := { s with freeEdges := free }
  let s₂ := s₁.putEdge e
    ⟨some source, some dest, Ops.NodeDef.toInt32 s.edges.length, x, y⟩
  have hOutStep := insertOut_eq (s := s₂) hAt hUse.outEdges hOut
  have hInStep := insertIn_eq (s := s₂) (at_ source fun edges => (edges.insert e).1)
    hAt' hUse'.inEdges hIn
  change s₂.insertOut source e >>= _ = _
  rw [hOutStep, Fallible.ok_bind, hInStep]
  rfl

theorem joins_unique {a b a' b' : NodeAddress} (hJoins : s.Joins e a b)
    (hJoins' : s.Joins e a' b') : a = a' ∧ b = b' := by
  obtain ⟨o, _, hAt, hSrc, hDst⟩ := hJoins
  obtain ⟨o', _, hAt', hSrc', hDst'⟩ := hJoins'
  cases some.inj (hAt.symm.trans hAt')
  exact ⟨some.inj (hSrc.symm.trans hSrc'), some.inj (hDst.symm.trans hDst')⟩

theorem unlinked (h : Sound s) {j : Nat} (hj : s.edges[j]? = some (some e)) {o : EdgeObject}
    (hEdge : s.edgeAt e = some o) (hSrc : o.src = some source) (hDst : o.dst = some dest) :
    Sound (s.unlinked e j source dest) ∧ ∀ e' a b,
      (s.unlinked e j source dest).Joins e' a b ↔ e' ≠ e ∧ s.Joins e' a b := by
  set s' := s.unlinked e j source dest with hs'
  have hLive : some e ∈ s.edges := mem_of_getElem? hj
  have hEdgeAt {e' : EdgeAddress} (hNe : e' ≠ e) : s'.edgeAt e' = s.edgeAt e' :=
    update_of_ne hNe _ _
  have hFreed : s'.edgeAt e = some freedEdge := update_self ..
  have hMemEdges {e' : EdgeAddress} : some e' ∈ s'.edges ↔ e' ≠ e ∧ some e' ∈ s.edges :=
    mem_set_none (fun i hi => h.edge_unique hi hj) hj
  have hJoined : s.Joins e source dest := ⟨o, hLive, hEdge, hSrc, hDst⟩
  have hJoins {e' : EdgeAddress} {a b : NodeAddress} :
      s'.Joins e' a b ↔ e' ≠ e ∧ s.Joins e' a b := by
    unfold Joins
    by_cases hEq : e' = e
    · simp [hMemEdges, hEq]
    · simp only [hMemEdges, hEdgeAt hEq, hEq, ne_eq, not_false_eq_true, true_and]
  have hErase := fun (edges : EdgeSet) (hProper : edges.Proper) => hProper.erase_proper e
  refine ⟨?_, fun _ _ _ => hJoins⟩
  constructor
  · intro i n hi
    obtain ⟨o, hAt, hUse⟩ := h.node i n hi
    exact ⟨_, nodeAt_withEdges hAt, hUse.id_eq, at_elements hUse.inEdges hErase,
      at_elements hUse.outEdges hErase, hUse.props⟩
  · intro i e' hi
    obtain ⟨hNe, hOld⟩ := getElem?_set_none.mp hi
    have hOther : e' ≠ e := by
      rintro rfl
      exact hNe (h.edge_unique hOld hj)
    obtain ⟨o, hAt, hUse⟩ := h.edge i e' hOld
    rw [hEdgeAt hOther]
    exact ⟨o, hAt, hUse.id_eq, hUse.src, hUse.dst⟩
  · intro n o' e' hMem hAt
    obtain ⟨o, hOldAt, rfl⟩ := nodeAt_withEdges_elim hAt
    obtain ⟨i, hUse⟩ := h.inUse hMem hOldAt
    have hOld := h.mem_out n o e' hMem hOldAt
    simp only [hJoins, exists_and_left, ← hOld]
    by_cases hEq : n = source
    · simp [at_, hEq, hUse.outEdges.erase_elements]
    · have hAway : e' ∈ o.outEdges.elements → e' ≠ e := by
        rintro hIn rfl
        obtain ⟨b, hJoins⟩ := hOld.mp hIn
        exact hEq (joins_unique hJoins hJoined).1
      simpa [at_, hEq] using hAway
  · intro n o' e' hMem hAt
    obtain ⟨o, hOldAt, rfl⟩ := nodeAt_withEdges_elim hAt
    obtain ⟨i, hUse⟩ := h.inUse hMem hOldAt
    have hOld := h.mem_in n o e' hMem hOldAt
    simp only [hJoins, exists_and_left, ← hOld]
    by_cases hEq : n = dest
    · simp [at_, hEq, hUse.inEdges.erase_elements]
    · have hAway : e' ∈ o.inEdges.elements → e' ≠ e := by
        rintro hIn rfl
        obtain ⟨a, hJoins⟩ := hOld.mp hIn
        exact hEq (joins_unique hJoins hJoined).2
      simpa [at_, hEq] using hAway
  · exact h.edgeSet.erase_proper e
  · intro e'
    have hElements := h.edgeSet.erase_elements e
    rw [hMemEdges, ← h.mem_edgeSet]
    exact (Finset.ext_iff.mp hElements e').trans mem_erase
  · intro n hMem
    obtain ⟨o, hAt, hUnused⟩ := h.freeNode n hMem
    have hNot : some n ∉ s.nodes := fun hLive => h.not_free_of_live hLive hMem
    have hEnds := h.joins_live hJoined
    have hNeS : n ≠ source := by rintro rfl; exact hNot hEnds.1
    have hNeD : n ≠ dest := by rintro rfl; exact hNot hEnds.2
    refine ⟨_, nodeAt_withEdges hAt, hUnused.id_eq, ?_, ?_⟩
    · exact (if_neg hNeD).trans hUnused.inEdges
    · exact (if_neg hNeS).trans hUnused.outEdges
  · exact h.freeNodes_nodup
  · intro e' hMem
    by_cases hEq : e' = e
    · exact hEq ▸ hFreed
    · rw [hEdgeAt hEq]
      exact h.freeEdge e' ((mem_cons.mp hMem).resolve_left hEq)
  · exact nodup_cons.mpr ⟨h.not_free_of_joined hLive, h.freeEdges_nodup⟩
  · intro n o' hAt
    obtain ⟨o, hOldAt, _⟩ := nodeAt_withEdges_elim hAt
    exact h.nodeKnown n o hOldAt
  · intro e' o hAt
    by_cases hEq : e' = e
    · exact .inr (hEq ▸ mem_cons_self)
    · rw [hEdgeAt hEq] at hAt
      rcases h.edgeKnown e' o hAt with hMem | hFree
      · exact .inl (hMemEdges.mpr ⟨hEq, hMem⟩)
      · exact .inr (mem_cons_of_mem e hFree)
  · exact h.numNodes
  · exact h.nodes_lt

structure SameNodes (s s' : State) : Prop where
  nodes : s'.nodes = s.nodes
  numNodes : s'.numNodes = s.numNodes
  freeNodes : s'.freeNodes = s.freeNodes

theorem SameNodes.refl (s : State) : SameNodes s s := ⟨rfl, rfl, rfl⟩

theorem SameNodes.trans {s s' s'' : State} (h : SameNodes s s') (h' : SameNodes s' s'') :
    SameNodes s s'' where
  nodes := h'.nodes.trans h.nodes
  numNodes := h'.numNodes.trans h.numNodes
  freeNodes := h'.freeNodes.trans h.freeNodes

theorem removeEdge (h : Sound s) {o : EdgeObject} (hEdge : s.edgeAt e = some o)
    (hSrc : s.isValidNode o.src) (hDst : s.isValidNode o.dst) :
    ∃ s', s.removeEdge e = .ok s' ∧ Sound s' ∧ SameNodes s s' ∧
      ∀ e' a b, s'.Joins e' a b ↔ e' ≠ e ∧ s.Joins e' a b := by
  obtain ⟨source, hSource, hLiveSource⟩ := h.isValidNode_elim hSrc
  obtain ⟨dest, hDest, hLiveDest⟩ := h.isValidNode_elim hDst
  have hLive : some e ∈ s.edges := by
    refine (h.edgeKnown e o hEdge).resolve_right fun hFree => ?_
    cases some.inj (hEdge.symm.trans (h.freeEdge e hFree))
    cases hSource
  obtain ⟨j, o', hj, hAt, hUse⟩ := h.edge_of_mem hLive
  cases some.inj (hEdge.symm.trans hAt)
  obtain rfl : j = o.id.toNat := by rw [hUse.id_eq, Int.toNat_natCast]
  have hJoined : s.Joins e source dest := ⟨o, hLive, hEdge, hSource, hDest⟩
  obtain ⟨i₁, o₁, _, hAt₁, hUse₁⟩ := h.node_of_mem hLiveSource
  obtain ⟨i₂, o₂, _, hAt₂, hUse₂⟩ := h.node_of_mem hLiveDest
  have hOut := (h.mem_out source o₁ e hLiveSource hAt₁).mpr ⟨dest, hJoined⟩
  have hIn := (h.mem_in dest o₂ e hLiveDest hAt₂).mpr ⟨source, hJoined⟩
  obtain ⟨hSound, hJoins⟩ := h.unlinked hj hEdge hSource hDest
  refine ⟨_, ?_, hSound, ⟨rfl, rfl, rfl⟩, hJoins⟩
  have hEntry (s₁ : State) (hEdges : s₁.edges = s.edges) : s₁.edgeWithId o.id = .ok (some e) := by
    have hNonneg : ¬o.id < 0 := by rw [hUse.id_eq]; omega
    simp [edgeWithId, hNonneg, hEdges, hj]
  have hCount := (h.edgeSet.erase_count e).trans (if_pos ((h.mem_edgeSet e).mpr hLive))
  have hOutStep := eraseOut_eq hAt₁ hUse₁.outEdges hOut
  have hInStep := eraseIn_eq (at_ source fun edges => (edges.erase e).1) hAt₂
    hUse₂.inEdges hIn
  rw [State.removeEdge, edge_eq hEdge, Fallible.ok_bind, check_ok hSrc, Fallible.ok_bind,
    check_ok hDst, Fallible.ok_bind]
  simp only [hSource, hDest]
  rw [unlink, hOutStep, Fallible.ok_bind, hInStep, Fallible.ok_bind,
    hEntry (s.withEdges _ _) rfl, Fallible.ok_bind, check_ok rfl, Fallible.ok_bind]
  exact congrArg (· >>= _) (check_ok hCount)

theorem ends_of_joins (h : Sound s) {a b : NodeAddress} (hJoins : s.Joins e a b) :
    ∃ o, s.isValidNode o.src ∧ s.isValidNode o.dst ∧ s.edgeAt e = some o := by
  have hLive := h.joins_live hJoins
  obtain ⟨o, _, hAt, hSrc, hDst⟩ := hJoins
  refine ⟨o, ?_, ?_, hAt⟩
  · rw [hSrc]
    exact h.isValidNode_iff.mpr hLive.1
  · rw [hDst]
    exact h.isValidNode_iff.mpr hLive.2

/-- `edges` picks the set of a node that holds the edges for which `tip` is the node. -/
structure Picks (edges : NodeObject → EdgeSet) (tip : NodeAddress → NodeAddress → NodeAddress) :
    Prop where
  proper : ∀ o i, o.InUse i → (edges o).Proper
  mem : ∀ s n o e, Sound s → some n ∈ s.nodes → s.nodeAt n = some o →
    (e ∈ (edges o).elements ↔ ∃ a b, s.Joins e a b ∧ tip a b = n)

theorem picks_outEdges : Picks NodeObject.outEdges fun a _ => a where
  proper := fun _ _ hUse => hUse.outEdges
  mem := by
    intro s n o e h hMem hAt
    rw [h.mem_out n o e hMem hAt]
    constructor
    · rintro ⟨b, hJoins⟩
      exact ⟨n, b, hJoins, rfl⟩
    · rintro ⟨_, b, hJoins, rfl⟩
      exact ⟨b, hJoins⟩

theorem picks_inEdges : Picks NodeObject.inEdges fun _ b => b where
  proper := fun _ _ hUse => hUse.inEdges
  mem := by
    intro s n o e h hMem hAt
    rw [h.mem_in n o e hMem hAt]
    constructor
    · rintro ⟨a, hJoins⟩
      exact ⟨a, n, hJoins, rfl⟩
    · rintro ⟨a, _, hJoins, rfl⟩
      exact ⟨a, hJoins⟩

theorem removeEdges {edges : NodeObject → EdgeSet} {tip : NodeAddress → NodeAddress → NodeAddress}
    (hPicks : Picks edges tip) {turns : Nat} {s : State} (h : Sound s) (hMem : some n ∈ s.nodes)
    {o : NodeObject} (hAt : s.nodeAt n = some o) (hTurns : (edges o).elements.card ≤ turns) :
    ∃ s', State.removeEdges edges n turns s = .ok s' ∧ Sound s' ∧ SameNodes s s' ∧
      ∀ e a b, s'.Joins e a b ↔ s.Joins e a b ∧ tip a b ≠ n := by
  induction turns generalizing s o with
  | zero =>
    obtain ⟨i, hUse⟩ := h.inUse hMem hAt
    have hNone := card_eq_zero.mp (Nat.le_zero.mp hTurns)
    have hEmpty := (hPicks.proper o i hUse).empty_iff.mpr hNone
    refine ⟨s, ?_, h, .refl s, fun e a b => (and_iff_left_of_imp ?_).symm⟩
    · rw [State.removeEdges, node_eq hAt, Fallible.ok_bind, if_pos hEmpty]
    · rintro hJoins hTip
      exact notMem_empty e (hNone ▸ (hPicks.mem s n o e h hMem hAt).mpr ⟨a, b, hJoins, hTip⟩)
  | succ turns ih =>
    obtain ⟨i, hUse⟩ := h.inUse hMem hAt
    have hProper := hPicks.proper o i hUse
    by_cases hEmpty : (edges o).empty
    · have hNone := hProper.empty_iff.mp hEmpty
      refine ⟨s, ?_, h, .refl s, fun e a b => (and_iff_left_of_imp ?_).symm⟩
      · rw [State.removeEdges, node_eq hAt, Fallible.ok_bind, if_pos hEmpty]
      · rintro hJoins hTip
        exact notMem_empty e (hNone ▸ (hPicks.mem s n o e h hMem hAt).mpr ⟨a, b, hJoins, hTip⟩)
    · have hSome := nonempty_iff_ne_empty.mpr fun hNone => hEmpty (hProper.empty_iff.mpr hNone)
      obtain ⟨e, hFirst, hFront⟩ := hProper.front_of_nonempty hSome
      obtain ⟨a, b, hJoins, hTip⟩ := (hPicks.mem s n o e h hMem hAt).mp hFirst
      obtain ⟨oe, hSrc, hDst, hEdge⟩ := h.ends_of_joins hJoins
      obtain ⟨s₁, hStep, hSound, hSame, hJoins₁⟩ := h.removeEdge hEdge hSrc hDst
      have hMem₁ : some n ∈ s₁.nodes := hSame.nodes ▸ hMem
      obtain ⟨_, o₁, _, hAt₁, _⟩ := hSound.node_of_mem hMem₁
      have hElements : (edges o₁).elements = (edges o).elements.erase e := by
        ext e'
        rw [hPicks.mem s₁ n o₁ e' hSound hMem₁ hAt₁, mem_erase,
          hPicks.mem s n o e' h hMem hAt]
        simp only [hJoins₁, and_assoc, exists_and_left]
      have hTurns₁ : (edges o₁).elements.card ≤ turns := by
        rw [hElements, card_erase_of_mem hFirst]
        omega
      obtain ⟨s', hRest, hSound', hSame', hJoins'⟩ := ih hSound hMem₁ hAt₁ hTurns₁
      refine ⟨s', ?_, hSound', hSame.trans hSame', fun e' a' b' => ?_⟩
      · rw [State.removeEdges, node_eq hAt, Fallible.ok_bind, if_neg hEmpty]
        simp only [hFront, hStep, Fallible.ok_bind, hRest]
      · rw [hJoins', hJoins₁, and_assoc, and_iff_right_of_imp]
        rintro ⟨hOld, hAway⟩ rfl
        obtain ⟨rfl, rfl⟩ := joins_unique hOld hJoins
        exact hAway hTip

end Sound

def State.released (s : State) (i : Nat) (n : NodeAddress) (o : NodeObject) : State :=
  { s.putNode n o.clear with
    nodes := s.nodes.set i none, freeNodes := n :: s.freeNodes, numNodes := s.numNodes - 1 }

namespace Sound

variable {s : State}

theorem released (h : Sound s) {i : Nat} {n : NodeAddress} (hi : s.nodes[i]? = some (some n))
    (o : NodeObject) (hAlone : ∀ e a b, s.Joins e a b → a ≠ n ∧ b ≠ n) :
    Sound (s.released i n o) := by
  set s' := s.released i n o with hs'
  have hLive : some n ∈ s.nodes := mem_of_getElem? hi
  have hNodeAt {m : NodeAddress} (hNe : m ≠ n) : s'.nodeAt m = s.nodeAt m :=
    update_of_ne hNe _ _
  have hCleared : s'.nodeAt n = some o.clear := update_self ..
  have hMemNodes {m : NodeAddress} : some m ∈ s'.nodes ↔ m ≠ n ∧ some m ∈ s.nodes :=
    mem_set_none (fun _ hj => h.node_unique hj hi) hi
  constructor
  · intro j m hj
    obtain ⟨hNe, hOld⟩ := getElem?_set_none.mp hj
    rw [hNodeAt (hMemNodes.mp (mem_of_getElem? hj)).1]
    exact h.node j m hOld
  · intro j e hj
    obtain ⟨oe, hAt, hUse⟩ := h.edge j e hj
    obtain ⟨a, hSrc, hA⟩ := hUse.src
    obtain ⟨b, hDst, hB⟩ := hUse.dst
    have hAway := hAlone e a b ⟨oe, mem_of_getElem? hj, hAt, hSrc, hDst⟩
    exact ⟨oe, hAt, hUse.id_eq, ⟨a, hSrc, hMemNodes.mpr ⟨hAway.1, hA⟩⟩,
      ⟨b, hDst, hMemNodes.mpr ⟨hAway.2, hB⟩⟩⟩
  · intro m om e hMem hAt
    obtain ⟨hNe, hOld⟩ := hMemNodes.mp hMem
    rw [hNodeAt hNe] at hAt
    exact h.mem_out m om e hOld hAt
  · intro m om e hMem hAt
    obtain ⟨hNe, hOld⟩ := hMemNodes.mp hMem
    rw [hNodeAt hNe] at hAt
    exact h.mem_in m om e hOld hAt
  · exact h.edgeSet
  · exact h.mem_edgeSet
  · intro m hMem
    by_cases hEq : m = n
    · subst hEq
      exact ⟨o.clear, hCleared, rfl, rfl, rfl⟩
    · rw [hNodeAt hEq]
      exact h.freeNode m ((mem_cons.mp hMem).resolve_left hEq)
  · exact nodup_cons.mpr ⟨h.not_free_of_live hLive, h.freeNodes_nodup⟩
  · exact h.freeEdge
  · exact h.freeEdges_nodup
  · intro m om hAt
    by_cases hEq : m = n
    · exact .inr (hEq ▸ mem_cons_self)
    · rw [hNodeAt hEq] at hAt
      rcases h.nodeKnown m om hAt with hMem | hFree
      · exact .inl (hMemNodes.mpr ⟨hEq, hMem⟩)
      · exact .inr (mem_cons_of_mem n hFree)
  · exact h.edgeKnown
  · have hCount := countP_set_none hi
    have hNum := h.numNodes
    change s.numNodes - 1 = (((s.nodes.set i none).countP isSome : Nat) : Int)
    omega
  · simpa [hs', State.released, putNode] using h.nodes_lt

theorem removeNode (h : Sound s) {n : NodeAddress} (hValid : s.isValidNode (some n))
    {o : NodeObject} (hAt : s.nodeAt n = some o) (hSource : ¬o.isSource) (hSink : ¬o.isSink) :
    ∃ s', s.removeNode n = .ok s' ∧ Sound s' := by
  have hMem := h.isValidNode_iff.mp hValid
  obtain ⟨i, hUse⟩ := h.inUse hMem hAt
  obtain ⟨s₁, hLoop₁, h₁, hSame₁, hJoins₁⟩ :=
    h.removeEdges picks_inEdges hMem hAt hUse.inEdges.size_eq.ge
  have hMem₁ : some n ∈ s₁.nodes := hSame₁.nodes ▸ hMem
  obtain ⟨i₁, o₁, _, hAt₁, hUse₁⟩ := h₁.node_of_mem hMem₁
  obtain ⟨s₂, hLoop₂, h₂, hSame₂, hJoins₂⟩ :=
    h₁.removeEdges picks_outEdges hMem₁ hAt₁ hUse₁.outEdges.size_eq.ge
  have hMem₂ : some n ∈ s₂.nodes := hSame₂.nodes ▸ hMem₁
  obtain ⟨i₂, o₂, hi₂, hAt₂, hUse₂⟩ := h₂.node_of_mem hMem₂
  obtain rfl : i₂ = o₂.id.toNat := by rw [hUse₂.id_eq, Int.toNat_natCast]
  refine ⟨s₂.released o₂.id.toNat n o₂, ?_, h₂.released hi₂ o₂ fun e a b hJoins => ?_⟩
  · rw [State.removeNode, check_ok hValid, Fallible.ok_bind, node_eq hAt, Fallible.ok_bind,
      check_ok hSource, Fallible.ok_bind, check_ok hSink, Fallible.ok_bind, hLoop₁,
      Fallible.ok_bind, node_eq hAt₁, Fallible.ok_bind, hLoop₂, Fallible.ok_bind, releaseNode,
      check_ok (h₂.isValidNode_iff.mpr hMem₂), node_eq hAt₂]
    rfl
  · obtain ⟨hOld, hA⟩ := (hJoins₂ e a b).mp hJoins
    exact ⟨hA, ((hJoins₁ e a b).mp hOld).2⟩

end Sound

end TensorFlowOnSpark.GraphObjects
