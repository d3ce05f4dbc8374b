import Mathlib.Tactic.TFAE
import TensorFlowOnSpark.Graph.GraphObjectsLinks
import TensorFlowOnSpark.Lib.Transition

/-!
# Runs of a graph in memory

In every run whose calls keep to their `DCHECK`s, the four records of an edge agree, ids index
the tables, and no `CHECK` fails.
-/

namespace TensorFlowOnSpark.GraphObjects

open List Option Nat

def NodeObject.IsOp (o : NodeObject) : Prop := ¬o.isSource ∧ ¬o.isSink

/-- The call keeps to the `DCHECK`s at its start and to live nodes, and the arena gives out
what it has not given out before. -/
def Respects (s : State) : Call → Prop
  | .addNode _ _ fresh => s.nodeAt fresh = none
  | .copyNode (.own n) fresh =>
    s.nodeAt fresh = none ∧ s.isValidNode (some n) ∧ ∀ o, s.nodeAt n = some o → o.IsOp
  | .copyNode (.foreign node) fresh => s.nodeAt fresh = none ∧ (∃ i, node.InUse i) ∧ node.IsOp
  | .removeNode n => s.isValidNode (some n) ∧ ∀ o, s.nodeAt n = some o → o.IsOp
  | .addEdge source x dest y fresh =>
    s.edgeAt fresh = none ∧ s.isValidNode (some source) ∧ s.isValidNode (some dest) ∧
      s.SlotsAgree source x dest y
  | .addControlEdge source dest fresh =>
    s.edgeAt fresh = none ∧ s.isValidNode (some source) ∧ s.isValidNode (some dest)
  | .removeEdge e => ∃ o, s.edgeAt e = some o ∧ s.isValidNode o.src ∧ s.isValidNode o.dst

def Room (s : State) : Prop := s.nodes.length + 1 < idLimit ∧ s.edges.length + 1 < idLimit

variable {lookUpOpDef : String → Option Ops.OpDef} {nodeDef : Ops.NodeDef}
  {status : Option (Framework.Code × String)}

theorem nodeProperties_named {props : Properties}
    (h : nodeProperties lookUpOpDef nodeDef status = .ok props) :
    props.nodeDef = nodeDef ∧ lookUpOpDef nodeDef.op ≠ none := by
  unfold nodeProperties at h
  split at h
  · cases h
  · split at h
    · cases h
    · rename_i opDef hLookUp
      split at h
      · cases h
      · cases h
        exact ⟨rfl, by rw [hLookUp]; exact some_ne_none opDef⟩

theorem map_snd_ok {α : Type} {x : Except Fault (α × State)} {a : α} {s : State}
    (h : x = .ok (a, s)) : (·.2) <$> x = .ok s := by
  rw [h]
  rfl

namespace Sound

variable {s : State} {lookUpOpDef : String → Option Ops.OpDef}

variable {fresh : NodeAddress}

theorem addNode (h : Sound s) (hRoom : s.nodes.length + 1 < idLimit)
    (hNamed : lookUpOpDef "" = none) (nodeDef : Ops.NodeDef)
    (status : Option (Framework.Code × String))
    (hFresh : s.nodeAt fresh = none) :
    ∃ result s', s.addNode lookUpOpDef nodeDef status fresh = .ok (result, s') ∧ Sound s' := by
  cases hProps : nodeProperties lookUpOpDef nodeDef status with
  | error error => exact ⟨.error error, s, by rw [State.addNode, hProps], h⟩
  | ok props =>
    obtain ⟨hDef, hFound⟩ := nodeProperties_named hProps
    have hOp : props.nodeDef.op ≠ "" := by
      rw [hDef]
      intro hEmpty
      exact hFound (hEmpty ▸ hNamed)
    obtain ⟨n, o, free, hAllocate, hSupplies, _, hUse, hIn, hOut⟩ := h.allocateNode hOp none hFresh
    refine ⟨.ok n, s.adopt n o free, ?_, h.adopt hSupplies hUse hIn hOut hRoom⟩
    rw [State.addNode, hProps]
    simp only [hAllocate, Fallible.ok_bind]

theorem copyNode (h : Sound s) (hRoom : s.nodes.length + 1 < idLimit) (source : CopySource)
    {node : NodeObject} (hCopied : s.copied source = .ok node) (hUsed : ∃ i, node.InUse i)
    (hOp : node.IsOp) (hFresh : s.nodeAt fresh = none) :
    ∃ n s', s.copyNode source fresh = .ok (n, s') ∧ Sound s' := by
  obtain ⟨i, hUsed⟩ := hUsed
  obtain ⟨props, hProps, hName⟩ := hUsed.props
  obtain ⟨n, o, free, hAllocate, hSupplies, _, hUse, hIn, hOut⟩ :=
    h.allocateNode hName (some node.costId) hFresh
  let copy := { o with assignedDeviceName := node.assignedDeviceName }
  have hCopy : copy.InUse s.nodes.length := ⟨hUse.id_eq, hUse.inEdges, hUse.outEdges, hUse.props⟩
  refine ⟨n, s.adopt n copy free, ?_, h.adopt hSupplies hCopy hIn hOut hRoom⟩
  have hAt : (s.adopt n o free).nodeAt n = some o := Function.update_self ..
  rw [State.copyNode, hCopied, Fallible.ok_bind, check_ok hOp.1, check_ok hOp.2]
  simp only [hProps, hAllocate, Fallible.ok_bind, State.node_eq hAt]
  simp only [State.adopt, State.putNode, Function.update_idem, copy]

theorem addEdge_sound (h : Sound s) (hRoom : s.edges.length < idLimit) {source dest : NodeAddress}
    (hSource : s.isValidNode (some source)) (hDest : s.isValidNode (some dest)) {x y : Int}
    (hSlots : s.SlotsAgree source x dest y) {fresh : EdgeAddress} (hFresh : s.edgeAt fresh = none) :
    ∃ e s', s.addEdge source x dest y fresh = .ok (e, s') ∧ Sound s' ∧ s'.nodes = s.nodes ∧
      s'.edges.length = s.edges.length + 1 := by
  have hLiveSource := h.isValidNode_iff.mp hSource
  have hLiveDest := h.isValidNode_iff.mp hDest
  obtain ⟨e, free, hSupplies, hAdd⟩ := h.addEdge hLiveSource hLiveDest hSlots hFresh
  rw [toInt32_length hRoom] at hAdd
  exact ⟨e, _, hAdd, h.link hSupplies hLiveSource hLiveDest x y, rfl, length_append⟩

theorem call (h : Sound s) (hRoom : Room s) (hNamed : lookUpOpDef "" = none) {c : Call}
    (hRespects : Respects s c) : ∃ s', s.call lookUpOpDef c = .ok s' ∧ Sound s' := by
  cases c with
  | addNode nodeDef status fresh =>
    obtain ⟨result, s', hStep, hSound⟩ := h.addNode hRoom.1 hNamed nodeDef status hRespects
    exact ⟨s', map_snd_ok hStep, hSound⟩
  | copyNode source fresh =>
    cases source with
    | own n =>
      obtain ⟨hFresh, hValid, hOp⟩ := hRespects
      obtain ⟨i, o, _, hAt, hUse⟩ := h.node_of_mem (h.isValidNode_iff.mp hValid)
      obtain ⟨n, s', hStep, hSound⟩ :=
        h.copyNode hRoom.1 (.own n) (State.node_eq hAt) ⟨i, hUse⟩ (hOp o hAt) hFresh
      exact ⟨s', map_snd_ok hStep, hSound⟩
    | foreign node =>
      obtain ⟨hFresh, hUse, hOp⟩ := hRespects
      obtain ⟨n, s', hStep, hSound⟩ := h.copyNode hRoom.1 (.foreign node) rfl hUse hOp hFresh
      exact ⟨s', map_snd_ok hStep, hSound⟩
  | removeNode n =>
    obtain ⟨hValid, hOp⟩ := hRespects
    obtain ⟨i, o, _, hAt, _⟩ := h.node_of_mem (h.isValidNode_iff.mp hValid)
    exact h.removeNode hValid hAt (hOp o hAt).1 (hOp o hAt).2
  | addEdge source x dest y fresh =>
    obtain ⟨hFresh, hSource, hDest, hSlots⟩ := hRespects
    obtain ⟨e, s', hStep, hSound, _⟩ :=
      h.addEdge_sound (lt_of_succ_lt hRoom.2) hSource hDest hSlots hFresh
    exact ⟨s', map_snd_ok hStep, hSound⟩
  | addControlEdge source dest fresh =>
    obtain ⟨hFresh, hSource, hDest⟩ := hRespects
    obtain ⟨e, s', hStep, hSound, _⟩ :=
      h.addEdge_sound (lt_of_succ_lt hRoom.2) hSource hDest (fun _ => ⟨rfl, rfl⟩) hFresh
    exact ⟨s', map_snd_ok hStep, hSound⟩
  | removeEdge e =>
    obtain ⟨o, hAt, hSrc, hDst⟩ := hRespects
    obtain ⟨s', hStep, hSound, _⟩ := h.removeEdge hAt hSrc hDst
    exact ⟨s', hStep, hSound⟩

end Sound

/-- `e` is in the set `edges` of the node that `node` points to. -/
def State.InSetOf (s : State) (edges : NodeObject → EdgeSet) (e : EdgeAddress)
    (node : Option NodeAddress) : Prop :=
  ∃ n o, node = some n ∧ s.nodeAt n = some o ∧ e ∈ (edges o).elements

structure Coherent (s : State) : Prop where
  edgeSet : s.edgeSet.Behaves
  nodeSets : ∀ n o, s.nodeAt n = some o → o.inEdges.Behaves ∧ o.outEdges.Behaves
  records : ∀ e o, s.edgeAt e = some o →
    [s.InSetOf NodeObject.outEdges e o.src, s.InSetOf NodeObject.inEdges e o.dst,
      s.edgeWithId o.id = .ok (some e), e ∈ s.edgeSet.elements].TFAE
  out_src : ∀ n o e, s.nodeAt n = some o → e ∈ o.outEdges.elements →
    ∃ oe, s.edgeAt e = some oe ∧ oe.src = some n
  in_dst : ∀ n o e, s.nodeAt n = some o → e ∈ o.inEdges.elements →
    ∃ oe, s.edgeAt e = some oe ∧ oe.dst = some n
  node_id : ∀ (i : Nat) n, s.nodes[i]? = some (some n) → ∃ o, s.nodeAt n = some o ∧ o.id = i
  edge_id : ∀ (j : Nat) e, s.edges[j]? = some (some e) → ∃ o, s.edgeAt e = some o ∧ o.id = j
  ends_live : ∀ e o, some e ∈ s.edges → s.edgeAt e = some o →
    s.isValidNode o.src ∧ s.isValidNode o.dst
  numNodes : s.numLiveNodes = s.nodes.countP isSome
  freeNodes : s.freeNodes.Nodup ∧ ∀ n ∈ s.freeNodes, some n ∉ s.nodes
  freeEdges : s.freeEdges.Nodup ∧ ∀ e ∈ s.freeEdges, some e ∉ s.edges
  node_once : ∀ (i j : Nat) n, s.nodes[i]? = some (some n) → s.nodes[j]? = some (some n) → i = j
  edge_once : ∀ (i j : Nat) e, s.edges[i]? = some (some e) → s.edges[j]? = some (some e) → i = j

namespace Sound

variable {s : State}

variable (h : Sound s)
include h

variable {n : NodeAddress} {o : NodeObject}

theorem nodeSets (hAt : s.nodeAt n = some o) :
    o.inEdges.Proper ∧ o.outEdges.Proper := by
  rcases h.nodeKnown n o hAt with hMem | hFree
  · obtain ⟨i, hUse⟩ := h.inUse hMem hAt
    exact ⟨hUse.inEdges, hUse.outEdges⟩
  · obtain ⟨o', hAt', hUnused⟩ := h.freeNode n hFree
    cases some.inj (hAt.symm.trans hAt')
    rw [hUnused.inEdges, hUnused.outEdges]
    exact ⟨.none, .none⟩

variable {e : EdgeAddress}

theorem live_of_edges (hAt : s.nodeAt n = some o)
    (hEdge : e ∈ o.outEdges.elements ∨ e ∈ o.inEdges.elements) :
    some n ∈ s.nodes := by
  refine (h.nodeKnown n o hAt).resolve_right fun hFree => ?_
  obtain ⟨o', hAt', hUnused⟩ := h.freeNode n hFree
  cases some.inj (hAt.symm.trans hAt')
  rw [hUnused.inEdges, hUnused.outEdges] at hEdge
  simp at hEdge

theorem out_joins (hAt : s.nodeAt n = some o) (hEdge : e ∈ o.outEdges.elements) :
    ∃ b, s.Joins e n b :=
  (h.mem_out n o e (h.live_of_edges hAt (.inl hEdge)) hAt).mp hEdge

theorem in_joins (hAt : s.nodeAt n = some o) (hEdge : e ∈ o.inEdges.elements) :
    ∃ a, s.Joins e a n :=
  (h.mem_in n o e (h.live_of_edges hAt (.inr hEdge)) hAt).mp hEdge

theorem joins_iff : (∃ a b, s.Joins e a b) ↔ some e ∈ s.edges := by
  constructor
  · rintro ⟨a, b, o, hMem, _⟩
    exact hMem
  · intro hMem
    obtain ⟨j, o, _, hAt, hUse⟩ := h.edge_of_mem hMem
    obtain ⟨a, hSrc, _⟩ := hUse.src
    obtain ⟨b, hDst, _⟩ := hUse.dst
    exact ⟨a, b, o, hMem, hAt, hSrc, hDst⟩

/-- The four records of an edge. -/
theorem records {o : EdgeObject} (hAt : s.edgeAt e = some o) :
    [s.InSetOf NodeObject.outEdges e o.src, s.InSetOf NodeObject.inEdges e o.dst,
      s.edgeWithId o.id = .ok (some e), e ∈ s.edgeSet.elements].TFAE := by
  have hEnds {a b : NodeAddress} (hJoins : s.Joins e a b) : o.src = some a ∧ o.dst = some b := by
    obtain ⟨o', _, hAt', hSrc, hDst⟩ := hJoins
    cases some.inj (hAt.symm.trans hAt')
    exact ⟨hSrc, hDst⟩
  tfae_have 1 → 4 := by
    rintro ⟨n, on, hSrc, hNode, hEdge⟩
    obtain ⟨b, hJoins⟩ := h.out_joins hNode hEdge
    exact (h.mem_edgeSet e).mpr (h.joins_iff.mp ⟨n, b, hJoins⟩)
  tfae_have 2 → 4 := by
    rintro ⟨n, on, hDst, hNode, hEdge⟩
    obtain ⟨a, hJoins⟩ := h.in_joins hNode hEdge
    exact (h.mem_edgeSet e).mpr (h.joins_iff.mp ⟨a, n, hJoins⟩)
  tfae_have 3 → 4 := by
    intro hEntry
    refine (h.mem_edgeSet e).mpr ?_
    unfold State.edgeWithId at hEntry
    split at hEntry
    · cases hEntry
    · split at hEntry
      · rename_i hGet
        cases hEntry
        exact mem_of_getElem? hGet
      · cases hEntry
  tfae_have 4 → 1 := by
    intro hEdge
    obtain ⟨a, b, hJoins⟩ := h.joins_iff.mpr ((h.mem_edgeSet e).mp hEdge)
    have hLive := (h.joins_live hJoins).1
    obtain ⟨i, on, _, hNode, _⟩ := h.node_of_mem hLive
    exact ⟨a, on, (hEnds hJoins).1, hNode, (h.mem_out a on e hLive hNode).mpr ⟨b, hJoins⟩⟩
  tfae_have 4 → 2 := by
    intro hEdge
    obtain ⟨a, b, hJoins⟩ := h.joins_iff.mpr ((h.mem_edgeSet e).mp hEdge)
    have hLive := (h.joins_live hJoins).2
    obtain ⟨i, on, _, hNode, _⟩ := h.node_of_mem hLive
    exact ⟨b, on, (hEnds hJoins).2, hNode, (h.mem_in b on e hLive hNode).mpr ⟨a, hJoins⟩⟩
  tfae_have 4 → 3 := by
    intro hEdge
    obtain ⟨j, o', hj, hAt', hUse⟩ := h.edge_of_mem ((h.mem_edgeSet e).mp hEdge)
    cases some.inj (hAt.symm.trans hAt')
    have hNonneg : ¬((j : Int) < 0) := by omega
    simp [State.edgeWithId, hUse.id_eq, hj]
  tfae_finish

theorem coherent : Coherent s where
  edgeSet := h.edgeSet.behaves
  nodeSets := fun _ _ hAt => ⟨(h.nodeSets hAt).1.behaves, (h.nodeSets hAt).2.behaves⟩
  records := fun _ _ => h.records
  out_src := by
    intro n o e hAt hEdge
    obtain ⟨b, oe, _, hAtE, hSrc, _⟩ := h.out_joins hAt hEdge
    exact ⟨oe, hAtE, hSrc⟩
  in_dst := by
    intro n o e hAt hEdge
    obtain ⟨a, oe, _, hAtE, _, hDst⟩ := h.in_joins hAt hEdge
    exact ⟨oe, hAtE, hDst⟩
  node_id := by
    intro i n hi
    obtain ⟨o, hAt, hUse⟩ := h.node i n hi
    exact ⟨o, hAt, hUse.id_eq⟩
  edge_id := by
    intro j e hj
    obtain ⟨o, hAt, hUse⟩ := h.edge j e hj
    exact ⟨o, hAt, hUse.id_eq⟩
  ends_live := by
    intro e o hMem hAt
    obtain ⟨a, b, hJoins⟩ := h.joins_iff.mpr hMem
    obtain ⟨o', hSrc, hDst, hAt'⟩ := h.ends_of_joins hJoins
    cases some.inj (hAt.symm.trans hAt')
    exact ⟨hSrc, hDst⟩
  numNodes := by
    have hCount : s.nodes.countP isSome ≤ s.nodes.length := countP_le_length
    rw [State.numLiveNodes, h.numNodes]
    exact toInt32_length (lt_of_le_of_lt hCount h.nodes_lt)
  freeNodes := ⟨h.freeNodes_nodup, fun _ hFree hLive => h.not_free_of_live hLive hFree⟩
  freeEdges := ⟨h.freeEdges_nodup, fun _ hFree hLive => h.not_free_of_joined hLive hFree⟩
  node_once := fun _ _ _ => h.node_unique
  edge_once := fun _ _ _ => h.edge_unique

end Sound

theorem empty_sound : Sound State.empty where
  node := fun i n hi => by simp [State.empty] at hi
  edge := fun j e hj => by simp [State.empty] at hj
  mem_out := fun n o e hMem => by simp [State.empty] at hMem
  mem_in := fun n o e hMem => by simp [State.empty] at hMem
  edgeSet := .none
  mem_edgeSet := fun e => by simp [State.empty]
  freeNode := fun n hMem => by simp [State.empty] at hMem
  freeNodes_nodup := nodup_nil
  freeEdge := fun e hMem => by simp [State.empty] at hMem
  freeEdges_nodup := nodup_nil
  nodeKnown := fun n o hAt => by simp [State.empty] at hAt
  edgeKnown := fun e o hAt => by simp [State.empty] at hAt
  numNodes := rfl
  nodes_lt := by simp [State.empty, idLimit]

variable {fresh : NodeAddress}

theorem State.addNode_of_properties {s s' : State} {props : Properties}
    {n : NodeAddress} (hProps : nodeProperties lookUpOpDef nodeDef status = .ok props)
    (hAllocate : s.allocateNode props none fresh = .ok (n, s')) :
    s.addNode lookUpOpDef nodeDef status fresh = .ok (.ok n, s') := by
  rw [State.addNode, hProps]
  simp only [hAllocate, Fallible.ok_bind]

theorem Sound.addFresh {s : State} (h : Sound s) (hNil : s.freeNodes = [])
    (hRoom : s.nodes.length + 1 < idLimit) {props : Properties} (hOp : props.nodeDef.op ≠ "")
    (hFresh : s.nodeAt fresh = none) :
    ∃ o, s.allocateNode props none fresh = .ok (fresh, s.adopt fresh o []) ∧
      Sound (s.adopt fresh o []) ∧ (s.adopt fresh o []).node fresh = .ok o ∧
      o.id = s.nodes.length := by
  obtain ⟨n, o, free, hAllocate, hSupplies, hFirst, hUse, hIn, hOut⟩ :=
    h.allocateNode hOp none hFresh
  obtain ⟨rfl, rfl⟩ := hFirst hNil
  exact ⟨o, hAllocate, h.adopt hSupplies hUse hIn hOut hRoom,
    State.node_eq (Function.update_self ..), hUse.id_eq⟩

/-- The constructor makes a graph of the source, the sink and an edge between them when the ops of
the two are found. -/
theorem construct_ok {source sink : NodeAddress}
    (hDistinct : sink ≠ source) (edge : EdgeAddress) {props props' : Properties}
    (hSource : nodeProperties lookUpOpDef (noOpDef "_SOURCE") none = .ok props)
    (hSink : nodeProperties lookUpOpDef (noOpDef "_SINK") none = .ok props') :
    ∃ s, State.construct lookUpOpDef source sink edge = .ok s ∧ Sound s ∧
      s.nodes = [some source, some sink] ∧ s.edges.length = 1 := by
  have hOp : props.nodeDef.op ≠ "" := by
    rw [(nodeProperties_named hSource).1]
    decide
  have hOp' : props'.nodeDef.op ≠ "" := by
    rw [(nodeProperties_named hSink).1]
    decide
  obtain ⟨o, hFirst, h₁, hNode, hId⟩ :=
    empty_sound.addFresh rfl (by decide) hOp (rfl : State.empty.nodeAt source = none)
  have hFresh : (State.empty.adopt source o []).nodeAt sink = none :=
    Function.update_of_ne hDistinct _ _
  obtain ⟨o', hSecond, h₂, hNode', hId'⟩ :=
    h₁.addFresh rfl (show 1 + 1 < idLimit by decide) hOp' hFresh
  set s₂ := (State.empty.adopt source o []).adopt sink o' []
  have hNodes : s₂.nodes = [some source, some sink] := rfl
  have hLive : some source ∈ s₂.nodes ∧ some sink ∈ s₂.nodes := by simp [hNodes]
  obtain ⟨e, s, hEdge, hSound, hSame⟩ := h₂.addEdge_sound (show 0 < idLimit by decide)
    (h₂.isValidNode_iff.mpr hLive.1) (h₂.isValidNode_iff.mpr hLive.2) (fun _ => ⟨rfl, rfl⟩)
    (rfl : s₂.edgeAt edge = none)
  refine ⟨s, ?_, hSound, hSame.1.trans hNodes, hSame.2⟩
  rw [State.construct, State.addNode_of_properties hSource hFirst]
  simp only [hNode, Fallible.ok_bind]
  rw [check_ok (show o.id = kSourceId from hId), State.addNode_of_properties hSink hSecond]
  simp only [hNode', Fallible.ok_bind]
  rw [check_ok (show o'.id = kSinkId from hId'), State.addControlEdge, hEdge]
  rfl

theorem construct_sound {source sink : NodeAddress}
    (hDistinct : sink ≠ source) {edge : EdgeAddress} {s : State}
    (h : State.construct lookUpOpDef source sink edge = .ok s) : Sound s := by
  cases hSource : nodeProperties lookUpOpDef (noOpDef "_SOURCE") none with
  | error error =>
    rw [State.construct, State.addNode, hSource] at h
    cases h
  | ok props =>
    cases hSink : nodeProperties lookUpOpDef (noOpDef "_SINK") none with
    | error error =>
      obtain ⟨⟨result, s₁⟩, _, h⟩ := Fallible.bind_eq_ok.mp h
      cases result with
      | error error => cases h
      | ok n =>
        obtain ⟨o, _, h⟩ := Fallible.bind_eq_ok.mp h
        obtain ⟨_, _, h⟩ := Fallible.bind_eq_ok.mp h
        rw [State.addNode, hSink] at h
        cases h
    | ok props' =>
      obtain ⟨s', hConstruct, hSound, _⟩ := construct_ok hDistinct edge hSource hSink
      cases hConstruct.symm.trans h
      exact hSound

def step (lookUpOpDef : String → Option Ops.OpDef) (s : State) (c : Call) :
    Transition.Outcome State Fault :=
  match s.call lookUpOpDef c with
  | .ok s' => .next s'
  | .error fault => .failed fault

theorem Sound.exists_edgeAddress {s : State} (h : Sound s) : ∃ fresh, s.edgeAt fresh = none := by
  obtain ⟨fresh, hFresh⟩ :=
    Infinite.exists_notMem_finset (s.edges.filterMap id ++ s.freeEdges).toFinset
  refine ⟨fresh, eq_none_iff_forall_not_mem.mpr fun o hAt => hFresh ?_⟩
  have hKnown := h.edgeKnown fresh o hAt
  simpa using hKnown

theorem Sound.exists_nodeAddress {s : State} (h : Sound s) : ∃ fresh, s.nodeAt fresh = none := by
  obtain ⟨fresh, hFresh⟩ :=
    Infinite.exists_notMem_finset (s.nodes.filterMap id ++ s.freeNodes).toFinset
  refine ⟨fresh, eq_none_iff_forall_not_mem.mpr fun o hAt => hFresh ?_⟩
  have hKnown := h.nodeKnown fresh o hAt
  simpa using hKnown

def opsNamed (names : List String) (op : String) : Option Ops.OpDef :=
  if op ∈ names then some ⟨op, [], [], []⟩ else none

theorem many_edges {s₀ : State} {source sink : NodeAddress} (h : Sound s₀)
    (hNodes : s₀.nodes = [some source, some sink]) (hEdges : s₀.edges.length = 1)
    (lookUpOpDef : String → Option Ops.OpDef) (k : Nat) (hFew : k < idLimit) :
    ∃ s, Transition.Reach (step lookUpOpDef)
        (fun s c => Respects s c ∧ s.nodes.length = 2 ∧ s.edges.length ≤ k) s₀ s ∧
      Sound s ∧ s.nodes = [some source, some sink] ∧ s.edges.length = k + 1 := by
  induction k with
  | zero => exact ⟨s₀, .refl, h, hNodes, hEdges⟩
  | succ k ih =>
    obtain ⟨s, hRun, hSound, hNodes, hEdges⟩ := ih (lt_of_succ_lt hFew)
    obtain ⟨fresh, hFresh⟩ := hSound.exists_edgeAddress
    have hSource := hSound.isValidNode_iff.mpr (hNodes ▸ mem_cons_self)
    have hSink : s.isValidNode (some sink) := hSound.isValidNode_iff.mpr (by simp [hNodes])
    obtain ⟨e, s', hAdd, hSound', hNodes', hEdges'⟩ :=
      hSound.addEdge_sound (hEdges ▸ hFew) hSource hSink (fun _ => ⟨rfl, rfl⟩) hFresh
    refine ⟨s', ?_, hSound', hNodes'.trans hNodes, by omega⟩
    refine .tail (a := .addControlEdge source sink fresh) (hRun.mono ?_)
      ⟨⟨hFresh, hSource, hSink⟩, by rw [hNodes]; rfl, hEdges.le⟩ ?_
    · rintro s c ⟨hRespects, hTwo, hFew⟩
      exact ⟨hRespects, hTwo, le_succ_of_le hFew⟩
    rw [step, State.call, State.addControlEdge, map_snd_ok hAdd]

/-- The graph invariant, and the calls that go through, in every state of a run. -/
theorem graph_coherent {lookUpOpDef : String → Option Ops.OpDef} (hNamed : lookUpOpDef "" = none)
    {source sink : NodeAddress} (hDistinct : sink ≠ source) {edge : EdgeAddress} {s₀ s : State}
    (hConstruct : State.construct lookUpOpDef source sink edge = .ok s₀)
    (hRun : Transition.Reach (step lookUpOpDef) (fun s c => Room s ∧ Respects s c) s₀ s) :
    Coherent s ∧ ∀ c, Room s → Respects s c → ∃ s', s.call lookUpOpDef c = .ok s' := by
  have hSound : Sound s := by
    refine hRun.invariant Sound (construct_sound hDistinct hConstruct) ?_
    rintro s c s' h ⟨hRoom, hRespects⟩ hStep
    obtain ⟨s'', hCall, hSound⟩ := h.call hRoom hNamed hRespects
    rw [step, hCall] at hStep
    cases hStep
    exact hSound
  refine ⟨hSound.coherent, fun c hRoom hRespects => ?_⟩
  obtain ⟨s', hCall, _⟩ := hSound.call hRoom hNamed hRespects
  exact ⟨s', hCall⟩

def respectsTest (s : State) : Call → Bool
  | .addNode _ _ fresh => (s.nodeAt fresh).isNone
  | .removeNode n =>
    s.isValidNode (some n) && (s.nodeAt n).all fun o => decide (¬o.isSource ∧ ¬o.isSink)
  | .addControlEdge source dest fresh =>
    (s.edgeAt fresh).isNone && s.isValidNode (some source) && s.isValidNode (some dest)
  | _ => false

def callTest (s : State) (c : Call) : Bool :=
  decide (s.nodes.length + 1 < idLimit ∧ s.edges.length + 1 < idLimit) && respectsTest s c

/-- The second node takes the object of the first, and its edge that of an edge of the first. -/
def removeAndAdd : List Call :=
  [.addNode (noOpDef "a") none 2, .addControlEdge 0 2 1, .addControlEdge 2 1 2, .removeNode 2,
    .addNode (noOpDef "b") none 3, .addControlEdge 0 2 3]

theorem respects_of_test {s : State} {c : Call} (h : callTest s c) : Room s ∧ Respects s c := by
  rw [callTest, Bool.and_eq_true, decide_eq_true_eq] at h
  obtain ⟨hRoom, hRespects⟩ := h
  refine ⟨hRoom, ?_⟩
  cases c with
  | addNode nodeDef status fresh => exact isNone_iff_eq_none.mp hRespects
  | removeNode n =>
    simp only [respectsTest, Bool.and_eq_true, decide_eq_true_eq] at hRespects
    refine ⟨hRespects.1, fun o hAt => ?_⟩
    rw [hAt, all_some] at hRespects
    have hOp : ¬o.isSource ∧ ¬o.isSink := of_decide_eq_true hRespects.2
    exact hOp
  | addControlEdge source dest fresh =>
    simp only [respectsTest, Bool.and_eq_true, decide_eq_true_eq, isNone_iff_eq_none] at hRespects
    exact ⟨hRespects.1.1, hRespects.1.2, hRespects.2⟩
  | copyNode source fresh => cases hRespects
  | addEdge source x dest y fresh => cases hRespects
  | removeEdge e => cases hRespects

theorem recycled_coherent : ∃ s₀ s, State.construct (opsNamed ["NoOp"]) 0 1 0 = .ok s₀ ∧
    Transition.Reach (step (opsNamed ["NoOp"])) (fun s c => Room s ∧ Respects s c) s₀ s ∧
    s.nodes = [some 0, some 1, none, some 2] ∧ s.edges = [some 0, none, none, some 2] ∧
    Coherent s := by
  have hTest : (match State.construct (opsNamed ["NoOp"]) 0 1 0 with
      | .ok s₀ => (Transition.exec (step (opsNamed ["NoOp"])) callTest s₀ removeAndAdd).holds
          fun s => decide (s.nodes = [some 0, some 1, none, some 2] ∧
            s.edges = [some 0, none, none, some 2])
      | .error _ => false) = true := by
    decide +kernel
  cases hConstruct : State.construct (opsNamed ["NoOp"]) 0 1 0 with
  | error fault =>
    rw [hConstruct] at hTest
    cases hTest
  | ok s₀ =>
    rw [hConstruct] at hTest
    obtain ⟨s, hRun, hShape⟩ := Transition.exists_reach_of_exec _ s₀ callTest
      (fun _ _ => respects_of_test) removeAndAdd _ hTest
    obtain ⟨hNodes, hEdges⟩ := of_decide_eq_true hShape
    exact ⟨s₀, s, rfl, hRun, hNodes, hEdges,
      (graph_coherent rfl (by decide) hConstruct hRun).1⟩

theorem link_incoherent {s : State} (hEdges : s.edges.length = idLimit) (e : EdgeAddress)
    (source dest : NodeAddress) (x y : Int) (free : List EdgeAddress) :
    ¬Coherent (s.link e ⟨some source, some dest, Ops.NodeDef.toInt32 s.edges.length, x, y⟩ source
      dest free) := by
  intro hCoherent
  obtain ⟨o, hAt, hIndex⟩ := hCoherent.edge_id s.edges.length e getElem?_concat_length
  have hNew : (s.link e ⟨some source, some dest, Ops.NodeDef.toInt32 s.edges.length, x, y⟩ source
      dest free).edgeAt e = some _ := Function.update_self ..
  cases some.inj (hNew.symm.trans hAt)
  rw [hEdges] at hIndex
  have hOver : Ops.NodeDef.toInt32 idLimit ≠ idLimit := by decide
  exact hOver hIndex

theorem addNode_unnamed {s : State} (h : Sound s) {props : Properties} (hOp : nodeDef.op = "")
    (hProps : nodeProperties lookUpOpDef nodeDef none = .ok props)
    (hFresh : s.nodeAt fresh = none) :
    s.call lookUpOpDef (.addNode nodeDef none fresh) = .error .checkFailed := by
  obtain ⟨n, o, free, hTake, _, _, hUnused⟩ := h.takeNode hFresh
  have hClass : setClasses props.nodeDef.op classNames .uninitialized = .error .checkFailed := by
    rw [(nodeProperties_named hProps).1, hOp]
    decide
  have hIn : o.inEdges.empty := by rw [hUnused.inEdges]; rfl
  have hOut : o.outEdges.empty := by rw [hUnused.outEdges]; rfl
  rw [State.call, State.addNode, hProps]
  simp only [State.allocateNode, hTake, Fallible.ok_bind]
  rw [NodeObject.initializeNode, check_ok hUnused.id_eq, check_ok hIn, check_ok hOut, hClass]
  rfl

/-- The 2 ^ 31st edge behind the first one gets an id that indexes no table. -/
theorem graph_incoherent :
    (∃ (source sink : NodeAddress) (edge : EdgeAddress) (s₀ s : State), sink ≠ source ∧
      State.construct (opsNamed ["NoOp"]) source sink edge = .ok s₀ ∧
      Transition.Reach (step (opsNamed ["NoOp"])) Respects s₀ s ∧ ¬Coherent s) ∧
    ∃ (source sink : NodeAddress) (edge : EdgeAddress) (s₀ : State) (c : Call), sink ≠ source ∧
      State.construct (opsNamed ["NoOp", ""]) source sink edge = .ok s₀ ∧ Respects s₀ c ∧
      s₀.call (opsNamed ["NoOp", ""]) c = .error .checkFailed := by
  constructor
  · obtain ⟨s₀, hConstruct, hSound₀, hNodes₀, hEdges₀⟩ :=
      @construct_ok (opsNamed ["NoOp"]) 0 1 (by decide) 0 _ _ rfl rfl
    obtain ⟨s, hRun, hSound, hNodes, hEdges⟩ :=
      many_edges hSound₀ hNodes₀ hEdges₀ (opsNamed ["NoOp"]) (idLimit - 1) (by decide)
    obtain ⟨fresh, hFresh⟩ := hSound.exists_edgeAddress
    have hSource : some 0 ∈ s.nodes := hNodes ▸ mem_cons_self
    have hSink : some 1 ∈ s.nodes := by simp [hNodes]
    obtain ⟨e, free, _, hAdd⟩ := hSound.addEdge hSource hSink (fun _ => ⟨rfl, rfl⟩) hFresh
    have hBad := link_incoherent hEdges e 0 1 kControlSlot kControlSlot free
    refine ⟨0, 1, 0, s₀, _, by decide, hConstruct, ?_, hBad⟩
    refine .tail (a := .addControlEdge 0 1 fresh) (hRun.mono fun _ _ hAllowed => hAllowed.1)
      ⟨hFresh, hSound.isValidNode_iff.mpr hSource, hSound.isValidNode_iff.mpr hSink⟩ ?_
    rw [step, State.call, State.addControlEdge, map_snd_ok hAdd]
  · obtain ⟨s₀, hConstruct, hSound₀, _⟩ :=
      @construct_ok (opsNamed ["NoOp", ""]) 0 1 (by decide) 0 _ _ rfl rfl
    obtain ⟨fresh, hFresh⟩ := hSound₀.exists_nodeAddress
    refine ⟨0, 1, 0, s₀, .addNode ⟨"n", "", [], "", ⟨[], nodup_nil⟩⟩ none fresh, by decide,
      hConstruct, hFresh, ?_⟩
    exact addNode_unnamed hSound₀ rfl rfl hFresh

end TensorFlowOnSpark.GraphObjects
