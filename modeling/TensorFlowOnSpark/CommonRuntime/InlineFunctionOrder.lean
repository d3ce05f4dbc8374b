import TensorFlowOnSpark.CommonRuntime.InlineFunctionBody
import TensorFlowOnSpark.Lib.Splice

/-!
# What inlining keeps of the order

Control edges of the call are given to the nodes that take the place of its arguments and
of its results.
-/

namespace TensorFlowOnSpark.Construction.Inlining

open Subgraph List Function Option Construction.Graph FunctionBody Nat

section Copy

variable {lookUpOpDef : String → Option Ops.OpDef}
variable {fbody : FunctionBody} {caller : Node} {g : Graph} {done : List Nat} {s s' : State}

/-- The nodes of `done` have been copied. -/
structure Copied (fbody : FunctionBody) (caller : Node) (g : Graph) (done : List Nat) (s : State) :
    Prop where
  size : g.numNodeIds ≤ s.graph.numNodeIds
  old : ∀ i < g.numNodeIds, s.graph.node i = g.node i
  joins : ∀ c u v, Joins s.graph c u v ↔ Joins g c u v
  live : ∀ x ∈ done, s.graph.IsNode (s.nodeMap x) ∧ g.numNodeIds ≤ s.nodeMap x
  injective : ∀ x ∈ done, ∀ y ∈ done, s.nodeMap x = s.nodeMap y → x = y
  copies : ∀ x ∈ done, ∃ node copy, fbody.graph.node x = some node ∧
    s.graph.node (s.nodeMap x) = some copy ∧ copy.nodeDef = copyName caller node.nodeDef

theorem Copied.copyNode (h : Copied fbody caller g done s) {id : Nat} (hNew : id ∉ done)
    (hCopy : copyNode lookUpOpDef fbody caller s id = some s') :
    Copied fbody caller g (done ++ [id]) s' := by
  simp only [Inlining.copyNode, bind_eq_bind, bind_eq_some_iff, some.injEq]
    at hCopy
  obtain ⟨node, hNode, s₁, hAdd, rfl⟩ := hCopy
  obtain ⟨copy, hDef, hGraph, -⟩ := addNode_eq_some hAdd
  have hKeep : ∀ x ∈ done, update s.nodeMap id s.graph.numNodeIds x = s.nodeMap x :=
    fun x hx => update_of_ne (fun hEq : x = id => hNew (hEq ▸ hx)) _ _
  have hSame : ∀ x ∈ done, s₁.graph.node (s.nodeMap x) = s.graph.node (s.nodeMap x) := by
    intro x hx
    rw [hGraph, node_allocateNode_of_lt (h.live x hx).1.lt]
  have hSelf : s₁.graph.node s.graph.numNodeIds = some copy := by
    rw [hGraph, node_allocateNode_self]
  constructor
  · rw [hGraph, allocateNode_numNodeIds]
    exact le_succ_of_le h.size
  · intro i hLt
    rw [hGraph, node_allocateNode_of_lt (lt_of_lt_of_le hLt h.size), h.old i hLt]
  · intro c u v
    rw [hGraph, joins_allocateNode, h.joins]
  · rw [forall_mem_append, forall_mem_singleton]
    constructor
    · intro x hx
      rw [isNode_iff]
      simp only [hKeep x hx, hSame x hx]
      exact h.live x hx
    · rw [isNode_iff]
      simp only [update_self, hSelf]
      exact ⟨rfl, h.size⟩
  · have hLt : ∀ x ∈ done, s.nodeMap x ≠ s.graph.numNodeIds :=
      fun x hx => Nat.ne_of_lt (h.live x hx).1.lt
    simp only [forall_mem_append, forall_mem_singleton, update_self]
    refine ⟨fun x hx => ⟨fun y hy hPlace => ?_, fun hPlace => ?_⟩, fun y hy hPlace => ?_,
      fun _ => trivial⟩
    · rw [hKeep x hx, hKeep y hy] at hPlace
      exact h.injective x hx y hy hPlace
    · rw [hKeep x hx] at hPlace
      exact absurd hPlace (hLt x hx)
    · rw [hKeep y hy] at hPlace
      exact absurd hPlace.symm (hLt y hy)
  · rw [forall_mem_append, forall_mem_singleton]
    constructor
    · intro x hx
      simp only [hKeep x hx, hSame x hx]
      exact h.copies x hx
    · simp only [update_self, hSelf]
      exact ⟨node, copy, hNode, rfl, hDef⟩

theorem Copied.copyNodes {ids : List Nat} (h : Copied fbody caller g done s)
    (hNodup : (done ++ ids).Nodup)
    (hCopy : ids.foldlM (Inlining.copyNode lookUpOpDef fbody caller) s = some s') :
    Copied fbody caller g (done ++ ids) s' := by
  induction ids generalizing s done with
  | nil =>
    obtain rfl := some.inj hCopy
    rw [append_nil]
    exact h
  | cons id ids ih =>
    rw [foldlM_cons, bind_eq_bind, bind_eq_some_iff] at hCopy
    obtain ⟨s₁, hFirst, hRest⟩ := hCopy
    rw [append_cons] at hNodup ⊢
    have hNew : id ∉ done := by
      have hPart := Nodup.of_append_left hNodup
      rw [nodup_append] at hPart
      exact fun hMem => hPart.2.2 id hMem id (mem_singleton_self id) rfl
    exact ih (h.copyNode hNew hFirst) hNodup hRest

def copiedEdge (place : Nat → Nat) (e : Edge) : Edge :=
  ⟨place e.src, e.srcOutput, place e.dst, e.dstInput⟩

theorem foldl_copyEdge (es : List Edge) (s : State) : es.foldl copyEdge s =
    { s with graph := es.foldl (fun g e => g.addEdge (copiedEdge s.nodeMap e)) s.graph } := by
  induction es generalizing s with
  | nil => rfl
  | cons e es ih =>
    rw [foldl_cons, ih]
    rfl

theorem mem_copied {x : Nat} : x ∈ fbody.graph.nodeIds.filter fbody.isOp ↔ fbody.isOp x := by
  rw [mem_filter, mem_nodeIds, and_iff_right_iff_imp]
  exact fun hOp => (of_decide_eq_true hOp).2

theorem copyBody_layout (h : copyBody lookUpOpDef fbody caller s = some s') :
    s.graph.numNodeIds ≤ s'.graph.numNodeIds ∧
      Placed fbody caller s.graph none ∅ s'.nodeMap s'.graph ∧
      Wired fbody s.graph none [] [] ∅ s'.nodeMap s'.graph := by
  simp only [copyBody, bind_eq_bind, bind_eq_some_iff, some.injEq] at h
  obtain ⟨s₁, hNodes, rfl⟩ := h
  have hStart : Copied fbody caller s.graph [] s :=
    ⟨le_refl _, fun _ _ => rfl, fun _ _ _ => Iff.rfl, by simp, by simp, by simp⟩
  have hCopied := hStart.copyNodes ((nodup_range.filter _).filter _) hNodes
  have hMem : ∀ x, fbody.isOp x → x ∈ [] ++ fbody.graph.nodeIds.filter fbody.isOp :=
    fun x hx => mem_copied.mpr hx
  have hEdges : ∀ e ∈ fbody.graph.edges.filter (fun e => fbody.isOp e.src ∧ fbody.isOp e.dst),
      fbody.isOp e.src ∧ fbody.isOp e.dst := by
    intro e he
    exact of_decide_eq_true (mem_filter.mp he).2
  have hLive : ∀ e ∈ fbody.graph.edges.filter (fun e => fbody.isOp e.src ∧ fbody.isOp e.dst),
      s₁.graph.IsNode (copiedEdge s₁.nodeMap e).src ∧
        s₁.graph.IsNode (copiedEdge s₁.nodeMap e).dst := by
    intro e he
    exact ⟨(hCopied.live _ (hMem _ (hEdges e he).1)).1, (hCopied.live _ (hMem _ (hEdges e he).2)).1⟩
  obtain ⟨hNode, hSize, hJoins⟩ := foldl_addEdge hLive
  rw [foldl_copyEdge]
  simp only [hCopied.joins] at hJoins
  refine ⟨le_trans hCopied.size (le_of_eq hSize.symm), ?_, ?_⟩
  · constructor
    · intro i hLt
      exact (hNode i).trans (hCopied.old i hLt)
    · intro x hx
      rw [isNode_iff, hNode]
      exact hCopied.live x (hMem x hx)
    · exact fun x y hx hy => hCopied.injective x (hMem x hx) y (hMem y hy)
    · intro n hn
      cases hn
    · intro x hx _
      simp only [hNode]
      exact hCopied.copies x (hMem x hx)
  · have hGe := fun x hx => (hCopied.live x (hMem x hx)).2
    constructor
    · intro c u v hu hv
      rw [hJoins, or_iff_left]
      rintro ⟨e, he, rfl, -⟩
      exact absurd hu (Nat.not_lt_of_le (hGe _ (hEdges e he).1))
    · intro c x y hx hy
      rw [hJoins]
      constructor
      · rintro (hOld | ⟨e, he, hSrc, hDst, hControl⟩)
        · exact absurd hOld.lt.1 (Nat.not_lt_of_le (hGe x hx))
        · obtain ⟨hSrcOp, hDstOp⟩ := hEdges e he
          have hSrc' := hCopied.injective _ (hMem _ hSrcOp) x (hMem x hx) hSrc
          have hDst' := hCopied.injective _ (hMem _ hDstOp) y (hMem y hy) hDst
          exact ⟨⟨e, (mem_filter.mp he).1, hSrc', hDst', hControl⟩, not_mem_nil,
            not_mem_nil⟩
      · rintro ⟨⟨e, he, rfl, rfl, hControl⟩, -, -⟩
        exact Or.inr ⟨e, mem_filter.mpr ⟨he, decide_eq_true ⟨hx, hy⟩⟩, rfl, rfl, hControl⟩
    · intro c u v h
      rcases (hJoins c u v).mp h with hOld | ⟨e, he, hSrc, hDst, -⟩
      · exact Or.inl hOld.lt
      · exact Or.inr (Or.inl ⟨e.src, e.dst, (hEdges e he).1, (hEdges e he).2, hSrc, hDst⟩)
    · intro n hn
      cases hn
    · exact fun p hp => absurd hp (Set.notMem_empty p)

end Copy

section Inputs

variable {lookUpOpDef : String → Option Ops.OpDef} {stray : List Ops.DataType → Int → Ops.DataType}
variable {fbody : FunctionBody} {caller : Node} {g g' g'' : Graph} {control : Option Nat}
variable {gone : Set Nat} {args rets : List Nat} {before before' : Set Nat} {place : Nat → Nat}

theorem Placed.congr (h : Placed fbody caller g control gone place g')
    (hNode : ∀ i, g''.node i = g'.node i) : Placed fbody caller g control gone place g'' := by
  obtain ⟨hOld, hLive, hInjective, hControl, hCopies⟩ := h
  simp only [isNode_iff, ← hNode] at hOld hLive hControl hCopies
  exact ⟨hOld, hLive, hInjective, hControl, hCopies⟩

theorem Placed.addNode (h : Placed fbody caller g none gone place g')
    (hSize : g.numNodeIds ≤ g'.numNodeIds) (node : Node) :
    Placed fbody caller g (some g'.numNodeIds) gone place (g'.allocateNode node) := by
  have hNode : ∀ i, g'.IsNode i → (g'.allocateNode node).node i = g'.node i :=
    fun i hLive => node_allocateNode_of_lt hLive.lt
  constructor
  · intro i hLt
    rw [node_allocateNode_of_lt (lt_of_lt_of_le hLt hSize), h.old i hLt]
  · exact fun x hx => ⟨isNode_allocateNode (h.live x hx).1, (h.live x hx).2⟩
  · exact h.injective
  · intro n hn
    obtain rfl := some.inj hn
    exact ⟨isNode_allocateNode_self node, hSize, fun x hx => Nat.ne_of_lt (h.live x hx).1.lt⟩
  · intro x hx hGone
    rw [hNode _ (h.live x hx).1]
    exact h.copies x hx hGone

theorem Wired.addNode (h : Wired fbody g none [] [] before place g') (node : Node) :
    Wired fbody g (some g'.numNodeIds) [] [] before place (g'.allocateNode node) := by
  constructor
  · exact h.old
  · exact h.inner
  · intro c u v hJoins
    rcases h.border c u v hJoins with hOut | hIn | ⟨a, ha, -⟩ | ⟨-, hNone⟩
    · exact Or.inl hOut
    · exact Or.inr (Or.inl hIn)
    · cases ha
    · cases hNone
  · intro n _ a ha
    cases ha
  · intro p hp
    obtain ⟨-, n, hNone, -⟩ := h.preceded p hp
    cases hNone

theorem Wired.addControlEdge {n p : Nat} (hPlaced : Placed fbody caller g (some n) gone place g')
    (h : Wired fbody g (some n) [] [] before place g') (hp : p < g.numNodeIds) (hLive : g'.IsNode p)
    (hBefore : ∀ q ∈ before', q ∈ before ∨ q = p) :
    Wired fbody g (some n) [] [] before' place (g'.addControlEdge p n) := by
  obtain ⟨hnLive, hnGe, hnNe⟩ := hPlaced.control_live n rfl
  have hJoins : ∀ c u v, Joins (g'.addControlEdge p n) c u v ↔
      Joins g' c u v ∨ p = u ∧ n = v ∧ true = c := fun c u v => joins_addControlEdge hLive hnLive
  constructor
  · intro c u v hu hv
    rw [hJoins, or_iff_left, h.old c u v hu hv]
    rintro ⟨-, rfl, -⟩
    omega
  · intro c x y hx hy
    rw [hJoins, or_iff_left, h.inner c x y hx hy]
    exact fun hNew => hnNe y hy hNew.2.1.symm
  · intro c u v hNew
    rcases (hJoins c u v).mp hNew with hOld | ⟨rfl, rfl, -⟩
    · exact h.border c u v hOld
    · exact Or.inr (Or.inr (Or.inr ⟨hp, rfl⟩))
  · intro n' _ a ha
    cases ha
  · intro q hq
    rcases hBefore q hq with hq | rfl
    · obtain ⟨hLt, n', hn', hOld⟩ := h.preceded q hq
      exact ⟨hLt, n', hn', (hJoins _ _ _).mpr (Or.inl hOld)⟩
    · exact ⟨hp, n, rfl, (hJoins _ _ _).mpr (Or.inr ⟨rfl, rfl, rfl⟩)⟩

theorem Wired.mono (h : Wired fbody g control args rets before place g')
    (hBefore : ∀ q ∈ before', q ∈ before) : Wired fbody g control args rets before' place g' :=
  ⟨h.old, h.inner, h.border, h.entered, fun p hp => h.preceded p (hBefore p hp)⟩

structure Taking (fbody : FunctionBody) (caller : Node) (g : Graph) (before : Set Nat)
    (inputs : Inputs) : Prop where
  size : g.numNodeIds ≤ inputs.state.graph.numNodeIds
  placed : Placed fbody caller g inputs.control ∅ inputs.state.nodeMap inputs.state.graph
  wired : Wired fbody g inputs.control [] [] before inputs.state.nodeMap inputs.state.graph
  endpoint : ∀ i input, inputs.endpoint i = some input → input.node < g.numNodeIds

theorem controlNode_taking {inputs : Inputs} (h : Taking fbody caller g before inputs)
    {result : State × Nat}
    (hControl : controlNode lookUpOpDef inputs.state inputs.control = some result) :
    Taking fbody caller g before ⟨result.1, some result.2, inputs.endpoint⟩ := by
  obtain ⟨s, control, endpoint⟩ := inputs
  cases control with
  | some n =>
    obtain rfl := some.inj hControl
    exact h
  | none =>
    obtain ⟨s', hAdd, rfl⟩ := map_eq_some_iff.mp hControl
    obtain ⟨node, hGraph, hMap⟩ := addNoOp_eq_some hAdd
    obtain ⟨hSize, hPlaced, hWired, hEndpoint⟩ := h
    constructor
    · rw [hGraph, allocateNode_numNodeIds]
      exact le_succ_of_le hSize
    · rw [hGraph, hMap]
      exact hPlaced.addNode hSize node
    · rw [hGraph, hMap]
      exact hWired.addNode node
    · exact hEndpoint

variable {inputs inputs' : Inputs}

theorem Taking.takeInput (h : Taking fbody caller g before inputs) {e : Edge}
    (hSrc : g.IsNode e.src) (hBefore : ∀ q ∈ before', q ∈ before ∨ e.isControlEdge ∧ q = e.src)
    (hTake : takeInput lookUpOpDef inputs e = some inputs') :
    Taking fbody caller g before' inputs' := by
  unfold Inlining.takeInput at hTake
  split at hTake
  · obtain ⟨⟨s, n⟩, hControl, rfl⟩ := map_eq_some_iff.mp hTake
    obtain ⟨hSize, hPlaced, hWired, hEndpoint⟩ := controlNode_taking h hControl
    have hLive : s.graph.IsNode e.src := by
      rw [isNode_iff]
      exact (hPlaced.old _ hSrc.lt).symm ▸ hSrc
    refine ⟨?_, hPlaced.congr fun i => node_addEdge _ i, ?_, hEndpoint⟩
    · simp only [addControlEdge, addEdge_numNodeIds]
      exact hSize
    · exact hWired.addControlEdge hPlaced hSrc.lt hLive fun q hq =>
        (hBefore q hq).imp_right And.right
  · rename_i hData
    obtain rfl := some.inj hTake
    refine ⟨h.size, h.placed, h.wired.mono fun q hq => ?_, fun i input hInput => ?_⟩
    · exact (hBefore q hq).resolve_right fun hNew => hData hNew.1
    · by_cases hSame : i = e.dstInput
      · simp only [hSame, update_self, some.injEq] at hInput
        rw [← hInput]
        exact hSrc.lt
      · simp only [update_of_ne hSame] at hInput
        exact h.endpoint i input hInput

def sources (es : List Edge) : Set Nat := {p | ∃ e ∈ es, e.isControlEdge ∧ e.src = p}

theorem takeInputs_taking {es done : List Edge} (h : Taking fbody caller g (sources done) inputs)
    (hSrc : ∀ e ∈ es, g.IsNode e.src)
    (hTake : es.foldlM (takeInput lookUpOpDef) inputs = some inputs') :
    Taking fbody caller g (sources (done ++ es)) inputs' := by
  induction es generalizing done inputs with
  | nil =>
    obtain rfl := some.inj hTake
    rw [append_nil]
    exact h
  | cons e es ih =>
    rw [forall_mem_cons] at hSrc
    rw [foldlM_cons, bind_eq_bind, bind_eq_some_iff] at hTake
    obtain ⟨inputs₁, hFirst, hRest⟩ := hTake
    rw [append_cons]
    refine ih (h.takeInput hSrc.1 ?_ hFirst) hSrc.2 hRest
    rintro q ⟨e', hMem, hControl, rfl⟩
    rcases mem_append.mp hMem with hMem | hMem
    · exact Or.inl ⟨e', hMem, hControl, rfl⟩
    · rw [mem_singleton.mp hMem] at hControl ⊢
      exact Or.inr ⟨hControl, rfl⟩

theorem Placed.mono (h : Placed fbody caller g control gone place g') {gone' : Set Nat}
    (hGone : ∀ x ∈ gone, x ∈ gone') : Placed fbody caller g control gone' place g' :=
  ⟨h.old, h.live, h.injective, h.control_live,
    fun x hx hKept => h.copies x hx fun hMem => hKept (hGone x hMem)⟩

theorem Placed.kSinkId_lt (h : Placed fbody caller g control gone place g') {x : Nat}
    (hx : fbody.isOp x) : kSinkId < place x :=
  lt_of_lt_of_le g.kSinkId_lt_numNodeIds (h.live x hx).2

theorem replaceArgs_layout {inputs : Inputs} {ids done : List Nat} {i : Int} {s s' : State}
    (hPlaced : Placed fbody caller g inputs.control {x | x ∈ done} s.nodeMap s.graph)
    (hWired : Wired fbody g inputs.control done [] before s.nodeMap s.graph)
    (hOps : ∀ a ∈ done ++ ids, fbody.isOp a)
    (hEndpoint : ∀ i input, inputs.endpoint i = some input → input.node < g.numNodeIds)
    (h : replaceArgs lookUpOpDef stray inputs i ids s = some s') :
    Placed fbody caller g inputs.control {x | x ∈ done ++ ids} s'.nodeMap s'.graph ∧
      Wired fbody g inputs.control (done ++ ids) [] before s'.nodeMap s'.graph := by
  induction ids generalizing i s done with
  | nil =>
    obtain rfl := some.inj h
    rw [append_nil]
    exact ⟨hPlaced, hWired⟩
  | cons id rest ih =>
    simp only [replaceArgs, bind_eq_bind, bind_eq_some_iff] at h
    obtain ⟨input, hInput, s₁, hFirst, hRest⟩ := h
    rw [append_cons] at hOps ⊢
    have hId := hOps id (by simp)
    obtain ⟨hLive, hGe⟩ := hPlaced.live id hId
    have hInputLt := hEndpoint i input hInput
    have hControl : ∀ n, inputs.control = some n → s.graph.IsNode n ∧ n ≠ s.nodeMap id := by
      intro n hn
      obtain ⟨hnLive, -, hNe⟩ := hPlaced.control_live n hn
      exact ⟨hnLive, (hNe id hId).symm⟩
    obtain ⟨hMap, hReplaced⟩ := replaceArg_replaced (hPlaced.kSinkId_lt hId) hLive hControl
      (by omega) hFirst
    have hDone : ∀ a ∈ done, fbody.isOp a := fun a ha => hOps a (by simp [ha])
    apply ih _ _ hOps hRest
    · rw [hMap]
      refine (hPlaced.replace hId hReplaced).mono fun x hx => ?_
      rcases Set.mem_insert_iff.mp hx with rfl | hx
      · exact mem_append_right _ (mem_singleton_self x)
      · exact mem_append_left _ hx
    · rw [hMap]
      exact hWired.replaceArg hPlaced hId hDone hInputLt hReplaced

theorem replaceRets_layout {ids done outputs outputs' : List Nat} {s s' : State}
    (hPlaced : Placed fbody caller g control {x | x ∈ fbody.argNodes ∨ x ∈ done} place s.graph)
    (hWired : Wired fbody g control fbody.argNodes done before place s.graph)
    (hMap : ∀ x ∉ done, place x = s.nodeMap x) (hOutputs : outputs = done.map place)
    (hNodup : (done ++ ids).Nodup) (hRets : ∀ r ∈ ids, r ∈ fbody.retNodes)
    (hOps : ∀ r ∈ ids, fbody.isOp r ∧ r ∉ fbody.argNodes)
    (hArgs : ∀ a ∈ fbody.argNodes, fbody.isOp a)
    (h : replaceRets lookUpOpDef stray ids s outputs = some (s', outputs')) : ∃ place',
    Placed fbody caller g control {x | x ∈ fbody.argNodes ∨ x ∈ done ++ ids} place' s'.graph ∧
      Wired fbody g control fbody.argNodes (done ++ ids) before place' s'.graph ∧
      (∀ x ∉ done ++ ids, place' x = s'.nodeMap x) ∧ outputs' = (done ++ ids).map place' := by
  induction ids generalizing s done outputs place with
  | nil =>
    obtain ⟨rfl, rfl⟩ := Prod.mk.inj (some.inj h)
    rw [append_nil]
    exact ⟨place, hPlaced, hWired, hMap, hOutputs⟩
  | cons id rest ih =>
    simp only [replaceRets, bind_eq_bind, bind_eq_some_iff] at h
    obtain ⟨s₁, hFirst, hRest⟩ := h
    rw [forall_mem_cons] at hRets hOps
    rw [append_cons] at hNodup ⊢
    have hNew : id ∉ done := by
      have hPart := Nodup.of_append_left hNodup
      rw [nodup_append] at hPart
      exact fun hMem => hPart.2.2 id hMem id (mem_singleton_self id) rfl
    obtain ⟨hLive, -⟩ := hPlaced.live id hOps.1.1
    have hOp := hPlaced.kSinkId_lt hOps.1.1
    rw [hMap id hNew] at hLive hOp
    obtain ⟨hMap₁, src, hData, hReplaced⟩ := replaceRet_replaced hOp hLive hFirst
    rw [← hMap id hNew] at hData hReplaced
    refine @ih (update place id s.graph.numNodeIds) _ _ _ ?_ ?_ ?_ ?_ hNodup hRets.2
      hOps.2 hRest
    · refine (hPlaced.replace hOps.1.1 hReplaced).mono fun x hx => ?_
      rcases Set.mem_insert_iff.mp hx with rfl | hArg | hDone
      · exact Or.inr (mem_append_right _ (mem_singleton_self x))
      · exact Or.inl hArg
      · exact Or.inr (mem_append_left _ hDone)
    · exact hWired.replaceRet hPlaced hOps.1.1 hRets.1 hOps.1.2 hArgs hData hReplaced
    · intro x hx
      rw [mem_append, not_or, mem_singleton] at hx
      rw [update_of_ne hx.2, hMap₁, hMap x hx.1]
    · have hSame : done.map (update place id s.graph.numNodeIds) = done.map place := by
        apply map_congr_left
        intro x hx
        exact update_of_ne (fun hEq : x = id => hNew (hEq ▸ hx)) _ _
      rw [map_append, hSame, hOutputs, map_singleton, update_self]

end Inputs

section Outputs

variable {lookUpOpDef : String → Option Ops.OpDef} {g : Graph} {results : List Nat}
variable {done : List Edge} {s s' : State} {control : Option Nat}

/-- What holds while the edges out of the call are walked over: edges are added that come from the
results and the `output_control_node`. -/
structure Giving (g : Graph) (results : List Nat) (done : List Edge) (s : State)
    (control : Option Nat) : Prop where
  size : g.numNodeIds ≤ s.graph.numNodeIds
  old : ∀ i < g.numNodeIds, s.graph.node i = g.node i
  keeps : ∀ c u v, Joins g c u v → Joins s.graph c u v
  only : ∀ c u v, Joins s.graph c u v → Joins g c u v ∨
    (u ∈ results ∧ ((∃ e ∈ done, e.dst = v) ∨ control = some v)) ∨
    control = some u ∧ ∃ e ∈ done, e.dst = v
  control_live : ∀ n, control = some n → s.graph.IsNode n ∧ g.numNodeIds ≤ n
  after : ∀ n, control = some n → ∀ r ∈ results, Joins s.graph true r n
  gives : ∀ e ∈ done, e.isControlEdge →
    ∃ n, control = some n ∧ Joins s.graph true n e.dst

variable (h : Giving g results done s control)
include h

theorem Giving.live {i : Nat} (hLive : g.IsNode i) : s.graph.IsNode i := by
  rw [isNode_iff, h.old i hLive.lt]
  exact hLive

theorem outputControlNode_giving (hResults : ∀ r ∈ results, g.IsNode r) {n : Nat}
    (hControl : outputControlNode lookUpOpDef results s control = some (s', n)) :
    Giving g results done s' (some n) ∧ s'.nodeMap = s.nodeMap := by
  cases control with
  | some m =>
    obtain ⟨rfl, rfl⟩ := Prod.mk.inj (some.inj hControl)
    exact ⟨h, rfl⟩
  | none =>
    simp only [outputControlNode, bind_eq_bind, bind_eq_some_iff] at hControl
    obtain ⟨s₁, hAdd, rfl, rfl⟩ := hControl
    obtain ⟨node, hGraph, hMap⟩ := addNoOp_eq_some hAdd
    have hLive : ∀ r ∈ results, s₁.graph.IsNode r ∧ s₁.graph.IsNode s.graph.numNodeIds := by
      intro r hr
      rw [hGraph]
      exact ⟨isNode_allocateNode (h.live (hResults r hr)), isNode_allocateNode_self node⟩
    obtain ⟨hNode, hSize, hJoins⟩ :=
      foldl_addEdge (f := fun id => ⟨id, kControlSlot, s.graph.numNodeIds, kControlSlot⟩) hLive
    have hJoins₁ : ∀ c u v, Joins s₁.graph c u v ↔ Joins s.graph c u v := by
      intro c u v
      rw [hGraph, joins_allocateNode]
    refine ⟨⟨?_, ?_, ?_, ?_, ?_, ?_, ?_⟩, hMap⟩
    · refine le_trans h.size (le_trans ?_ (le_of_eq hSize.symm))
      rw [hGraph, allocateNode_numNodeIds]
      exact le_succ _
    · intro i hLt
      rw [← h.old i hLt]
      refine (hNode i).trans ?_
      rw [hGraph, node_allocateNode_of_lt (lt_of_lt_of_le hLt h.size)]
    · exact fun c u v hOld => (hJoins c u v).mpr (Or.inl ((hJoins₁ c u v).mpr (h.keeps c u v hOld)))
    · intro c u v hNew
      rcases (hJoins c u v).mp hNew with hOld | ⟨r, hr, rfl, rfl, -⟩
      · rcases h.only c u v ((hJoins₁ c u v).mp hOld) with hOld | ⟨hu, hv | hNone⟩ | ⟨hNone, -⟩
        · exact Or.inl hOld
        · exact Or.inr (Or.inl ⟨hu, Or.inl hv⟩)
        · cases hNone
        · cases hNone
      · exact Or.inr (Or.inl ⟨hr, Or.inr rfl⟩)
    · intro m hm
      obtain rfl := some.inj hm
      refine ⟨?_, h.size⟩
      refine (congrArg isSome (hNode _)).trans ?_
      rw [hGraph]
      exact isNode_allocateNode_self node
    · intro m hm r hr
      obtain rfl := some.inj hm
      exact (hJoins _ _ _).mpr (Or.inr ⟨r, hr, rfl, rfl, rfl⟩)
    · intro e he hControl
      obtain ⟨m, hNone, -⟩ := h.gives e he hControl
      cases hNone

theorem Giving.giveOutput {control' : Option Nat}
    (hResults : ∀ r ∈ results, g.IsNode r) {e : Edge} (hDst : g.IsNode e.dst)
    (hGive : giveOutput lookUpOpDef results (s, control) e = some (s', control')) :
    Giving g results (done ++ [e]) s' control' ∧ s'.nodeMap = s.nodeMap := by
  have hDone : ∀ v, (∃ e' ∈ done, e'.dst = v) → ∃ e' ∈ done ++ [e], e'.dst = v := by
    rintro v ⟨e', hMem, hEq⟩
    exact ⟨e', mem_append_left _ hMem, hEq⟩
  have hLast : ∃ e' ∈ done ++ [e], e'.dst = e.dst :=
    ⟨e, mem_append_right _ (mem_singleton_self e), rfl⟩
  unfold Inlining.giveOutput at hGive
  split at hGive
  · obtain ⟨⟨s₁, n⟩, hControl, hResult⟩ := map_eq_some_iff.mp hGive
    obtain ⟨rfl, rfl⟩ := Prod.mk.inj hResult
    obtain ⟨h₁, hMap⟩ := outputControlNode_giving h hResults hControl
    obtain ⟨hnLive, hnGe⟩ := h₁.control_live n rfl
    have hJoins : ∀ c u v, Joins (s₁.graph.addControlEdge n e.dst) c u v ↔
        Joins s₁.graph c u v ∨ n = u ∧ e.dst = v ∧ true = c :=
      fun c u v => joins_addControlEdge hnLive (h₁.live hDst)
    refine ⟨⟨?_, ?_, ?_, ?_, ?_, ?_, ?_⟩, hMap⟩
    · simp only [addControlEdge, addEdge_numNodeIds]
      exact h₁.size
    · exact fun i hLt => (node_addEdge _ i).trans (h₁.old i hLt)
    · exact fun c u v hOld => (hJoins c u v).mpr (Or.inl (h₁.keeps c u v hOld))
    · intro c u v hNew
      rcases (hJoins c u v).mp hNew with hOld | ⟨rfl, rfl, -⟩
      · rcases h₁.only c u v hOld with hOld | ⟨hu, hv⟩ | ⟨hu, hv⟩
        · exact Or.inl hOld
        · exact Or.inr (Or.inl ⟨hu, hv.imp_left (hDone v)⟩)
        · exact Or.inr (Or.inr ⟨hu, hDone v hv⟩)
      · exact Or.inr (Or.inr ⟨rfl, hLast⟩)
    · intro m hm
      obtain ⟨hmLive, hmGe⟩ := h₁.control_live m hm
      exact ⟨isNode_addEdge.mpr hmLive, hmGe⟩
    · exact fun m hm r hr => (hJoins _ _ _).mpr (Or.inl (h₁.after m hm r hr))
    · intro e' he' hControl'
      rcases mem_append.mp he' with he' | he'
      · obtain ⟨m, hm, hOld⟩ := h₁.gives e' he' hControl'
        exact ⟨m, hm, (hJoins _ _ _).mpr (Or.inl hOld)⟩
      · rw [mem_singleton.mp he']
        exact ⟨n, rfl, (hJoins _ _ _).mpr (Or.inr ⟨rfl, rfl, rfl⟩)⟩
  · rename_i hData
    obtain ⟨n, hn, hResult⟩ := map_eq_some_iff.mp hGive
    obtain ⟨rfl, rfl⟩ := Prod.mk.inj hResult
    have hIn : n ∈ results := by
      split at hn
      · exact mem_of_getElem? hn
      · cases hn
    have hJoins : ∀ c u v, Joins (s.graph.addEdge ⟨n, 0, e.dst, e.dstInput⟩) c u v ↔
        Joins s.graph c u v ∨ n = u ∧ e.dst = v ∧ false = c :=
      fun c u v => joins_addEdge (h.live (hResults n hIn)) (h.live hDst)
    refine ⟨⟨?_, ?_, ?_, ?_, ?_, ?_, ?_⟩, rfl⟩
    · simp only [addEdge_numNodeIds]
      exact h.size
    · exact fun i hLt => (node_addEdge _ i).trans (h.old i hLt)
    · exact fun c u v hOld => (hJoins c u v).mpr (Or.inl (h.keeps c u v hOld))
    · intro c u v hNew
      rcases (hJoins c u v).mp hNew with hOld | ⟨rfl, rfl, -⟩
      · rcases h.only c u v hOld with hOld | ⟨hu, hv⟩ | ⟨hu, hv⟩
        · exact Or.inl hOld
        · exact Or.inr (Or.inl ⟨hu, hv.imp_left (hDone v)⟩)
        · exact Or.inr (Or.inr ⟨hu, hDone v hv⟩)
      · exact Or.inr (Or.inl ⟨hIn, Or.inl hLast⟩)
    · intro m hm
      obtain ⟨hmLive, hmGe⟩ := h.control_live m hm
      exact ⟨isNode_addEdge.mpr hmLive, hmGe⟩
    · exact fun m hm r hr => (hJoins _ _ _).mpr (Or.inl (h.after m hm r hr))
    · intro e' he' hControl'
      rcases mem_append.mp he' with he' | he'
      · obtain ⟨m, hm, hOld⟩ := h.gives e' he' hControl'
        exact ⟨m, hm, (hJoins _ _ _).mpr (Or.inl hOld)⟩
      · rw [mem_singleton.mp he'] at hControl'
        exact absurd hControl' hData

theorem giveOutputs_giving {es : List Edge} {result : State × Option Nat}
    (hResults : ∀ r ∈ results, g.IsNode r)
    (hDst : ∀ e ∈ es, g.IsNode e.dst)
    (hGive : es.foldlM (giveOutput lookUpOpDef results) (s, control) = some result) :
    Giving g results (done ++ es) result.1 result.2 ∧ result.1.nodeMap = s.nodeMap := by
  induction es generalizing done s control with
  | nil =>
    obtain rfl := some.inj hGive
    rw [append_nil]
    exact ⟨h, rfl⟩
  | cons e es ih =>
    rw [forall_mem_cons] at hDst
    rw [foldlM_cons, bind_eq_bind, bind_eq_some_iff] at hGive
    obtain ⟨⟨s₁, control₁⟩, hFirst, hRest⟩ := hGive
    obtain ⟨h₁, hMap⟩ := h.giveOutput hResults hDst.1 hFirst
    obtain ⟨hAll, hMap'⟩ := ih h₁ hDst.2 hRest
    rw [append_cons]
    exact ⟨hAll, hMap'.trans hMap⟩

end Outputs

variable {u v : Nat}

section Order

open Relation (ReflTransGen)

def FunctionBody.Op (fbody : FunctionBody) : Type := {id : Nat // fbody.isOp id}

def FunctionBody.Step (fbody : FunctionBody) (x y : fbody.Op) : Prop :=
  y.1 ∉ fbody.argNodes ∧ x.1 ∉ fbody.retNodes ∧
    ∃ e ∈ fbody.graph.edges, e.src = x.1 ∧ e.dst = y.1

def FunctionBody.Leads (fbody : FunctionBody) : fbody.Op → fbody.Op → Prop :=
    ReflTransGen fbody.Step

def Adjacent (g : Graph) (u v : Nat) : Prop := ∃ e ∈ g.edges, e.src = u ∧ e.dst = v

def Reaches (g : Graph) : Nat → Nat → Prop := ReflTransGen (Adjacent g)

theorem adjacent_iff {g : Graph} : Adjacent g u v ↔ ∃ c, Joins g c u v := by
  constructor
  · rintro ⟨e, hMem, hSrc, hDst⟩
    exact ⟨e.isControlEdge, e, hMem, hSrc, hDst, rfl⟩
  · rintro ⟨c, e, hMem, hSrc, hDst, -⟩
    exact ⟨e, hMem, hSrc, hDst⟩

variable {lookUpOpDef : String → Option Ops.OpDef} {stray : List Ops.DataType → Int → Ops.DataType}
variable {fbody : FunctionBody} {caller : Node} {g g' : Graph} {control control' : Option Nat}
variable {gone : Set Nat} {before : Set Nat} {place : Nat → Nat} {s s' : State}

theorem FunctionBody.isOp_of_arg {a : Nat} (ha : a ∈ fbody.argNodes) : fbody.isOp a := by
  obtain ⟨hOp, node, hNode, -⟩ := fbody.argNodes_op a ha
  exact decide_eq_true ⟨hOp, isNode_of_node hNode⟩

theorem FunctionBody.isOp_of_ret {r : Nat} (hr : r ∈ fbody.retNodes) : fbody.isOp r := by
  obtain ⟨hOp, node, hNode, -⟩ := fbody.retNodes_op r hr
  exact decide_eq_true ⟨hOp, isNode_of_node hNode⟩

theorem FunctionBody.not_arg_of_ret {r : Nat} (hr : r ∈ fbody.retNodes) : r ∉ fbody.argNodes := by
  intro ha
  obtain ⟨-, node, hNode, hArg⟩ := fbody.argNodes_op r ha
  obtain ⟨-, node', hNode', hRet⟩ := fbody.retNodes_op r hr
  obtain rfl := some.inj (hNode.symm.trans hNode')
  rw [hArg] at hRet
  exact absurd hRet (by decide)

section Splice

variable (hPlaced : Placed fbody caller g control gone place g')
  (hWired : Wired fbody g control fbody.argNodes fbody.retNodes before place g')
  {outs : List Edge} {id : Nat} (hOp : kSinkId < id) (hId : id < g.numNodeIds)
  (hOuts : ∀ e ∈ outs, e ∈ g'.edges ∧ e.src = id)
  (hGiving : Giving g' (fbody.retNodes.map place) outs s control')
include hPlaced hWired hId hOuts

theorem arg_of_output {e : Edge} (he : e ∈ outs) {y : Nat} (hy : fbody.isOp y)
    (hDst : e.dst = place y) : y ∈ fbody.argNodes := by
  obtain ⟨hMem, hSrc⟩ := hOuts e he
  obtain ⟨-, hGe⟩ := hPlaced.live y hy
  rcases hWired.border e.isControlEdge id (place y) ⟨e, hMem, hSrc, hDst, rfl⟩ with
    hOut | ⟨x, -, hx, -, hxId, -⟩ | ⟨a, ha, hEq, -⟩ | hIn
  · omega
  · have hxGe := (hPlaced.live x hx).2
    omega
  · exact hPlaced.injective a y (isOp_of_arg ha) hy hEq ▸ ha
  · exact absurd rfl ((hPlaced.control_live _ hIn.2).2.2 y hy)

include hGiving hOp

theorem splice : Splice (Adjacent (s.graph.removeNode id)) fbody.Step {a | a.1 ∈ fbody.argNodes}
    {r | r.1 ∈ fbody.retNodes} fun x : fbody.Op => place x.1 := by
  have hAdjacent : ∀ u v, Adjacent (s.graph.removeNode id) u v →
      u ≠ id ∧ v ≠ id ∧ ∃ c, Joins s.graph c u v := by
    intro u v h
    obtain ⟨c, hJoins⟩ := adjacent_iff.mp h
    rw [joins_removeNode hOp] at hJoins
    exact ⟨hJoins.2.1, hJoins.2.2, c, hJoins.1⟩
  have hNotControl : ∀ (x : fbody.Op) n, control' = some n → place x.1 ≠ n := by
    intro x n hn
    have hLt := (hPlaced.live x.1 x.2).1.lt
    have hGe := (hGiving.control_live n hn).2
    omega
  have hResult : ∀ x : fbody.Op, place x.1 ∈ fbody.retNodes.map place → x.1 ∈ fbody.retNodes := by
    intro x hx
    obtain ⟨r, hr, hEq⟩ := mem_map.mp hx
    exact hPlaced.injective r x.1 (isOp_of_ret hr) x.2 hEq ▸ hr
  have hGe : ∀ x : fbody.Op, g.numNodeIds ≤ place x.1 := fun x => (hPlaced.live x.1 x.2).2
  constructor
  · rintro x y ⟨hArg, hRet, e, hMem, hSrc, hDst⟩
    apply adjacent_iff.mpr
    refine ⟨e.isControlEdge, (joins_removeNode hOp).mpr ⟨hGiving.keeps _ _ _ ?_, ?_, ?_⟩⟩
    · exact (hWired.inner _ x.1 y.1 x.2 y.2).mpr ⟨⟨e, hMem, hSrc, hDst, rfl⟩, hArg, hRet⟩
    · exact ne_of_gt (lt_of_lt_of_le hId (hGe x))
    · exact ne_of_gt (lt_of_lt_of_le hId (hGe y))
  · intro x y h
    obtain ⟨-, -, c, hJoins⟩ := hAdjacent _ _ h
    rcases hGiving.only c _ _ hJoins with hOld | ⟨hRet, ⟨e, he, hDst⟩ | hNew⟩ | ⟨hNew, -⟩
    · obtain ⟨⟨e, hMem, hSrc, hDst, -⟩, hArg, hRet⟩ :=
        (hWired.inner c x.1 y.1 x.2 y.2).mp hOld
      exact Or.inl ⟨hArg, hRet, e, hMem, hSrc, hDst⟩
    · exact Or.inr ⟨hResult x hRet, arg_of_output hPlaced hWired hId hOuts he y.2 hDst⟩
    · exact absurd rfl (hNotControl y _ hNew)
    · exact absurd rfl (hNotControl x _ hNew)
  · intro n y hOut h
    obtain ⟨-, -, c, hJoins⟩ := hAdjacent _ _ h
    rcases hGiving.only c _ _ hJoins with hOld | ⟨-, ⟨e, he, hDst⟩ | hNew⟩ | ⟨-, e, he, hDst⟩
    · have hyGe := hGe y
      rcases hWired.border c _ _ hOld with hLt | ⟨x, -, hx, -, rfl, -⟩ | ⟨a, ha, hEq, -⟩ | hIn
      · omega
      · exact absurd ⟨⟨x, hx⟩, rfl⟩ hOut
      · have hSame := hPlaced.injective a y.1 (isOp_of_arg ha) y.2 hEq
        change y.1 ∈ fbody.argNodes
        exact hSame ▸ ha
      · exact absurd rfl ((hPlaced.control_live _ hIn.2).2.2 y.1 y.2)
    · exact arg_of_output hPlaced hWired hId hOuts he y.2 hDst
    · exact absurd rfl (hNotControl y _ hNew)
    · exact arg_of_output hPlaced hWired hId hOuts he y.2 hDst
  · intro x n hOut h
    obtain ⟨-, -, c, hJoins⟩ := hAdjacent _ _ h
    rcases hGiving.only c _ _ hJoins with hOld | ⟨hRet, -⟩ | ⟨hNew, -⟩
    · have hxGe := hGe x
      rcases hWired.border c _ _ hOld with hLt | ⟨-, y, -, hy, -, rfl⟩ | ⟨a, ha, rfl, -⟩ | hIn
      · omega
      · exact absurd ⟨⟨y, hy⟩, rfl⟩ hOut
      · exact absurd ⟨⟨a, isOp_of_arg ha⟩, rfl⟩ hOut
      · omega
    · exact hResult x hRet
    · exact absurd rfl (hNotControl x _ hNew)

end Splice

/-- A node of the body is ordered after the call's control inputs by the arguments alone, and before
its control outputs by the results alone. -/
theorem inlineFunctionBody_order (fbody : FunctionBody) {id : Nat} {caller : Node}
    (hCaller : s.graph.node id = some caller) (hOp : kSinkId < id)
    (hValid : validateInlining caller fbody)
    (hInlined : inlineFunctionBody lookUpOpDef stray fbody id s = some s') (x : fbody.Op)
    (hArg : x.1 ∉ fbody.argNodes) (hRet : x.1 ∉ fbody.retNodes) :
    (∃ node copy, fbody.graph.node x.1 = some node ∧ s'.graph.node (s'.nodeMap x.1) = some copy ∧
      copy.nodeDef = copyName caller node.nodeDef) ∧
    (∀ p, p ≠ id → Joins s.graph true p id → (Reaches s'.graph p (s'.nodeMap x.1) ↔
      ∃ a : fbody.Op, a.1 ∈ fbody.argNodes ∧ fbody.Leads a x)) ∧
    ∀ q, q ≠ id → Joins s.graph true id q → (Reaches s'.graph (s'.nodeMap x.1) q ↔
      ∃ r : fbody.Op, r.1 ∈ fbody.retNodes ∧ fbody.Leads x r) := by
  have hId : id < s.graph.numNodeIds := (isNode_of_node hCaller).lt
  simp only [inlineFunctionBody, hCaller, bind_eq_bind, bind_some, if_pos hValid,
    inlineBody, bind_eq_some_iff, Prod.exists, some.injEq] at hInlined
  obtain ⟨s₁, hCopy, inputs, hTake, s₂, hReplaceArgs, s₃, outputs, hReplaceRets, result, control',
    hGive, rfl⟩ := hInlined
  obtain ⟨hSize, hPlaced₁, hWired₁⟩ := copyBody_layout hCopy
  have hSrc : ∀ e ∈ s₁.graph.inEdges id, s.graph.IsNode e.src := by
    intro e he
    obtain ⟨hMem, hDst⟩ := mem_inEdges.mp he
    have hJoins : Joins s₁.graph e.isControlEdge e.src id := ⟨e, hMem, rfl, hDst, rfl⟩
    rcases hWired₁.border _ _ _ hJoins with hOut | ⟨-, y, -, hy, -, hEq⟩ | ⟨a, ha, -⟩ | ⟨-, hNone⟩
    · exact ((hWired₁.old _ _ _ hOut.1 hOut.2).mp hJoins).live.1
    · have hGe := (hPlaced₁.live y hy).2
      omega
    · cases ha
    · cases hNone
  have hStart : Taking fbody caller s.graph (sources []) ⟨s₁, none, fun _ => none⟩ :=
    ⟨hSize, hPlaced₁, hWired₁.mono (by simp [sources]), by simp⟩
  obtain ⟨-, hPlaced, hWired, hEndpoint⟩ := takeInputs_taking hStart hSrc hTake
  obtain ⟨hPlaced₂, hWired₂⟩ := replaceArgs_layout (hPlaced.mono (by simp)) hWired
    (fun a ha => isOp_of_arg ha) hEndpoint hReplaceArgs
  obtain ⟨place, hPlaced₃, hWired₃, hMap, rfl⟩ := replaceRets_layout
    (hPlaced₂.mono fun x hx => Or.inl hx) hWired₂ (fun _ _ => rfl) rfl fbody.retNodes_nodup
    (fun _ hr => hr) (fun r hr => ⟨isOp_of_ret hr, not_arg_of_ret hr⟩)
    (fun a ha => isOp_of_arg ha) hReplaceRets
  have hResults : ∀ r ∈ fbody.retNodes.map place, s₃.graph.IsNode r := by
    intro r hr
    obtain ⟨r', hr', rfl⟩ := mem_map.mp hr
    exact (hPlaced₃.live r' (isOp_of_ret hr')).1
  have hNone : Giving s₃.graph (fbody.retNodes.map place) [] s₃ none :=
    ⟨le_refl _, fun _ _ => rfl, fun _ _ _ h => h, fun _ _ _ h =>
      Or.inl h, by simp, by simp, by simp⟩
  obtain ⟨hGiving, hMap'⟩ := giveOutputs_giving hNone hResults
    (fun e he => (s₃.graph.ends_live e (mem_outEdges.mp he).1).2) hGive
  have hOuts : ∀ e ∈ [] ++ s₃.graph.outEdges id, e ∈ s₃.graph.edges ∧ e.src = id :=
    fun e he => mem_outEdges.mp he
  have hSplice := splice hPlaced₃ hWired₃ hOp hId hOuts hGiving
  have hPlace : result.nodeMap x.1 = place x.1 := by rw [hMap', hMap x.1 hRet]
  have hGe : ∀ y : fbody.Op, s.graph.numNodeIds ≤ place y.1 := fun y => (hPlaced₃.live y.1 y.2).2
  have hOutside : ∀ n, n < s.graph.numNodeIds → n ∉ Set.range fun y : fbody.Op => place y.1 := by
    rintro n hLt ⟨y, rfl⟩
    exact absurd hLt (Nat.not_lt_of_le (hGe y))
  have hStep : ∀ c u v, Joins s₃.graph c u v → u ≠ id → v ≠ id →
      Adjacent (result.graph.removeNode id) u v := by
    intro c u v hJoins hu hv
    exact adjacent_iff.mpr ⟨c, (joins_removeNode hOp).mpr ⟨hGiving.keeps c u v hJoins, hu, hv⟩⟩
  simp only [hPlace]
  refine ⟨?_, fun p hp hBefore => ?_, fun q hq hAfter => ?_⟩
  · obtain ⟨node, copy, hNode, hCopy, hDef⟩ := hPlaced₃.copies x.1 x.2 (by simp [hArg, hRet])
    refine ⟨node, copy, hNode, ?_, hDef⟩
    rw [removeNode_node hOp, if_neg (Nat.ne_of_lt (lt_of_lt_of_le hId (hGe x))),
      hGiving.old _ (hPlaced₃.live x.1 x.2).1.lt, hCopy]
  · have hSource : p ∈ sources ([] ++ s₁.graph.inEdges id) := by
      obtain ⟨e, hMem, hSrc, hDst, hControl⟩ := (hWired₁.old true p id hBefore.lt.1 hId).mpr hBefore
      exact ⟨e, mem_inEdges.mpr ⟨hMem, hDst⟩, hControl, hSrc⟩
    obtain ⟨hLt, n, hn, hFirst⟩ := hWired₃.preceded p hSource
    obtain ⟨-, hnGe, -⟩ := hPlaced₃.control_live n hn
    refine hSplice.reached_iff (hOutside p hLt) fun a ha => ?_
    have hnId : n ≠ id := ne_of_gt (lt_of_lt_of_le hId hnGe)
    have haId : place a.1 ≠ id := ne_of_gt (lt_of_lt_of_le hId (hGe a))
    exact (ReflTransGen.single (hStep _ _ _ hFirst hp hnId)).tail
      (hStep _ _ _ (hWired₃.entered n hn a.1 ha) hnId haId)
  · obtain ⟨e, hMem, hSrc, rfl, hControl⟩ := (hWired₃.old true id q hId hAfter.lt.2).mpr hAfter
    obtain ⟨n, hn, hLast⟩ := hGiving.gives e (mem_outEdges.mpr ⟨hMem, hSrc⟩) hControl
    have hnGe := (hGiving.control_live n hn).2
    have hnId : n ≠ id := by
      have hLt := (hPlaced₃.live x.1 x.2).1.lt
      have hxGe := hGe x
      omega
    refine hSplice.reaches_iff (hOutside _ hAfter.lt.2) fun r hr => ?_
    have hrId : place r.1 ≠ id := ne_of_gt (lt_of_lt_of_le hId (hGe r))
    have hResult := hGiving.after n hn (place r.1) (mem_map_of_mem hr)
    have hToControl : Adjacent (result.graph.removeNode id) (place r.1) n :=
      adjacent_iff.mpr ⟨true, (joins_removeNode hOp).mpr ⟨hResult, hrId, hnId⟩⟩
    have hFromControl : Adjacent (result.graph.removeNode id) n e.dst :=
      adjacent_iff.mpr ⟨true, (joins_removeNode hOp).mpr ⟨hLast, hnId, hq⟩⟩
    exact (ReflTransGen.single hToControl).tail hFromControl

end Order

section Abort

def typedArg (name : String) : Ops.ArgDef := ⟨name, Ops.dtInvalid, "T", "", "", false⟩

def indexAttr : Ops.AttrDef := ⟨"index", "int", none, true, 0, none⟩

def abortOps : List Ops.OpDef :=
  [⟨"NoOp", [], [], []⟩,
    ⟨"Abort", [], [], [⟨"error_msg", "string", some (.s []), false, 0, none⟩]⟩,
    ⟨"Identity", [typedArg "input"], [typedArg "output"], [plainAttr "T" "type"]⟩,
    ⟨"_Arg", [], [typedArg "output"], [plainAttr "T" "type", indexAttr]⟩,
    ⟨"_Retval", [typedArg "input"], [], [plainAttr "T" "type", indexAttr]⟩]

def abortLookUp (op : String) : Option Ops.OpDef := abortOps.find? fun opDef => opDef.name = op

def floatNode (name op : String) (inputs outputs : List Ops.DataType) : Node :=
  ⟨⟨name, op, [], "", ⟨[("T", .type 1), ("index", .i 0)], by simp⟩⟩, ⟨op, [], [], []⟩, inputs,
    outputs, ""⟩

def controlEdge (src dst : Nat) : Edge := ⟨src, kControlSlot, dst, kControlSlot⟩

def graphOf (nodes : List Node) (edges : List Edge) : Graph :=
  edges.foldl addEdge (nodes.foldl allocateNode new)

/-- A function that gives its argument, and aborts. -/
def abortBody : FunctionBody where
  graph := graphOf [floatNode "x" "_Arg" [] [1], floatNode "y" "Identity" [1] [1],
      floatNode "y_RetVal" "_Retval" [1] [], floatNode "abort" "Abort" [] []]
    [controlEdge 0 2, ⟨2, 0, 3, 0⟩, ⟨3, 0, 4, 0⟩, controlEdge 4 1, controlEdge 0 5, controlEdge 5 1]
  argTypes := [1]
  retTypes := [1]
  argNodes := [2]
  retNodes := [4]
  argNodes_op := by
    rw [forall_mem_singleton]
    exact ⟨by decide, _, rfl, rfl⟩
  retNodes_op := by
    rw [forall_mem_singleton]
    exact ⟨by decide, _, rfl, rfl⟩
  argNodes_nodup := nodup_singleton 2
  retNodes_nodup := nodup_singleton 4
  retNodes_input := by decide +kernel

def callState : State where
  graph := graphOf [floatNode "before" "NoOp" [] [], floatNode "a" "Const" [] [1],
      floatNode "call" "F" [1] [1], floatNode "after" "NoOp" [] []]
    [controlEdge 2 4, ⟨3, 0, 4, 0⟩, controlEdge 4 5]
  nameCounter := 0
  nodeMap := fun _ => 0

def inlinedCall : Option State :=
  inlineFunctionBody abortLookUp (fun _ _ => Ops.dtInvalid) abortBody 4 callState

theorem joins_control {g : Graph} (h : controlEdge u v ∈ g.edges) : Joins g true u v :=
  ⟨controlEdge u v, h, rfl, rfl, rfl⟩

theorem not_reaches_of_no_input {g : Graph} (hNe : u ≠ v) (h : ∀ e ∈ g.edges, e.dst ≠ v) :
    ¬Reaches g u v := by
  intro hReach
  rcases hReach.cases_tail with hSame | ⟨w, -, e, hMem, -, hDst⟩
  · exact hNe hSame.symm
  · exact h e hMem hDst

theorem not_reaches_of_no_output {g : Graph} (hNe : u ≠ v) (h : ∀ e ∈ g.edges, e.src ≠ u) :
    ¬Reaches g u v := by
  intro hReach
  rcases hReach.cases_head with hSame | ⟨w, ⟨e, hMem, hSrc, -⟩, -⟩
  · exact hNe hSame
  · exact h e hMem hSrc

theorem inlinedCall_order : ∃ s', inlinedCall = some s' ∧
    Reaches s'.graph 2 (s'.nodeMap 3) ∧ Reaches s'.graph (s'.nodeMap 3) 5 := by
  have hSome : inlinedCall.isSome := by decide +kernel
  obtain ⟨s', hInlined⟩ := isSome_iff_exists.mp hSome
  have hLeads : abortBody.Leads ⟨2, by decide +kernel⟩ ⟨3, by decide +kernel⟩ ∧
      abortBody.Leads ⟨3, by decide +kernel⟩ ⟨4, by decide +kernel⟩ := by
    constructor
    · exact Relation.ReflTransGen.single ⟨by decide, by decide,
        ⟨2, 0, 3, 0⟩, by decide +kernel, rfl, rfl⟩
    · exact Relation.ReflTransGen.single ⟨by decide, by decide,
        ⟨3, 0, 4, 0⟩, by decide +kernel, rfl, rfl⟩
  obtain ⟨-, hBefore, hAfter⟩ := inlineFunctionBody_order abortBody
    rfl (by decide) (by decide +kernel) hInlined ⟨3, by decide +kernel⟩ (by decide) (by decide)
  refine ⟨s', hInlined, ?_, ?_⟩
  · apply (hBefore 2 (by decide) (joins_control (by decide +kernel))).mpr
    exact ⟨_, mem_singleton_self 2, hLeads.1⟩
  · apply (hAfter 5 (by decide) (joins_control (by decide +kernel))).mpr
    exact ⟨_, mem_singleton_self 4, hLeads.2⟩

/-- The copy of `abort` is not ordered, although it leads to the sink of the body. -/
theorem inlinedCall_abort : Joins callState.graph true 2 4 ∧ Joins callState.graph true 4 5 ∧
    Reaches abortBody.graph 5 kSinkId ∧ ∃ s', inlinedCall = some s' ∧
      (∃ copy, s'.graph.node (s'.nodeMap 5) = some copy ∧ copy.nodeDef.name = "call/abort") ∧
      ¬Reaches s'.graph 2 (s'.nodeMap 5) ∧ ¬Reaches s'.graph (s'.nodeMap 5) 5 := by
  refine ⟨joins_control (by decide +kernel), joins_control (by decide +kernel),
    Relation.ReflTransGen.single ⟨controlEdge 5 1, by decide +kernel, rfl, rfl⟩, ?_⟩
  have hSome : (inlinedCall.any fun s => s.nodeMap 5 = 9 ∧
      (s.graph.node 9).any (fun copy => copy.nodeDef.name = "call/abort") ∧
      s.graph.edges.all fun e => e.src ≠ 9 ∧ e.dst ≠ 9) := by decide +kernel
  cases hInlined : inlinedCall with
  | none =>
    rw [hInlined] at hSome
    cases hSome
  | some s' =>
    rw [hInlined, any_some, decide_eq_true_eq] at hSome
    obtain ⟨hMap, hNode, hEdges⟩ := hSome
    have hApart : ∀ e ∈ s'.graph.edges, e.src ≠ 9 ∧ e.dst ≠ 9 :=
      fun e he => of_decide_eq_true (all_eq_true.mp hEdges e he)
    rw [Option.any_eq_true] at hNode
    obtain ⟨copy, hCopy, hName⟩ := hNode
    rw [hMap.symm] at hCopy
    refine ⟨s', rfl, ⟨copy, hCopy, of_decide_eq_true hName⟩, ?_, ?_⟩
    · rw [hMap]
      exact not_reaches_of_no_input (by decide) fun e he => (hApart e he).2
    · rw [hMap]
      exact not_reaches_of_no_output (by decide) fun e he => (hApart e he).1

end Abort

end TensorFlowOnSpark.Construction.Inlining
