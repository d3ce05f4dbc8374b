import TensorFlowOnSpark.Framework.OpDefCompatible
import TensorFlowOnSpark.Graph.Subgraph

/-!
# Where fed values go

Each feed redirects the consumers of its tensor to a new node.
-/

namespace TensorFlowOnSpark.Construction.Subgraph

open List Function Option Construction.Graph Nat Bool Int

variable {e : Edge} {m : Redirect}

section Redirects

open Construction.Graph (Redirect)

def follow (ms : List Redirect) (e : Edge) : Edge := ms.foldl (fun e m => m.apply e) e

theorem takes_iff : m.takes e ↔
    e.src = m.node ∧ (e.srcOutput = m.index ∨ e.srcOutput = kControlSlot ∧ m.placeholder) := by
  simp [Redirect.takes]

theorem apply_of_takes (h : m.takes e) : (m.apply e).src = m.recv := by
  rw [Redirect.apply, if_pos h]
  exact (m.edge_ends e).1

theorem apply_dst (m : Redirect) (e : Edge) : (m.apply e).dst = e.dst := by
  unfold Redirect.apply
  split
  · exact (m.edge_ends e).2
  · rfl

theorem follow_append (ms ms' : List Redirect) (e : Edge) :
    follow (ms ++ ms') e = follow ms' (follow ms e) := foldl_append ..

theorem follow_dst (ms : List Redirect) (e : Edge) : (follow ms e).dst = e.dst := by
  induction ms generalizing e with
  | nil => rfl
  | cons m ms ih => exact (ih (m.apply e)).trans (apply_dst m e)

variable {ms : List Redirect}

theorem follow_keeps (h : ∀ m ∈ ms, m.takes e = false) :
    follow ms e = e := by
  induction ms with
  | nil => rfl
  | cons m ms ih =>
    rw [forall_mem_cons] at h
    have hKeep : m.apply e = e := by rw [Redirect.apply, h.1, if_neg Bool.false_ne_true]
    change follow ms (m.apply e) = e
    rw [hKeep]
    exact ih h.2

theorem follow_src (ms : List Redirect) (e : Edge) :
    follow ms e = e ∨ ∃ m ∈ ms, (follow ms e).src = m.recv := by
  induction ms generalizing e with
  | nil => exact Or.inl rfl
  | cons m ms ih =>
    change follow ms (m.apply e) = e ∨ _
    rcases ih (m.apply e) with hSame | ⟨m', hMem, hSrc⟩
    · cases hTakes : m.takes e with
      | true =>
        right
        refine ⟨m, mem_cons_self, ?_⟩
        change (follow ms (m.apply e)).src = m.recv
        rw [hSame]
        exact apply_of_takes hTakes
      | false =>
        left
        rw [hSame, Redirect.apply, hTakes, if_neg Bool.false_ne_true]
    · exact Or.inr ⟨m', mem_cons_of_mem m hMem, hSrc⟩

theorem follow_avoids {r : Nat} (hOthers : ∀ m ∈ ms, m.recv ≠ r)
    (h : ¬(e.src = r ∧ e.srcOutput = 0)) :
    ¬((follow ms e).src = r ∧ (follow ms e).srcOutput = 0) := by
  rcases follow_src ms e with hSame | ⟨m, hMem, hSrc⟩
  · rw [hSame]
    exact h
  · rw [hSrc]
    exact fun hEq => hOthers m hMem hEq.1

theorem mem_redirect {g : Graph} (hLive : g.IsNode m.recv) {e' : Edge} :
    e' ∈ (g.redirect m).edges ↔ ∃ e ∈ g.edges, m.apply e = e' := by
  unfold redirect
  rw [dif_pos hLive]
  simp only [mem_append, mem_filter, List.mem_map, Bool.not_eq_true']
  constructor
  · rintro (⟨hMem, hTakes⟩ | ⟨e, ⟨hMem, hTakes⟩, rfl⟩)
    · exact ⟨e', hMem, by rw [Redirect.apply, hTakes, if_neg Bool.false_ne_true]⟩
    · exact ⟨e, hMem, by rw [Redirect.apply, if_pos hTakes]⟩
  · rintro ⟨e, hMem, rfl⟩
    unfold Redirect.apply
    cases hTakes : m.takes e with
    | true => exact Or.inr ⟨e, ⟨hMem, hTakes⟩, rfl⟩
    | false => exact Or.inl ⟨by simpa using hMem, by simpa using hTakes⟩

@[simp] theorem redirect_node (g : Graph) (m : Redirect) (id : Nat) :
    (g.redirect m).node id = g.node id := by
  unfold redirect
  split <;> rfl

@[simp] theorem redirect_numNodeIds (g : Graph) (m : Redirect) :
    (g.redirect m).numNodeIds = g.numNodeIds := by
  unfold redirect
  split <;> rfl

end Redirects

@[simp] theorem addEdge_numNodeIds (g : Graph) (e : Edge) :
    (g.addEdge e).numNodeIds = g.numNodeIds := by
  unfold numNodeIds
  rw [addEdge_nodes]

@[simp] theorem allocateNode_numNodeIds (g : Graph) (node : Node) :
    (g.allocateNode node).numNodeIds = g.numNodeIds + 1 := by
  simp [numNodeIds, allocateNode]

variable {g : Graph}

theorem mem_addEdge {e e' : Edge} (h : e' ∈ (g.addEdge e).edges) :
    e' ∈ g.edges ∨ e' = e := by
  unfold addEdge at h
  split at h
  · simpa using h
  · exact Or.inl h

theorem mem_addEdge_of_mem {e e' : Edge} (h : e' ∈ g.edges) :
    e' ∈ (g.addEdge e).edges := by
  unfold addEdge
  split
  · exact mem_append_left _ h
  · exact h

variable {n : Nat}

theorem indexNode_foldl {ids : List Nat} {index : String → Option Nat} {name : String}
    (h : ids.foldl (indexNode g) index name = some n) :
    index name = some n ∨ ∃ node, g.node n = some node ∧ node.nodeDef.name = name := by
  induction ids generalizing index with
  | nil => exact Or.inl h
  | cons id ids ih =>
    rcases ih h with hIndex | hNode
    · unfold indexNode at hIndex
      cases hFound : g.node id with
      | none =>
        rw [hFound] at hIndex
        exact Or.inl hIndex
      | some node =>
        simp only [hFound] at hIndex
        by_cases hName : name = node.nodeDef.name
        · rw [hName, update_self] at hIndex
          obtain rfl := some.inj hIndex
          exact Or.inr ⟨node, hFound, hName.symm⟩
        · rw [update_of_ne hName] at hIndex
          exact Or.inl hIndex
    · exact Or.inr hNode

theorem nameIndex_node {name : String} (h : nameIndex g name = some n) :
    ∃ node, g.node n = some node ∧ node.nodeDef.name = name := by
  rcases indexNode_foldl h with hNone | hNode
  · cases hNone
  · exact hNode

/-- The index when the nodes for the feeds have been added, from the id `base` on. -/
def indexAfter (index : String → Option Nat) : Nat → List String → String → Option Nat
  | _, [] => index
  | base, t :: rest =>
    indexAfter (update index (recvName (parseTensorName t)) (some base)) (base + 1) rest

section Index

variable {index : String → Option Nat} {base : Nat} {feeds : List String} {name : String} {n : Nat}

theorem indexAfter_of_not (h : ∀ t ∈ feeds, recvName (parseTensorName t) ≠ name) :
    indexAfter index base feeds name = index name := by
  induction feeds generalizing index base with
  | nil => rfl
  | cons t rest ih =>
    rw [forall_mem_cons] at h
    rw [indexAfter, ih h.2, update_of_ne h.1.symm]

theorem indexAfter_eq_some (h : indexAfter index base feeds name = some n) :
    (∃ i t, feeds[i]? = some t ∧ recvName (parseTensorName t) = name ∧ n = base + i) ∨
      index name = some n ∧ ∀ t ∈ feeds, recvName (parseTensorName t) ≠ name := by
  induction feeds generalizing index base with
  | nil => exact Or.inr ⟨h, by simp⟩
  | cons t rest ih =>
    rcases ih h with ⟨i, t', hGet, hName, rfl⟩ | ⟨hIndex, hRest⟩
    · exact Or.inl ⟨i + 1, t', hGet, hName, by omega⟩
    · by_cases hName : name = recvName (parseTensorName t)
      · rw [hName, update_self] at hIndex
        exact Or.inl ⟨0, t, rfl, hName.symm, (some.inj hIndex).symm⟩
      · rw [update_of_ne hName] at hIndex
        right
        rw [forall_mem_cons]
        exact ⟨hIndex, Ne.symm hName, hRest⟩

theorem indexAfter_unique {i : Nat} {t : String} (hGet : feeds[i]? = some t)
    (hOnce : ∀ (j : Nat) (u : String), feeds[j]? = some u →
      recvName (parseTensorName u) = recvName (parseTensorName t) → j = i) :
    indexAfter index base feeds (recvName (parseTensorName t)) = some (base + i) := by
  induction feeds generalizing index base i with
  | nil => cases hGet
  | cons first rest ih =>
    cases i with
    | zero =>
      obtain rfl : first = t := some.inj hGet
      have hOther : ∀ u ∈ rest, recvName (parseTensorName u) ≠
        recvName (parseTensorName first) := by
        intro u hMem hName
        obtain ⟨j, hj⟩ := mem_iff_getElem?.mp hMem
        exact absurd (hOnce (j + 1) u hj hName) (succ_ne_zero j)
      rw [indexAfter, indexAfter_of_not hOther, update_self]
      rfl
    | succ i =>
      rw [indexAfter, ih hGet]
      · rw [Nat.add_right_comm, add_assoc]
      · intro j u hj hName
        exact succ.inj (hOnce (j + 1) u hj hName)

end Index

variable {α : Type} {xs : List α}

theorem split_unique {c : α} {xs' ys ys' : List α} (hNot : c ∉ xs) (hNot' : c ∉ xs')
    (h : xs ++ c :: ys = xs' ++ c :: ys') : xs = xs' ∧ ys = ys' := by
  induction xs generalizing xs' with
  | nil =>
    cases xs' with
    | nil => exact ⟨rfl, (cons.inj h).2⟩
    | cons x xs' => exact absurd ((cons.inj h).1 ▸ mem_cons_self) hNot'
  | cons x xs ih =>
    cases xs' with
    | nil => exact absurd ((cons.inj h).1 ▸ mem_cons_self) hNot
    | cons x' xs' =>
      obtain ⟨rfl, hTail⟩ := cons.inj h
      obtain ⟨rfl, rfl⟩ := ih (fun hMem => hNot (mem_cons_of_mem x hMem))
        (fun hMem => hNot' (mem_cons_of_mem x hMem)) hTail
      exact ⟨rfl, rfl⟩

theorem repr_natCast (n : Nat) : (n : Int).repr.toList = toDigits 10 n := toList_repr

theorem repr_negSucc (n : Nat) : (negSucc n).repr.toList = '-' :: toDigits 10 (n + 1) := by
  have hRepr : (negSucc n).repr = "-" ++ (n + 1).repr := rfl
  rw [hRepr, String.toList_append, toList_repr]
  rfl

theorem underscore_not_mem (i : Int) : '_' ∉ i.repr.toList := by
  cases i with
  | ofNat n =>
    rw [ofNat_eq_natCast, repr_natCast]
    exact underscore_not_in_toDigits
  | negSucc n =>
    rw [repr_negSucc]
    simp [underscore_not_in_toDigits]

theorem toDigits_inj {m : Nat} (h : toDigits 10 m = toDigits 10 n) : m = n := by
  have hRead := congrArg (fun digits => ofDigitChars 10 digits 0) h
  simpa only [ofDigitChars_ten_toDigits] using hRead

theorem minus_not_mem (n : Nat) : '-' ∉ toDigits 10 n := by
  intro hMem
  exact absurd (isDigit_of_mem_toDigits (by decide) (by decide) hMem) (by decide)

theorem repr_inj {i j : Int} (h : i.repr.toList = j.repr.toList) : i = j := by
  cases i with
  | ofNat m =>
    rw [ofNat_eq_natCast, repr_natCast] at h
    cases j with
    | ofNat n =>
      rw [ofNat_eq_natCast, repr_natCast] at h
      rw [toDigits_inj h]
    | negSucc n =>
      rw [repr_negSucc] at h
      exact absurd (h ▸ mem_cons_self) (minus_not_mem m)
  | negSucc m =>
    rw [repr_negSucc] at h
    cases j with
    | ofNat n =>
      rw [ofNat_eq_natCast, repr_natCast] at h
      exact absurd (h ▸ mem_cons_self) (minus_not_mem n)
    | negSucc n =>
      rw [repr_negSucc] at h
      rw [succ.inj (toDigits_inj (cons.inj h).2)]

theorem recvName_toList (id : String × Int) :
    (recvName id).toList = "_recv_".toList ++ (id.1.toList ++ '_' :: id.2.repr.toList) := by
  have hName : recvName id = "_recv_" ++ id.1 ++ "_" ++ id.2.repr := rfl
  rw [hName]
  simp [String.toList_append]

theorem recvName_injective {id id' : String × Int} (h : recvName id = recvName id') : id = id' := by
  have hList := congrArg String.toList h
  rw [recvName_toList, recvName_toList, append_cancel_left_eq] at hList
  have hReverse := congrArg reverse hList
  simp only [reverse_append, reverse_cons, append_assoc]
    at hReverse
  have hNot : ∀ i : Int, '_' ∉ i.repr.toList.reverse := by
    intro i
    rw [mem_reverse]
    exact underscore_not_mem i
  obtain ⟨hIndex, hName⟩ := split_unique (hNot id.2) (hNot id'.2) hReverse
  apply Prod.ext
  · exact String.toList_injective (reverse_injective hName)
  · exact repr_inj (reverse_injective hIndex)

theorem addDefaults_name (nodeDef : Ops.NodeDef) (opDef : Ops.OpDef) :
    (nodeDef.addDefaults opDef).name = nodeDef.name := by
  unfold Ops.NodeDef.addDefaults
  induction opDef.attr generalizing nodeDef with
  | nil => rfl
  | cons attr rest ih =>
    rw [foldl_cons, ih]
    unfold Ops.NodeDef.addDefault
    split
    · rfl
    · split <;> rfl

section Nodes

variable {stray : List Ops.DataType → Int → Ops.DataType} {device : DeviceAttributes}

theorem finalize_eq_ok {opDef : Ops.OpDef} {nodeDef : Ops.NodeDef} {node : Node}
    (h : finalize device opDef nodeDef = .ok node) : node.nodeDef = nodeDef.addDefaults opDef := by
  simp only [finalize, Fallible.bind_eq_ok] at h
  obtain ⟨-, -, types, -, hNode⟩ := h
  rw [← Except.ok.inj hNode]

def IsRecvOf (t : String) (recv : Node) : Prop :=
  recv.nodeDef.name = recvName (parseTensorName t) ∧
    recv.nodeDef.attr.find "tensor_name" = some (.s (bytesOf t))

theorem recvNode_isRecvOf {t : String} {found : Option Node} {recv : Node}
    (h : recvNode stray device t found = .ok recv) : IsRecvOf t recv := by
  cases found with
  | none => cases h
  | some n =>
    simp only [recvNode, Fallible.bind_eq_ok] at h
    obtain ⟨-, -, hFinal⟩ := h
    rw [IsRecvOf, finalize_eq_ok hFinal]
    constructor
    · exact addDefaults_name _ _
    · apply (Ops.NodeDef.addDefaults_defaulted _ _).find_kept
      rfl

end Nodes

def Rewriting.Indexed (s : Rewriting) : Prop :=
  ∀ name n, s.nameIndex name = some n → s.graph.IsNode n

theorem indexed_start (g : Graph) : (⟨g, nameIndex g⟩ : Rewriting).Indexed := by
  intro name n hName
  obtain ⟨node, hNode, -⟩ := nameIndex_node hName
  exact isNode_of_node hNode

structure Adds (s s' : Rewriting) (node : Node) : Prop where
  index : s'.nameIndex = update s.nameIndex node.nodeDef.name (some s.graph.numNodeIds)
  node : ∀ id, s'.graph.node id = (s.graph.allocateNode node).node id

namespace Adds

variable {s s' : Rewriting} {node : Node} (h : Adds s s' node) (hIndexed : s.Indexed)
include h hIndexed

theorem indexed : s'.Indexed := by
  intro name n hName
  rw [isNode_iff, h.node]
  rw [h.index] at hName
  by_cases hNew : name = node.nodeDef.name
  · rw [hNew, update_self] at hName
    obtain rfl := some.inj hName
    rw [node_allocateNode_self]
    rfl
  · rw [update_of_ne hNew] at hName
    have hLive := hIndexed name n hName
    rw [node_allocateNode_of_lt hLive.lt]
    exact hLive

theorem find : s'.find = update s.find node.nodeDef.name (some node) := by
  funext name
  rw [Rewriting.find, h.index]
  by_cases hNew : name = node.nodeDef.name
  · rw [hNew, update_self, update_self, bind_some, h.node, node_allocateNode_self]
  · rw [update_of_ne hNew, update_of_ne hNew, Rewriting.find]
    cases hName : s.nameIndex name with
    | none => rfl
    | some n =>
      rw [bind_some, bind_some, h.node, node_allocateNode_of_lt (hIndexed name n hName).lt]

end Adds

section Feed

variable {s : Rewriting} {t : String} {recv : Node}

theorem feed_adds (s : Rewriting) (t : String) (recv : Node) : Adds s (s.feed t recv) recv := by
  constructor
  · rfl
  · intro id
    simp [Rewriting.feed, addControlEdge]

theorem feed_numNodeIds (s : Rewriting) (t : String) (recv : Node) :
    (s.feed t recv).graph.numNodeIds = s.graph.numNodeIds + 1 := by
  simp [Rewriting.feed, addControlEdge]

theorem mem_feed {e' : Edge} (hOld : e'.dst < s.graph.numNodeIds) :
    e' ∈ (s.feed t recv).graph.edges ↔ ∃ e ∈ s.graph.edges, (s.redirectOf t).apply e = e' := by
  have hLive : ((s.graph.allocateNode recv).addControlEdge kSourceId s.graph.numNodeIds).IsNode
      (s.redirectOf t).recv := by
    have hNew := node_allocateNode_self (g := s.graph) recv
    rw [isNode_iff, addControlEdge, node_addEdge]
    simp only [Rewriting.redirectOf, hNew, isSome_some]
  simp only [Rewriting.feed, mem_redirect hLive]
  constructor
  · rintro ⟨e, hMem, rfl⟩
    rcases mem_addEdge hMem with hMem | rfl
    · exact ⟨e, hMem, rfl⟩
    · rw [apply_dst] at hOld
      exact absurd hOld (Nat.lt_irrefl _)
  · rintro ⟨e, hMem, rfl⟩
    exact ⟨e, mem_addEdge_of_mem hMem, rfl⟩

end Feed

/-- What feeding does: a redirection and a new node for each feed. -/
structure Traced (feeds : List String) (s s' : Rewriting) (ms : List Redirect) : Prop where
  moves : ∀ (i : Nat) (m : Redirect), ms[i]? = some m → ∃ t, feeds[i]? = some t ∧
    m.index = (parseTensorName t).2 ∧ m.recv = s.graph.numNodeIds + i ∧
    indexAfter s.nameIndex s.graph.numNodeIds (feeds.take i) (parseTensorName t).1 = some m.node
  length : ms.length = feeds.length
  edges : ∀ e', e'.dst < s.graph.numNodeIds →
    (e' ∈ s'.graph.edges ↔ ∃ e ∈ s.graph.edges, follow ms e = e')
  size : s'.graph.numNodeIds = s.graph.numNodeIds + feeds.length
  old : ∀ id < s.graph.numNodeIds, s'.graph.node id = s.graph.node id
  recvs : ∀ (i : Nat) (t : String), feeds[i]? = some t →
    ∃ recv, s'.graph.node (s.graph.numNodeIds + i) = some recv ∧ IsRecvOf t recv
  indexed : s'.Indexed

variable {stray : List Ops.DataType → Int → Ops.DataType} {device : DeviceAttributes}

theorem feedInputs_traced {feeds : List String} {s s' : Rewriting} (hIndexed : s.Indexed)
    (hOk : feedInputs stray device feeds s = .ok s') : ∃ ms, Traced feeds s s' ms := by
  induction feeds generalizing s with
  | nil =>
    obtain rfl := Except.ok.inj hOk
    refine ⟨[], ?_, rfl, ?_, rfl, fun _ _ => rfl, ?_, hIndexed⟩
    · intro i m hGet
      cases hGet
    · intro e' _
      exact ⟨fun h => ⟨e', h, rfl⟩, by rintro ⟨e, hMem, rfl⟩; exact hMem⟩
    · intro i t hGet
      cases hGet
  | cons t rest ih =>
    obtain ⟨recv, hRecv, hRest⟩ := Fallible.bind_eq_ok.mp hOk
    have hRecvOf := recvNode_isRecvOf hRecv
    obtain ⟨ms, hTraced⟩ := ih ((feed_adds s t recv).indexed hIndexed) hRest
    have hSize := feed_numNodeIds s t recv
    have hIndex : (s.feed t recv).nameIndex = update s.nameIndex
        (recvName (parseTensorName t)) (some s.graph.numNodeIds) := by
      rw [← hRecvOf.1]
      rfl
    refine ⟨s.redirectOf t :: ms, ?_, ?_, ?_, ?_, ?_, ?_, hTraced.indexed⟩
    · intro i m hGet
      cases i with
      | zero =>
        obtain rfl := some.inj hGet
        refine ⟨t, rfl, rfl, rfl, ?_⟩
        rw [take_zero, indexAfter]
        cases hName : s.nameIndex (parseTensorName t).1 with
        | none =>
          rw [Rewriting.find, hName] at hRecv
          cases hRecv
        | some n => simp [Rewriting.redirectOf, hName]
      | succ i =>
        obtain ⟨t', hGet', hMoveIndex, hMoveRecv, hNode⟩ := hTraced.moves i m hGet
        refine ⟨t', hGet', hMoveIndex, ?_, ?_⟩
        · omega
        · rw [hSize, hIndex] at hNode
          exact hNode
    · rw [length_cons, length_cons, hTraced.length]
    · intro e' hOld
      rw [hTraced.edges e' (by omega)]
      constructor
      · rintro ⟨e₁, hMem, rfl⟩
        rw [follow_dst] at hOld
        obtain ⟨e, hIn, rfl⟩ := (mem_feed hOld).mp hMem
        exact ⟨e, hIn, rfl⟩
      · rintro ⟨e, hIn, rfl⟩
        rw [follow_dst] at hOld
        exact ⟨(s.redirectOf t).apply e, (mem_feed (by rwa [apply_dst])).mpr ⟨e, hIn, rfl⟩, rfl⟩
    · rw [hTraced.size, length_cons]
      omega
    · intro id hLt
      rw [hTraced.old id (by omega), (feed_adds s t recv).node, node_allocateNode_of_lt hLt]
    · intro i t' hGet
      cases i with
      | zero =>
        obtain rfl : t = t' := some.inj hGet
        refine ⟨recv, ?_, hRecvOf⟩
        rw [add_zero, hTraced.old _ (by omega), (feed_adds s t recv).node, node_allocateNode_self]
      | succ i =>
        have hRest := hTraced.recvs i t' hGet
        rw [hSize, add_assoc, add_comm 1 i] at hRest
        exact hRest

theorem mem_take_iff {x : α} :
    x ∈ xs.take n ↔ ∃ j < n, xs[j]? = some x := by
  rw [mem_iff_getElem?]
  constructor
  · rintro ⟨j, hj⟩
    rw [getElem?_take] at hj
    split at hj
    · rename_i hLt
      exact ⟨j, hLt, hj⟩
    · cases hj
  · rintro ⟨j, hLt, hj⟩
    exact ⟨j, by rw [getElem?_take_of_lt hLt, hj]⟩

theorem mem_drop_iff {x : α} :
    x ∈ xs.drop n ↔ ∃ j, n ≤ j ∧ xs[j]? = some x := by
  rw [mem_iff_getElem?]
  constructor
  · rintro ⟨j, hj⟩
    rw [getElem?_drop] at hj
    exact ⟨n + j, le_add_right n j, hj⟩
  · rintro ⟨j, hLe, hj⟩
    refine ⟨j - n, ?_⟩
    rw [getElem?_drop, Nat.add_sub_cancel' hLe, hj]

theorem follow_at {ms : List Redirect} {i : Nat} (h : ms[i]? = some m) (e : Edge)
    : follow ms e = follow (ms.drop (i + 1)) (m.apply (follow (ms.take i) e)) := by
  have hSplit : ms = ms.take i ++ m :: ms.drop (i + 1) := by
    obtain ⟨hLt, rfl⟩ := List.getElem?_eq_some_iff.mp h
    rw [← drop_eq_getElem_cons hLt, take_append_drop]
  have hFollow := congrArg (fun ms => follow ms e) hSplit
  simp only [follow_append] at hFollow
  exact hFollow

def tensorOf (g : Graph) (t : String) : Option (Nat × Int) :=
  match nameIndex g (parseTensorName t).1 with
  | none => none
  | some n =>
    if 0 ≤ (parseTensorName t).2 ∧
        (g.node n).any fun node => (parseTensorName t).2 < node.outputTypes.length then
      some (n, (parseTensorName t).2)
    else none

def SameTensor (g : Graph) (t u : String) : Prop :=
  (tensorOf g t).isSome ∧ tensorOf g t = tensorOf g u

def Consumer (g : Graph) (t : String) (e : Edge) : Prop :=
  e ∈ g.edges ∧ tensorOf g t = some (e.src, e.srcOutput) ∧ kSinkId < e.dst

/-- The edge has been replaced by one from the node `r`. -/
def Moved (r : Nat) (e : Edge) (g : Graph) : Prop :=
  ⟨r, 0, e.dst, e.dstInput⟩ ∈ g.edges ∧ e ∉ g.edges

/-- A feed meets the name of the node that another one has added: it does not find its own
tensor, or its values do not stay where they were fed. -/
def Shadowed (g : Graph) (feeds : List String) : Prop :=
  ∃ (i j : Nat) (t u : String) (e : Edge), feeds[i]? = some t ∧ feeds[j]? = some u ∧
    Consumer g t e ∧
    (j < i ∧ recvName (parseTensorName u) = (parseTensorName t).1 ∨
      i < j ∧ parseTensorName u = (recvName (parseTensorName t), 0))

theorem tensorOf_eq_some {t : String} {index : Int} :
    tensorOf g t = some (n, index) ↔
      nameIndex g (parseTensorName t).1 = some n ∧ (parseTensorName t).2 = index ∧ 0 ≤ index ∧
        ((g.node n).any fun node => index < node.outputTypes.length) := by
  unfold tensorOf
  cases nameIndex g (parseTensorName t).1 with
  | none => simp
  | some n' =>
    simp only [some.injEq]
    constructor
    · intro h
      split at h
      · rename_i hIn
        obtain ⟨rfl, rfl⟩ := Prod.mk.inj (some.inj h)
        exact ⟨rfl, rfl, hIn⟩
      · cases h
    · rintro ⟨rfl, rfl, hIn⟩
      rw [if_pos hIn]

section Reach

variable {g : Graph} {feeds : List String} {s : Rewriting} {ms : List Graph.Redirect}
  (h : Traced feeds ⟨g, nameIndex g⟩ s ms)
  (hOnce : ∀ (i j : Nat) (t u : String), feeds[i]? = some t → feeds[j]? = some u →
    SameTensor g t u → i = j)
include h

variable {t : String}

theorem Traced.takes_consumer (hConsumer : Consumer g t e) {j : Nat}
    (hGet : ms[j]? = some m) (hTakes : m.takes e) :
    ∃ u, feeds[j]? = some u ∧ SameTensor g t u ∧
      ∀ v ∈ feeds.take j, recvName (parseTensorName v) ≠ (parseTensorName u).1 := by
  obtain ⟨hMem, hTensor, -⟩ := hConsumer
  obtain ⟨hName, hIndex, hPos, hOutput⟩ := tensorOf_eq_some.mp hTensor
  obtain ⟨u, hu, hMove, -, hNode⟩ := h.moves j m hGet
  obtain ⟨hSrc, hOut⟩ := takes_iff.mp hTakes
  have hSame : (parseTensorName u).2 = e.srcOutput := by
    rcases hOut with hOut | ⟨hControl, -⟩
    · rw [← hMove, hOut]
    · rw [hControl] at hPos
      exact absurd hPos (by decide)
  rcases indexAfter_eq_some hNode with ⟨i, v, -, -, hNew⟩ | ⟨hOld, hFree⟩
  · have hLive : e.src < g.numNodeIds := (g.ends_live e hMem).1.lt_length
    change m.node = g.numNodeIds + i at hNew
    omega
  · refine ⟨u, hu, ⟨by rw [hTensor]; rfl, ?_⟩, hFree⟩
    have hOldName : nameIndex g (parseTensorName u).1 = some e.src := by
      rw [hSrc]
      exact hOld
    rw [hTensor, tensorOf_eq_some.mpr ⟨hOldName, hSame, hPos, hOutput⟩]

include hOnce

variable {i : Nat}

/-- Where no name is shadowed, each consumer gets its value from the node of the feed. -/
theorem Traced.follow_consumer (hClear : ¬Shadowed g feeds)
    (hFeed : feeds[i]? = some t) (hConsumer : Consumer g t e) :
    follow ms e = ⟨g.numNodeIds + i, 0, e.dst, e.dstInput⟩ := by
  obtain ⟨hMem, hTensor, -⟩ := id hConsumer
  obtain ⟨hName, hIndex, hPos, -⟩ := tensorOf_eq_some.mp hTensor
  have hLength : i < ms.length := by
    rw [h.length]
    exact (List.getElem?_eq_some_iff.mp hFeed).1
  obtain ⟨m, hm⟩ : ∃ m, ms[i]? = some m := ⟨ms[i], getElem?_eq_getElem hLength⟩
  obtain ⟨t', ht', hMove, hRecv, hNode⟩ := h.moves i m hm
  obtain rfl : t = t' := some.inj (hFeed.symm.trans ht')
  -- No feed before this one takes the edge, for it would be one of the same tensor.
  have hBefore : follow (ms.take i) e = e := by
    apply follow_keeps
    intro m' hIn
    rw [eq_false_iff]
    intro hTakes
    obtain ⟨j, hLt, hj⟩ := mem_take_iff.mp hIn
    obtain ⟨u, hu, hSame, -⟩ := h.takes_consumer hConsumer hj hTakes
    exact absurd (hOnce i j t u hFeed hu hSame) (Nat.ne_of_gt hLt)
  have hOwn : m.node = e.src := by
    have hFree : ∀ v ∈ feeds.take i, recvName (parseTensorName v) ≠ (parseTensorName t).1 := by
      intro v hIn hShadow
      obtain ⟨j, hLt, hj⟩ := mem_take_iff.mp hIn
      exact hClear ⟨i, j, t, v, e, hFeed, hj, hConsumer, Or.inl ⟨hLt, hShadow⟩⟩
    rw [indexAfter_of_not hFree] at hNode
    change nameIndex g _ = _ at hNode
    rw [hName] at hNode
    exact (some.inj hNode).symm
  have hHere : m.apply e = ⟨g.numNodeIds + i, 0, e.dst, e.dstInput⟩ := by
    have hOut : e.srcOutput = m.index := by rw [hMove, hIndex]
    have hTakes : m.takes e := takes_iff.mpr ⟨hOwn.symm, Or.inl hOut⟩
    rw [Redirect.apply, if_pos hTakes, Redirect.edge, if_pos hOut, hRecv]
  rw [follow_at hm, hBefore, hHere]
  apply follow_keeps
  -- A feed after this one that takes the new edge names the new node.
  intro m' hIn
  rw [eq_false_iff]
  intro hTakes
  obtain ⟨k, hLe, hk⟩ := mem_drop_iff.mp hIn
  obtain ⟨u, hu, hMove', -, hNode'⟩ := h.moves k m' hk
  obtain ⟨hSrc, hOut⟩ := takes_iff.mp hTakes
  simp only [kControlSlot] at hSrc hOut
  have hZero : (parseTensorName u).2 = 0 := by omega
  rcases indexAfter_eq_some hNode' with ⟨j, v, hv, hRecvName, hNew⟩ | ⟨hOld, -⟩
  · change m'.node = g.numNodeIds + j at hNew
    obtain rfl : j = i := by omega
    rw [getElem?_take_of_lt (by omega), hFeed] at hv
    obtain rfl := some.inj hv
    refine hClear ⟨j, k, t, u, e, hFeed, hu, hConsumer, Or.inr ⟨by omega, ?_⟩⟩
    exact Prod.ext hRecvName.symm hZero
  · have hLive : m'.node < g.numNodeIds := (indexed_start g _ _ hOld).lt
    omega

theorem Traced.moved (hClear : ¬Shadowed g feeds)
    (hFeed : feeds[i]? = some t) (hConsumer : Consumer g t e)
    : Moved (g.numNodeIds + i) e s.graph := by
  have hFollow := h.follow_consumer hOnce hClear hFeed hConsumer
  have hSrcLive : e.src < g.numNodeIds := (g.ends_live e hConsumer.1).1.lt_length
  have hDstLive : e.dst < g.numNodeIds := (g.ends_live e hConsumer.1).2.lt_length
  constructor
  · exact (h.edges ⟨g.numNodeIds + i, 0, e.dst, e.dstInput⟩ hDstLive).mpr
      ⟨e, hConsumer.1, hFollow⟩
  · rw [h.edges e hDstLive]
    rintro ⟨e₂, -, hStays⟩
    rcases follow_src ms e₂ with hSame | ⟨m, hIn, hSrc⟩
    · rw [hStays] at hSame
      rw [← hSame, hFollow] at hStays
      have hSrc := congrArg Edge.src hStays
      simp only at hSrc
      omega
    · obtain ⟨k, hk⟩ := mem_iff_getElem?.mp hIn
      obtain ⟨-, -, -, hRecv, -⟩ := h.moves k m hk
      rw [hStays, hRecv] at hSrc
      change e.src = g.numNodeIds + k at hSrc
      omega

theorem Traced.stays {j : Nat} {u : String} (hFeed : feeds[i]? = some t)
    (hOther : feeds[j]? = some u) (hConsumer : Consumer g t e) (hLt : j < i)
    (hShadow : recvName (parseTensorName u) = (parseTensorName t).1) : e ∈ s.graph.edges := by
  have hDstLive : e.dst < g.numNodeIds := (g.ends_live e hConsumer.1).2.lt_length
  refine (h.edges e hDstLive).mpr ⟨e, hConsumer.1, follow_keeps ?_⟩
  intro m hIn
  rw [eq_false_iff]
  intro hTakes
  obtain ⟨k, hk⟩ := mem_iff_getElem?.mp hIn
  obtain ⟨v, hv, hSame, hFree⟩ := h.takes_consumer hConsumer hk hTakes
  obtain rfl := hOnce i k t v hFeed hv hSame
  obtain rfl : t = v := some.inj (hFeed.symm.trans hv)
  exact hFree u (mem_take_iff.mpr ⟨j, hLt, hOther⟩) hShadow

/-- The node of a feed loses its consumers to a later feed that names it. -/
theorem Traced.loses {k : Nat} {u : String} (hFeed : feeds[i]? = some t)
    (hOther : feeds[k]? = some u) (hConsumer : Consumer g t e) (hLt : i < k)
    (hShadow : parseTensorName u = (recvName (parseTensorName t), 0)) :
    ⟨g.numNodeIds + i, 0, e.dst, e.dstInput⟩ ∉ s.graph.edges := by
  have hDstLive : e.dst < g.numNodeIds := (g.ends_live e hConsumer.1).2.lt_length
  have hLength : k < ms.length := by
    rw [h.length]
    exact (List.getElem?_eq_some_iff.mp hOther).1
  obtain ⟨m, hm⟩ : ∃ m, ms[k]? = some m := ⟨ms[k], getElem?_eq_getElem hLength⟩
  obtain ⟨u', hu', hMove, hRecv, hNode⟩ := h.moves k m hm
  obtain rfl : u = u' := some.inj (hOther.symm.trans hu')
  rw [hShadow] at hMove hNode
  have hTake : (feeds.take k)[i]? = some t := by rw [getElem?_take_of_lt hLt, hFeed]
  have hUnique : indexAfter (nameIndex g) g.numNodeIds (feeds.take k) _ = _ :=
    indexAfter_unique hTake ?_
  · rw [hUnique] at hNode
    have hOwn : m.node = g.numNodeIds + i := (some.inj hNode).symm
    rw [h.edges ⟨g.numNodeIds + i, 0, e.dst, e.dstInput⟩ hDstLive]
    rintro ⟨e₂, -, hFollow⟩
    rw [follow_at hm] at hFollow
    have hTaken : ¬((m.apply (follow (ms.take k) e₂)).src = g.numNodeIds + i ∧
        (m.apply (follow (ms.take k) e₂)).srcOutput = 0) := by
      rintro ⟨hSrc, hOut⟩
      cases hTakes : m.takes (follow (ms.take k) e₂) with
      | true =>
        rw [apply_of_takes hTakes, hRecv] at hSrc
        change g.numNodeIds + k = g.numNodeIds + i at hSrc
        omega
      | false =>
        rw [Redirect.apply, hTakes] at hSrc hOut
        have hTake : m.takes (follow (ms.take k) e₂) :=
          takes_iff.mpr ⟨hSrc.trans hOwn.symm, Or.inl (hOut.trans hMove.symm)⟩
        rw [hTakes] at hTake
        cases hTake
    have hOthers : ∀ m' ∈ ms.drop (k + 1), m'.recv ≠ g.numNodeIds + i := by
      intro m' hIn
      obtain ⟨k', hLe, hk'⟩ := mem_drop_iff.mp hIn
      obtain ⟨-, -, -, hRecv', -⟩ := h.moves k' m' hk'
      change m'.recv = g.numNodeIds + k' at hRecv'
      omega
    have hAvoids := follow_avoids hOthers hTaken
    rw [hFollow] at hAvoids
    exact hAvoids ⟨rfl, rfl⟩
  · intro j v hv hName
    obtain ⟨hLt', hv⟩ : j < k ∧ feeds[j]? = some v := by
      rw [getElem?_take] at hv
      split at hv
      · exact ⟨‹_›, hv⟩
      · cases hv
    have hParse := recvName_injective hName
    have hSame : SameTensor g t v := by
      constructor
      · rw [hConsumer.2.1]
        rfl
      · rw [tensorOf, tensorOf, hParse]
    exact (hOnce i j t v hFeed hv hSame).symm

end Reach

end TensorFlowOnSpark.Construction.Subgraph
