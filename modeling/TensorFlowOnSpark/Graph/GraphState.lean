import TensorFlowOnSpark.Lib.Dependency

/-!
# Graphs that passes rewrite

`Graph` of `graph/graph.cc` with the calls that change it. Nodes are the elements of any
type.
-/

namespace TensorFlowOnSpark

universe u

open List

/-- An `Edge`; `slots` holds `src_output` and `dst_input`, and nothing for `kControlSlot`. -/
structure Link (N : Type u) where
  src : N
  dst : N
  slots : Option (Nat × Nat)
deriving DecidableEq, Repr

def Link.isControlEdge {N : Type u} (e : Link N) : Bool := e.slots.isNone

structure GraphState (N : Type u) where
  nodes : List N
  edges : List (Link N)
  nodes_nodup : nodes.Nodup
  src_mem : ∀ e ∈ edges, e.src ∈ nodes
  dst_mem : ∀ e ∈ edges, e.dst ∈ nodes

namespace GraphState

variable {N : Type u}

/-- `u` comes before `v` along one edge. -/
def Feeds (g : GraphState N) (u v : N) : Prop := ∃ e ∈ g.edges, e.src = u ∧ e.dst = v

def Acyclic (g : GraphState N) : Prop := Dependency.Acyclic g.Feeds

variable [DecidableEq N]

def inEdges (g : GraphState N) (n : N) : List (Link N) := g.edges.filter fun e => e.dst = n

def outEdges (g : GraphState N) (n : N) : List (Link N) := g.edges.filter fun e => e.src = n

/-- `AddEdge`, for nodes of the graph. -/
def addEdge (g : GraphState N) (e : Link N) : GraphState N :=
  if h : e.src ∈ g.nodes ∧ e.dst ∈ g.nodes then
    { g with
      edges := g.edges ++ [e]
      src_mem := by
        intro e' hMem
        rcases mem_append.mp hMem with hMem | hMem
        · exact g.src_mem e' hMem
        · exact mem_singleton.mp hMem ▸ h.1
      dst_mem := by
        intro e' hMem
        rcases mem_append.mp hMem with hMem | hMem
        · exact g.dst_mem e' hMem
        · exact mem_singleton.mp hMem ▸ h.2 }
  else g

def addEdges (g : GraphState N) (es : List (Link N)) : GraphState N := es.foldl addEdge g

/-- `RemoveNode`: the edges of the node go with it. -/
def removeNode (g : GraphState N) (n : N) : GraphState N where
  nodes := g.nodes.filter fun m => m ≠ n
  edges := g.edges.filter fun e => e.src ≠ n ∧ e.dst ≠ n
  nodes_nodup := g.nodes_nodup.filter _
  src_mem := by
    intro e hMem
    obtain ⟨hMem, hKept⟩ := mem_filter.mp hMem
    exact mem_filter.mpr ⟨g.src_mem e hMem, by simpa using (of_decide_eq_true hKept).1⟩
  dst_mem := by
    intro e hMem
    obtain ⟨hMem, hKept⟩ := mem_filter.mp hMem
    exact mem_filter.mpr ⟨g.dst_mem e hMem, by simpa using (of_decide_eq_true hKept).2⟩

variable {g : GraphState N}

theorem removeNode_nodes (n : N) : (g.removeNode n).nodes = g.nodes.filter fun m => m ≠ n := rfl

theorem removeNode_edges (n : N) :
    (g.removeNode n).edges = g.edges.filter fun e => e.src ≠ n ∧ e.dst ≠ n := rfl

variable {e : Link N}

@[simp] theorem mem_inEdges {n : N} : e ∈ g.inEdges n ↔ e ∈ g.edges ∧ e.dst = n := by
  simp [inEdges]

@[simp] theorem mem_outEdges {n : N} : e ∈ g.outEdges n ↔ e ∈ g.edges ∧ e.src = n := by
  simp [outEdges]

@[simp] theorem addEdge_nodes (e : Link N) : (g.addEdge e).nodes = g.nodes := by
  unfold addEdge
  split <;> rfl

theorem addEdge_edges (hSrc : e.src ∈ g.nodes) (hDst : e.dst ∈ g.nodes) :
    (g.addEdge e).edges = g.edges ++ [e] := by
  unfold addEdge
  rw [dif_pos ⟨hSrc, hDst⟩]

@[simp] theorem addEdges_nodes (es : List (Link N)) : (g.addEdges es).nodes = g.nodes := by
  unfold addEdges
  induction es generalizing g with
  | nil => rfl
  | cons e rest ih => rw [foldl_cons, ih, addEdge_nodes]

theorem addEdges_edges {es : List (Link N)}
    (h : ∀ e ∈ es, e.src ∈ g.nodes ∧ e.dst ∈ g.nodes) : (g.addEdges es).edges = g.edges ++ es := by
  unfold addEdges
  induction es generalizing g with
  | nil => simp
  | cons e rest ih =>
    rw [forall_mem_cons] at h
    rw [foldl_cons, ih, addEdge_edges h.1.1 h.1.2, append_assoc, singleton_append]
    simpa using h.2

end GraphState

end TensorFlowOnSpark
