import TensorFlowOnSpark.Lib.Dependency

/-!
# Graphs

`Graph`, `Node` and `Edge` of `graph/graph.h`, as far as the executor and the partitioner
read them. The nodes of a graph are the elements of a type.
-/

namespace TensorFlowOnSpark

universe u v

open List

/-- `Node::NodeClass`, with the attributes of an `Enter` node. -/
inductive NodeClass where
  | switch
  | merge
  | enter (frameName : String) (isConstant : Bool) (parallelIterations : Nat)
  | exit
  | nextIteration
  | loopCond
  | controlTrigger
  | send
  | hostSend
  | recv
  | hostRecv
  | other
deriving DecidableEq, Repr

/-- `slots` holds `src_output` and `dst_input`; it is `none` for a control edge. -/
structure Edge (N : Type u) where
  id : Nat
  src : N
  dst : N
  slots : Option (Nat × Nat)
deriving DecidableEq, Repr

namespace Edge

variable {N : Type u}

def isControlEdge (e : Edge N) : Bool := e.slots.isNone

def dstInput (e : Edge N) : Option Nat := e.slots.map Prod.snd

def entry {V : Type v} (e : Edge N) (outputs : List (Option V)) : Option V :=
  e.slots.bind fun slots => (outputs[slots.1]?).join

end Edge

/-- A graph in which every data input of a node has its edge. -/
structure Graph (N : Type u) where
  nodes : List N
  nodeClass : N → NodeClass
  sink : N
  numInputs : N → Nat
  numOutputs : N → Nat
  inEdges : N → List (Edge N)
  outEdges : N → List (Edge N)
  mem_nodes : ∀ v, v ∈ nodes
  nodes_nodup : nodes.Nodup
  inEdges_nodup : ∀ v, (inEdges v).Nodup
  outEdges_nodup : ∀ v, (outEdges v).Nodup
  dst_of_mem : ∀ v, ∀ e ∈ inEdges v, e.dst = v
  mem_outEdges : ∀ v e, e ∈ outEdges v ↔ e.src = v ∧ e ∈ inEdges e.dst
  inputs_filled : ∀ v, ((inEdges v).filterMap Edge.dstInput).Perm (range (numInputs v))
  sink_outEdges : outEdges sink = []

namespace Graph

variable {N : Type u} (g : Graph N)

def isMerge (v : N) : Bool := g.nodeClass v = .merge

def isEnter (v : N) : Bool :=
  match g.nodeClass v with
  | .enter _ _ _ => true
  | _ => false

def isExit (v : N) : Bool := g.nodeClass v = .exit

def isNextIteration (v : N) : Bool := g.nodeClass v = .nextIteration

def isSwitch (v : N) : Bool := g.nodeClass v = .switch

def isControlTrigger (v : N) : Bool := g.nodeClass v = .controlTrigger

def isSend (v : N) : Bool := g.nodeClass v = .send || g.nodeClass v = .hostSend

def isRecv (v : N) : Bool := g.nodeClass v = .recv || g.nodeClass v = .hostRecv

def isTransferNode (v : N) : Bool := g.isSend v || g.isRecv v

def Feeds (u v : N) : Prop := ∃ e ∈ g.inEdges v, e.src = u

def Acyclic : Prop := Dependency.Acyclic g.Feeds

theorem finite (g : Graph N) : Finite N := by
  classical
  exact Fintype.finite ⟨g.nodes.toFinset, fun v => mem_toFinset.mpr (g.mem_nodes v)⟩

variable {g}

theorem countP_dataEdges (v : N) :
    (g.inEdges v).countP (fun e => !e.isControlEdge) = g.numInputs v := by
  have hLength := (g.inputs_filled v).length_eq
  rw [length_range, length_filterMap_eq_countP] at hLength
  rw [← hLength]
  congr 1
  funext e
  cases hSlots : e.slots with
  | none => simp [Edge.isControlEdge, Edge.dstInput]
  | some slots => simp [Edge.isControlEdge, Edge.dstInput]

theorem eq_of_dstInput_eq {v : N} {e e' : Edge N} {slot : Nat} (hMem : e ∈ g.inEdges v)
    (hMem' : e' ∈ g.inEdges v) (hSlot : e.dstInput = some slot) (hSlot' : e'.dstInput = some slot) :
    e = e' := by
  have hNodup : ((g.inEdges v).filterMap Edge.dstInput).Nodup :=
    (g.inputs_filled v).nodup_iff.mpr nodup_range
  rw [Nodup, pairwise_filterMap] at hNodup
  have hSymm : Std.Symm fun a b : Edge N =>
      ∀ i, a.dstInput = some i → ∀ j, b.dstInput = some j → i ≠ j :=
    ⟨fun a b hDiffer i hi j hj hEq => hDiffer j hj i hi hEq.symm⟩
  by_contra hNe
  exact hNodup.forall hMem hMem' hNe slot hSlot slot hSlot' rfl

end Graph

/-- The graph with the nodes `0, .., n - 1` and the given edges. -/
def Graph.ofEdges {n : Nat} (nodeClass : Fin n → NodeClass) (sink : Fin n)
    (numInputs numOutputs : Fin n → Nat) (edges : List (Edge (Fin n))) (hNodup : edges.Nodup)
    (hFilled : ∀ v, ((edges.filter fun e => e.dst = v).filterMap Edge.dstInput).Perm
      (range (numInputs v)))
    (hSink : (edges.filter fun e => e.src = sink) = []) : Graph (Fin n) where
  nodes := finRange n
  nodeClass := nodeClass
  sink := sink
  numInputs := numInputs
  numOutputs := numOutputs
  inEdges := fun v => edges.filter fun e => e.dst = v
  outEdges := fun v => edges.filter fun e => e.src = v
  mem_nodes := mem_finRange
  nodes_nodup := nodup_finRange n
  inEdges_nodup := fun _ => hNodup.filter _
  outEdges_nodup := fun _ => hNodup.filter _
  dst_of_mem := by
    intro v e hMem
    simpa using (mem_filter.mp hMem).2
  mem_outEdges := by
    intro v e
    simp only [mem_filter, decide_eq_true_eq]
    constructor
    · rintro ⟨hMem, hSrc⟩
      exact ⟨hSrc, hMem, trivial⟩
    · rintro ⟨hSrc, hMem, -⟩
      exact ⟨hMem, hSrc⟩
  inputs_filled := hFilled
  sink_outEdges := hSink

end TensorFlowOnSpark
