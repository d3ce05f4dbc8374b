import TensorFlowOnSpark.Graph.GraphState

/-!
# Removing identity nodes

`RemoveIdentityNodes` of `common_runtime/function.cc`.
-/

namespace TensorFlowOnSpark.CommonRuntime

open Relation List Option

universe u

inductive OpClass where
  | switch | merge | recv | identity | controlTrigger | sink | other
deriving DecidableEq, Repr

structure OpInfo (N : Type u) where
  opClass : N → OpClass
  /-- `IsRefType(output_type(i))` -/
  refOutput : N → Nat → Bool

namespace OpInfo

variable {N : Type u} (info : OpInfo N)

def isIdentity (n : N) : Bool := info.opClass n = .identity

def isMerge (n : N) : Bool := info.opClass n = .merge

def isRecv (n : N) : Bool := info.opClass n = .recv

def isSwitch (n : N) : Bool := info.opClass n = .switch

def isControlTrigger (n : N) : Bool := info.opClass n = .controlTrigger

def isSink (n : N) : Bool := info.opClass n = .sink

/-- The walk of `GetTheOnlyDataEdge` with the edge that it has found so far. -/
def theOnlyDataEdge : List (Link N) → Option (Link N) → Option (Link N)
  | [], ret => ret
  | e :: rest, ret =>
    match e.slots with
    | none => none
    | some (output, _) =>
      if ret.isSome then none
      else if info.refOutput e.src output then none
      else theOnlyDataEdge rest (some e)

def getTheOnlyDataEdge (edges : List (Link N)) : Option (Link N) := info.theOnlyDataEdge edges none

theorem theOnlyDataEdge_some (edges : List (Link N)) (e : Link N) {r : Link N}
    (h : info.theOnlyDataEdge edges (some e) = some r) : edges = [] ∧ r = e := by
  cases edges with
  | nil => exact ⟨rfl, (some.inj h).symm⟩
  | cons e' rest =>
    rw [theOnlyDataEdge] at h
    cases hSlots : e'.slots with
    | none => simp [hSlots] at h
    | some slots => simp [hSlots] at h

theorem getTheOnlyDataEdge_eq_some {edges : List (Link N)} {r : Link N} :
    info.getTheOnlyDataEdge edges = some r ↔
      edges = [r] ∧ ∃ output input, r.slots = some (output, input) ∧
        info.refOutput r.src output = false := by
  unfold getTheOnlyDataEdge
  constructor
  · intro h
    cases edges with
    | nil => cases h
    | cons e rest =>
      rw [theOnlyDataEdge] at h
      cases hSlots : e.slots with
      | none => simp [hSlots] at h
      | some slots =>
        obtain ⟨output, input⟩ := slots
        simp only [hSlots, isSome_none, Bool.false_eq_true, if_false] at h
        split at h
        · cases h
        · rename_i hRef
          obtain ⟨rfl, rfl⟩ := info.theOnlyDataEdge_some rest e h
          exact ⟨rfl, output, input, hSlots, by simpa using hRef⟩
  · rintro ⟨rfl, output, input, hSlots, hRef⟩
    simp [theOnlyDataEdge, hSlots, hRef]

end OpInfo

variable {N : Type u}

/-- The edge that takes the place of `out` when the node between it and `inEdge` goes. -/
def reroute (inEdge out : Link N) : Link N :=
  ⟨inEdge.src, out.dst,
    out.slots.map fun slots => ((inEdge.slots.map Prod.fst).getD 0, slots.2)⟩

@[simp] theorem reroute_src (inEdge e : Link N) : (reroute inEdge e).src = inEdge.src := rfl

@[simp] theorem reroute_dst (inEdge e : Link N) : (reroute inEdge e).dst = e.dst := rfl

variable [DecidableEq N]

/-- `n` is an identity with one data edge in; the walk reads the out edges of the old graph. -/
def bypass (info : OpInfo N) (g : GraphState N) (n : N) : GraphState N :=
  match info.getTheOnlyDataEdge (g.inEdges n) with
  | none => g
  | some inEdge => (g.addEdges ((g.outEdges n).map (reroute inEdge))).removeNode n

def matching (info : OpInfo N) (g : GraphState N) : List N :=
  g.nodes.filter fun n => info.isIdentity n && (info.getTheOnlyDataEdge (g.inEdges n)).isSome

def removeIdentityNodes (info : OpInfo N) (g : GraphState N) : GraphState N × Bool :=
  let nodes := matching info g
  (nodes.foldl (bypass info) g, !nodes.isEmpty)

/-- The edge after `n`, which `inEdge` feeds, is bypassed. -/
def substitute (n : N) (inEdge e : Link N) : Link N := if e.src = n then reroute inEdge e else e

theorem bypass_perm {n m : N} {inEdge : Link N} (hSelf : inEdge.src ≠ n) (hm : m ≠ n)
    (es : List (Link N)) :
    ((es.filter fun e => e.src ≠ n ∧ e.dst ≠ n).filter (fun e => e.dst = m) ++
      (((es.filter fun e => e.src = n).map (reroute inEdge)).filter fun e =>
        e.src ≠ n ∧ e.dst ≠ n).filter (fun e => e.dst = m)).Perm
      ((es.filter fun e => e.dst = m).map (substitute n inEdge)) := by
  induction es with
  | nil => exact Perm.refl _
  | cons e rest ih =>
    by_cases hDst : e.dst = m
    · by_cases hSrc : e.src = n
      · simp only [filter_cons, hSrc, hDst, hm, hSelf, substitute, reroute_src, reroute_dst,
          map_cons, ne_eq, not_false_eq_true, and_self, decide_true, if_true]
        exact perm_middle.trans (ih.cons _)
      · simp only [filter_cons, hSrc, hDst, hm, substitute, map_cons, ne_eq,
          not_false_eq_true, and_self, decide_true, if_true]
        exact ih.cons _
    · by_cases hSrc : e.src = n
      · by_cases hNode : e.dst = n
        · simpa [filter_cons, hSrc, hDst, hSelf, hNode, Ne.symm hm] using ih
        · simpa [filter_cons, hSrc, hDst, hSelf, hNode] using ih
      · by_cases hNode : e.dst = n
        · simpa [filter_cons, hSrc, hDst, hNode, Ne.symm hm] using ih
        · simpa [filter_cons, hSrc, hDst, hNode] using ih

theorem bypass_spec {info : OpInfo N} {g : GraphState N} {n : N} {inEdge : Link N}
    (hOnly : info.getTheOnlyDataEdge (g.inEdges n) = some inEdge) (hSelf : inEdge.src ≠ n) :
    (bypass info g n).nodes = g.nodes.filter (fun m => m ≠ n) ∧
      ∀ m, m ≠ n → ((bypass info g n).inEdges m).Perm
        ((g.inEdges m).map (substitute n inEdge)) := by
  obtain ⟨hIn, -⟩ := info.getTheOnlyDataEdge_eq_some.mp hOnly
  have hInMem : inEdge ∈ g.edges ∧ inEdge.dst = n := GraphState.mem_inEdges.mp (by simp [hIn])
  have hNew : ∀ e ∈ (g.outEdges n).map (reroute inEdge), e.src ∈ g.nodes ∧ e.dst ∈ g.nodes := by
    intro e hMem
    obtain ⟨out, hOut, rfl⟩ := mem_map.mp hMem
    exact ⟨g.src_mem inEdge hInMem.1, g.dst_mem out (GraphState.mem_outEdges.mp hOut).1⟩
  have hEq : bypass info g n =
      (g.addEdges ((g.outEdges n).map (reroute inEdge))).removeNode n := by
    simp [bypass, hOnly]
  rw [hEq]
  constructor
  · rw [GraphState.removeNode_nodes, GraphState.addEdges_nodes]
  · intro m hm
    have hEdges := GraphState.addEdges_edges hNew
    rw [GraphState.inEdges, GraphState.removeNode_edges, hEdges, filter_append,
      filter_append]
    exact bypass_perm hSelf hm g.edges

section Pass

variable {info : OpInfo N} {g : GraphState N}

def inEdgeOf (info : OpInfo N) (g : GraphState N) (n : N) : Link N :=
  (info.getTheOnlyDataEdge (g.inEdges n)).getD ⟨n, n, none⟩

/-- The edge that an edge of the graph has become when the nodes `removed` are gone. -/
def resolve (info : OpInfo N) (g : GraphState N) : List N → Link N → Link N
  | [], e => e
  | n :: removed, e =>
    substitute n (resolve info g removed (inEdgeOf info g n)) (resolve info g removed e)

theorem mem_matching {n : N} : n ∈ matching info g ↔ n ∈ g.nodes ∧ info.isIdentity n ∧
    g.inEdges n = [inEdgeOf info g n] ∧ ∃ output input,
      (inEdgeOf info g n).slots = some (output, input) ∧
        info.refOutput (inEdgeOf info g n).src output = false := by
  simp only [matching, mem_filter, Bool.and_eq_true]
  constructor
  · rintro ⟨hMem, hIdentity, hSome⟩
    obtain ⟨r, hr⟩ := isSome_iff_exists.mp hSome
    have hOf : inEdgeOf info g n = r := by simp [inEdgeOf, hr]
    obtain ⟨hIn, hSlots⟩ := info.getTheOnlyDataEdge_eq_some.mp hr
    exact ⟨hMem, hIdentity, hOf ▸ hIn, hOf ▸ hSlots⟩
  · rintro ⟨hMem, hIdentity, hIn, hSlots⟩
    exact ⟨hMem, hIdentity, by
      rw [info.getTheOnlyDataEdge_eq_some.mpr ⟨hIn, hSlots⟩]
      rfl⟩

theorem inEdgeOf_mem {n : N} (h : n ∈ matching info g) :
    inEdgeOf info g n ∈ g.edges ∧ (inEdgeOf info g n).dst = n := by
  obtain ⟨-, -, hIn, -⟩ := mem_matching.mp h
  exact GraphState.mem_inEdges.mp (by simp [hIn])

/-- `r` stands for `e` when some identities before `e` are bypassed. -/
inductive Leads (info : OpInfo N) (g : GraphState N) : Link N → Link N → Prop
  | refl (e : Link N) : Leads info g e e
  | step {e r : Link N} : e.src ∈ matching info g →
      Leads info g (reroute (inEdgeOf info g e.src) e) r → Leads info g e r

theorem Leads.trans {e r q : Link N} (h : Leads info g e r) (h' : Leads info g r q) :
    Leads info g e q := by
  induction h with
  | refl e => exact h'
  | step hMatch _ ih => exact .step hMatch (ih h')

variable {e r : Link N} {removed : List N}

omit [DecidableEq N] in
theorem reroute_reroute {a x : Link N} (hx : x.slots.isSome) :
    reroute (reroute a x) e = reroute a (reroute x e) := by
  obtain ⟨slots, hSlots⟩ := isSome_iff_exists.mp hx
  cases hOut : e.slots <;> simp [reroute, hSlots, hOut]

theorem Leads.isSome (h : Leads info g e r) : r.slots.isSome = e.slots.isSome := by
  induction h with
  | refl e => rfl
  | step hMatch _ ih => simpa [reroute] using ih

theorem Leads.reroute {a : Link N} (h : Leads info g a r) (ha : a.slots.isSome)
    (e : Link N) : Leads info g (reroute a e) (CommonRuntime.reroute r e) := by
  induction h with
  | refl a => exact .refl _
  | @step a r hMatch _ ih =>
    refine .step hMatch ?_
    have hStep := ih (by simpa [CommonRuntime.reroute] using ha)
    rw [reroute_reroute ha] at hStep
    exact hStep

theorem resolve_leads (h : ∀ n ∈ removed, n ∈ matching info g) (e : Link N) :
    Leads info g e (resolve info g removed e) := by
  induction removed generalizing e with
  | nil => exact .refl e
  | cons n removed ih =>
    rw [forall_mem_cons] at h
    rw [resolve, substitute]
    split
    · rename_i hSrc
      refine (ih h.2 e).trans (.step (hSrc ▸ h.1) ?_)
      rw [hSrc]
      obtain ⟨-, -, -, output, input, hSlots, -⟩ := mem_matching.mp h.1
      exact (ih h.2 (inEdgeOf info g n)).reroute (by simp [hSlots]) _
    · exact ih h.2 e

def IsValueEdge (info : OpInfo N) (e : Link N) : Prop :=
  ∃ output input, e.slots = some (output, input) ∧ info.refOutput e.src output = false

theorem Leads.value (h : Leads info g e r) (he : IsValueEdge info e) : IsValueEdge info r := by
  induction h with
  | refl e => exact he
  | @step e r hMatch _ ih =>
    obtain ⟨-, -, -, output, input, hSlots, hRef⟩ := mem_matching.mp hMatch
    obtain ⟨output', input', hSlots', -⟩ := he
    exact ih ⟨output, input', by simp [CommonRuntime.reroute, hSlots, hSlots'], hRef⟩

theorem Leads.path (h : Leads info g e r) : ReflTransGen g.Feeds r.src e.src := by
  induction h with
  | refl e => exact .refl
  | @step e r hMatch _ ih =>
    obtain ⟨hMem, hDst⟩ := inEdgeOf_mem hMatch
    exact ih.tail ⟨_, hMem, rfl, hDst⟩

theorem resolve_src (hAcyclic : g.Acyclic) (h : ∀ n ∈ removed, n ∈ matching info g) (e : Link N) :
    (resolve info g removed e).src ∉ removed := by
  induction removed generalizing e with
  | nil => simp
  | cons n removed ih =>
    rw [forall_mem_cons] at h
    rw [resolve, substitute]
    split
    · rw [reroute_src, mem_cons, not_or]
      refine ⟨?_, ih h.2 _⟩
      intro hEq
      obtain ⟨hMem, hDst⟩ := inEdgeOf_mem h.1
      have hPath := (resolve_leads h.2 (inEdgeOf info g n)).path
      rw [hEq] at hPath
      exact hAcyclic n (TransGen.tail' hPath ⟨_, hMem, rfl, hDst⟩)
    · rename_i hSrc
      exact not_mem_cons_of_ne_of_not_mem hSrc (ih h.2 e)

/-- What the graph is when the nodes `removed` are gone, the last one first. -/
structure Bypassed (info : OpInfo N) (g h : GraphState N) (removed : List N) : Prop where
  nodes : ∀ m, m ∈ h.nodes ↔ m ∈ g.nodes ∧ m ∉ removed
  edges : ∀ m, m ∉ removed →
    (h.inEdges m).Perm ((g.inEdges m).map (resolve info g removed))

theorem Bypassed.step (hAcyclic : g.Acyclic) {h : GraphState N} {n : N}
    (hB : Bypassed info g h removed) (hRemoved : ∀ m ∈ removed, m ∈ matching info g)
    (hMatch : n ∈ matching info g) (hNew : n ∉ removed) :
    Bypassed info g (bypass info h n) (n :: removed) := by
  obtain ⟨-, -, hIn, output, input, hSlots, hRef⟩ := mem_matching.mp hMatch
  have hLeads := resolve_leads hRemoved (inEdgeOf info g n)
  have hOnly : info.getTheOnlyDataEdge (h.inEdges n) =
      some (resolve info g removed (inEdgeOf info g n)) := by
    have hPerm := hB.edges n hNew
    rw [hIn, map_singleton, perm_singleton] at hPerm
    exact info.getTheOnlyDataEdge_eq_some.mpr ⟨hPerm, hLeads.value ⟨output, input, hSlots, hRef⟩⟩
  have hSelf : (resolve info g removed (inEdgeOf info g n)).src ≠ n := by
    intro hEq
    obtain ⟨hMem, hDst⟩ := inEdgeOf_mem hMatch
    have hPath := hLeads.path
    rw [hEq] at hPath
    exact hAcyclic n (TransGen.tail' hPath ⟨_, hMem, rfl, hDst⟩)
  obtain ⟨hNodes, hEdges⟩ := bypass_spec hOnly hSelf
  constructor
  · intro m
    rw [hNodes, mem_filter, hB.nodes m]
    simp only [mem_cons, not_or, decide_eq_true_eq]
    tauto
  · intro m hm
    rw [mem_cons, not_or] at hm
    refine (hEdges m hm.1).trans (((hB.edges m hm.2).map _).trans (Perm.of_eq ?_))
    rw [List.map_map]
    rfl

theorem removeIdentityNodes_bypassed (hAcyclic : g.Acyclic) :
    Bypassed info g (removeIdentityNodes info g).1 (matching info g).reverse := by
  have hFold : ∀ (todo removed : List N) (h : GraphState N), Bypassed info g h removed →
      (∀ m ∈ removed, m ∈ matching info g) → (∀ m ∈ todo, m ∈ matching info g) → todo.Nodup →
      (∀ m ∈ todo, m ∉ removed) →
      Bypassed info g (todo.foldl (bypass info) h) (todo.reverse ++ removed) := by
    intro todo
    induction todo with
    | nil => exact fun removed h hB _ _ _ _ => hB
    | cons n todo ih =>
      intro removed h hB hRemoved hTodo hNodup hNew
      rw [forall_mem_cons] at hTodo hNew
      rw [nodup_cons] at hNodup
      rw [reverse_cons, append_assoc]
      refine ih (n :: removed) _ (hB.step hAcyclic hRemoved hTodo.1 hNew.1) ?_ hTodo.2 hNodup.2 ?_
      · exact forall_mem_cons.mpr ⟨hTodo.1, hRemoved⟩
      · intro m hm
        refine not_mem_cons_of_ne_of_not_mem ?_ (hNew.2 m hm)
        rintro rfl
        exact hNodup.1 hm
  have hStart : Bypassed info g g [] := by
    refine ⟨fun m => by simp, fun m _ => Perm.of_eq ?_⟩
    exact (map_id _).symm
  have hAll := hFold (matching info g) [] g hStart (by simp) (fun m hm => hm)
    (g.nodes_nodup.filter _) (by simp)
  rw [append_nil] at hAll
  exact hAll

end Pass

universe v

section Dead

variable (info : OpInfo N) (deadOutput : N → Nat → Bool) (dead : N → Bool)

def gone (n : N) (output : Nat) : Bool :=
  if info.isRecv n then deadOutput n output else dead n || deadOutput n output

/-- What makes `dead_count` of a node other than a `Merge` positive. -/
def carriesDeath (e : Link N) : Bool :=
  dead e.src ||
    match e.slots with
    | some (output, _) => gone info deadOutput dead e.src output
    | none => false

/-- What counts in `dead_count` of a `Merge`, besides its control edges. -/
def bringsNothing (e : Link N) : Bool :=
  match e.slots with
  | some (output, _) => gone info deadOutput dead e.src output
  | none => true

def isDead (g : GraphState N) (n : N) : Bool :=
  if info.isSink n || info.isControlTrigger n then false
  else if info.isMerge n then (g.inEdges n).all (bringsNothing info deadOutput dead)
  else (g.inEdges n).any (carriesDeath info deadOutput dead)

/-- `dead` tells which nodes of the graph are dead. -/
def MarksDead (g : GraphState N) : Prop := ∀ n ∈ g.nodes, dead n = isDead info deadOutput dead g n

def NoInput (g : GraphState N) (n : N) (input : Nat) : Prop :=
  ∀ e ∈ g.inEdges n, ∀ output, e.slots = some (output, input) →
    gone info deadOutput dead e.src output

end Dead

structure Run (N : Type u) (V : Type v) where
  arrived : N → Nat → Option V
  seen : N → Nat → Option V
  out : N → Nat → Option V

variable {V : Type v}

/-- A `Merge` sees the live input that came first, any other node all of its inputs. -/
structure Visits (info : OpInfo N) (g : GraphState N) (x : Run N V) (n : N) : Prop where
  arrived : ∀ e ∈ g.inEdges n, ∀ output input, e.slots = some (output, input) →
    x.arrived n input = x.out e.src output
  unfed : ∀ input, (∀ e ∈ g.inEdges n, ∀ output, e.slots ≠ some (output, input)) →
    x.arrived n input = none
  merge : info.isMerge n → ∃ input value, x.arrived n input = some value ∧
    x.seen n = Function.update (fun _ => none) input (some value)
  other : info.isMerge n = false → x.seen n = x.arrived n

/-- An execution with the given dead outputs; `compute` is what the kernels do. -/
structure Runs (info : OpInfo N) (deadOutput : N → Nat → Bool) (dead : N → Bool)
    (compute : N → (Nat → Option V) → Nat → V) (g : GraphState N) (x : Run N V) : Prop where
  visits : ∀ n ∈ g.nodes, info.isSink n = false → dead n = false → Visits info g x n
  out : ∀ n ∈ g.nodes, ∀ output, x.out n output =
    if gone info deadOutput dead n output then none else some (compute n (x.seen n) output)

def HandsOn (info : OpInfo N) (compute : N → (Nat → Option V) → Nat → V) : Prop :=
  ∀ n, info.isIdentity n → ∀ inputs value, inputs 0 = some value →
    compute n inputs 0 = value

def SameAt (x y : Run N V) (n : N) : Prop :=
  x.arrived n = y.arrived n ∧ x.seen n = y.seen n ∧ x.out n = y.out n

structure WellFormed (info : OpInfo N) (g : GraphState N) : Prop where
  acyclic : g.Acyclic
  oneEdge : ∀ e ∈ g.edges, ∀ e' ∈ g.edges, e.dst = e'.dst → ∀ output output' input,
    e.slots = some (output, input) → e'.slots = some (output', input) → e = e'
  oneOutput : ∀ e ∈ g.edges, info.isIdentity e.src → ∀ output input,
    e.slots = some (output, input) → output = 0
  oneInput : ∀ e ∈ g.edges, info.isIdentity e.dst → ∀ output input,
    e.slots = some (output, input) → input = 0
  noInput : ∀ e ∈ g.edges, info.isControlTrigger e.dst → e.slots = none

/-- Only a `Switch` or a `Recv` leaves out outputs. -/
def OnlyBranches (info : OpInfo N) (deadOutput : N → Nat → Bool) : Prop :=
  ∀ n output, deadOutput n output → info.isSwitch n ∨ info.isRecv n

omit [DecidableEq N] in
theorem gone_identity {info : OpInfo N} {deadOutput : N → Nat → Bool} {dead : N → Bool}
    (hBranches : OnlyBranches info deadOutput) {n : N} (h : info.isIdentity n = true)
    (output : Nat) : gone info deadOutput dead n output = dead n := by
  have hClass : info.opClass n = .identity := by simpa [OpInfo.isIdentity] using h
  have hKept : deadOutput n output = false := by
    cases hOut : deadOutput n output with
    | false => rfl
    | true => simpa [OpInfo.isSwitch, OpInfo.isRecv, hClass] using hBranches n output hOut
  simp [gone, OpInfo.isRecv, hClass, hKept]

/-- The match `i` hands on the output `output` of `s`, which stays in the graph. -/
inductive Passes (info : OpInfo N) (g : GraphState N) : N → N → Nat → Prop
  | direct {i : N} {output input : Nat} : i ∈ matching info g →
      (inEdgeOf info g i).src ∉ matching info g →
      (inEdgeOf info g i).slots = some (output, input) →
      Passes info g i (inEdgeOf info g i).src output
  | chain {i s : N} {output : Nat} : i ∈ matching info g →
      Passes info g (inEdgeOf info g i).src s output → Passes info g i s output

variable {info : OpInfo N} {g : GraphState N}

variable {output : Nat}

theorem Passes.mem {i s : N} (h : Passes info g i s output) :
    i ∈ matching info g := by
  cases h with
  | direct hMem _ _ => exact hMem
  | chain hMem _ => exact hMem

theorem Passes.unique {i s s' : N} {output' : Nat} (h : Passes info g i s output)
    (h' : Passes info g i s' output') : s = s' ∧ output = output' := by
  induction h generalizing s' output' with
  | direct hMem hKept hSlots =>
    cases h' with
    | direct _ _ hSlots' =>
      rw [hSlots] at hSlots'
      exact ⟨rfl, congrArg Prod.fst (some.inj hSlots')⟩
    | chain _ hNext => exact absurd hNext.mem hKept
  | chain hMem hNext ih =>
    cases h' with
    | direct _ hKept _ => exact absurd hNext.mem hKept
    | chain _ hNext' => exact ih hNext'

variable {e r : Link N}

theorem Leads.passes (h : Leads info g e r) (hKept : r.src ∉ matching info g)
    (hMatch : e.src ∈ matching info g) : ∃ output, Passes info g e.src r.src output ∧
      ∀ output' input, r.slots = some (output', input) → output' = output := by
  induction h with
  | refl e => exact absurd hMatch hKept
  | @step e r hSrc hLeads ih =>
    obtain ⟨-, -, -, output, input, hSlots, -⟩ := mem_matching.mp hSrc
    by_cases hNext : (inEdgeOf info g e.src).src ∈ matching info g
    · obtain ⟨output', hPasses, hOutput⟩ := ih hKept hNext
      exact ⟨output', .chain hSrc hPasses, hOutput⟩
    · cases hLeads with
      | refl _ =>
        refine ⟨output, .direct hSrc hNext hSlots, ?_⟩
        intro output' input' hSlots'
        cases hOut : e.slots with
        | none => simp [CommonRuntime.reroute, hOut] at hSlots'
        | some slots =>
          have hPair : output = output' ∧ slots.2 = input' := by
            simpa [CommonRuntime.reroute, hOut, hSlots] using hSlots'
          exact hPair.1.symm
      | step hAgain _ => exact absurd hAgain hNext

def resolved (info : OpInfo N) (g : GraphState N) (e : Link N) : Link N :=
  resolve info g (matching info g).reverse e

variable (info g) in
theorem resolved_leads (e : Link N) : Leads info g e (resolved info g e) :=
  resolve_leads (fun _ hMem => List.mem_reverse.mp hMem) e

theorem resolved_src (hAcyclic : g.Acyclic) (e : Link N) :
    (resolved info g e).src ∉ matching info g := by
  have hListed : ∀ i ∈ (matching info g).reverse, i ∈ matching info g :=
    fun _ hMem => mem_reverse.mp hMem
  have h := resolve_src hAcyclic hListed e
  rwa [mem_reverse] at h

theorem Leads.eq_of_kept (h : Leads info g e r) (hKept : e.src ∉ matching info g) :
    r = e := by
  cases h with
  | refl _ => rfl
  | step hMatch _ => exact absurd hMatch hKept

variable {e : Link N}

variable (info) in
theorem resolved_of_kept (h : e.src ∉ matching info g) : resolved info g e = e :=
  (resolved_leads info g e).eq_of_kept h

theorem Leads.input (h : Leads info g e r) {input : Nat}
    (hSlots : e.slots = some (output, input)) : ∃ output', r.slots = some (output', input) := by
  induction h generalizing output with
  | refl e => exact ⟨output, hSlots⟩
  | step hMatch _ ih => exact ih (by simp [CommonRuntime.reroute, hSlots]; rfl)

theorem resolved_input {output' input : Nat}
    (hSlots' : (resolved info g e).slots = some (output', input)) :
    ∃ output, e.slots = some (output, input) := by
  have hLeads := resolved_leads info g e
  have hSome := hLeads.isSome
  rw [hSlots'] at hSome
  obtain ⟨⟨output, input'⟩, hSlots⟩ := isSome_iff_exists.mp hSome.symm
  obtain ⟨output'', hSame⟩ := hLeads.input hSlots
  rw [hSlots'] at hSame
  obtain rfl : input = input' := congrArg Prod.snd (some.inj hSame)
  exact ⟨output, hSlots⟩

theorem resolved_src_mem (h : e.src ∈ g.nodes) :
    (resolved info g e).src ∈ g.nodes := by
  rcases ReflTransGen.cases_head (resolved_leads info g e).path with
    hEq | ⟨_, ⟨e', he', hSrc, -⟩, -⟩
  · rw [hEq]
    exact h
  · rw [← hSrc]
    exact g.src_mem e' he'

section After

variable (hAcyclic : g.Acyclic)
include hAcyclic

theorem mem_nodes_after {n : N} :
    n ∈ (removeIdentityNodes info g).1.nodes ↔ n ∈ g.nodes ∧ n ∉ matching info g := by
  rw [(removeIdentityNodes_bypassed hAcyclic).nodes, mem_reverse]

theorem mem_inEdges_after {n : N} (hKept : n ∉ matching info g) {e' : Link N} :
    e' ∈ (removeIdentityNodes info g).1.inEdges n ↔
      ∃ e ∈ g.inEdges n, resolved info g e = e' := by
  have hPerm := (removeIdentityNodes_bypassed hAcyclic).edges n
    (fun hMem => hKept (mem_reverse.mp hMem))
  rw [hPerm.mem_iff, List.mem_map]
  rfl

end After

section Dead

variable {deadOutput : N → Nat → Bool} {dead : N → Bool}

structure Safe (info : OpInfo N) (deadOutput : N → Nat → Bool) (dead : N → Bool)
    (g : GraphState N) : Prop where
  /-- A dead node has a reason to be dead besides the matches that leave a live node. -/
  death : ∀ n ∈ g.nodes, n ∉ matching info g → info.isMerge n = false → dead n →
    ∃ e ∈ g.inEdges n, carriesDeath info deadOutput dead e ∧
      (e.isControlEdge → ∀ s output, Passes info g e.src s output → dead s)
  /-- What reaches a `Merge` through a match is no value of a dead `Recv`. -/
  value : ∀ e ∈ g.edges, e.isControlEdge = false → info.isMerge e.dst →
    ∀ s output, Passes info g e.src s output → dead s →
      gone info deadOutput dead s output

variable (hBranches : OnlyBranches info deadOutput) (hMarks : MarksDead info deadOutput dead g)
include hBranches hMarks

omit hBranches in
theorem dead_of_match {i : N} (h : i ∈ matching info g) :
    dead i = carriesDeath info deadOutput dead (inEdgeOf info g i) := by
  obtain ⟨hMem, hIdentity, hIn, -⟩ := mem_matching.mp h
  have hClass : info.opClass i = .identity := by simpa [OpInfo.isIdentity] using hIdentity
  rw [hMarks i hMem, isDead, hIn]
  simp [OpInfo.isSink, OpInfo.isControlTrigger, OpInfo.isMerge, hClass]

theorem Leads.carriesDeath (h : Leads info g e r) (hData : e.slots.isSome) :
    carriesDeath info deadOutput dead e = CommonRuntime.carriesDeath info deadOutput dead r := by
  induction h with
  | refl e => rfl
  | @step e r hMatch _ ih =>
    obtain ⟨-, hIdentity, -, output, input, hSlots, -⟩ := mem_matching.mp hMatch
    obtain ⟨slots, hOut⟩ := isSome_iff_exists.mp hData
    rw [← ih (by simpa [CommonRuntime.reroute] using hData)]
    have hDead := dead_of_match hMarks hMatch
    simp only [CommonRuntime.carriesDeath, CommonRuntime.reroute, hOut, hSlots, map_some,
      getD_some] at hDead ⊢
    rw [gone_identity hBranches hIdentity, Bool.or_self, hDead]

theorem Passes.dead_eq (hAcyclic : g.Acyclic) {i s : N} {output : Nat}
    (h : Passes info g i s output) : dead i = (dead s || gone info deadOutput dead s output) := by
  have hLeads : Leads info g ⟨i, i, some (0, 0)⟩ (resolved info g ⟨i, i, some (0, 0)⟩) :=
    resolved_leads info g _
  obtain ⟨output', hPasses, hOutput⟩ := hLeads.passes (resolved_src hAcyclic _) h.mem
  obtain ⟨rfl, rfl⟩ := h.unique hPasses
  obtain ⟨output'', hSlots⟩ := hLeads.input rfl
  have hDead := hLeads.carriesDeath hBranches hMarks rfl
  obtain ⟨-, hIdentity, -⟩ := mem_matching.mp h.mem
  simp only [carriesDeath, hSlots, gone_identity hBranches hIdentity, Bool.or_self]
    at hDead
  rw [hDead, hOutput _ _ hSlots]

omit hBranches hMarks in
theorem resolved_spec (hAcyclic : g.Acyclic) {e : Link N} (hMatch : e.src ∈ matching info g) :
    ∃ output, Passes info g e.src (resolved info g e).src output ∧
      (resolved info g e).slots.isSome = e.slots.isSome ∧
      ∀ output' input, (resolved info g e).slots = some (output', input) → output' = output := by
  obtain ⟨output, hPasses, hOutput⟩ :=
    (resolved_leads info g e).passes (resolved_src hAcyclic e) hMatch
  exact ⟨output, hPasses, (resolved_leads info g e).isSome, hOutput⟩

theorem carriesDeath_resolved (hAcyclic : g.Acyclic) (e : Link N) :
    carriesDeath info deadOutput dead (resolved info g e) ↔
      carriesDeath info deadOutput dead e ∧
        (e.isControlEdge → ∀ s output, Passes info g e.src s output → dead s) := by
  cases hSlots : e.slots with
  | some slots =>
    have hSame := (resolved_leads info g e).carriesDeath hBranches hMarks (by simp [hSlots])
    simp [← hSame, Link.isControlEdge, hSlots]
  | none =>
    by_cases hMatch : e.src ∈ matching info g
    · obtain ⟨output, hPasses, hSome, -⟩ := resolved_spec hAcyclic hMatch
      have hNone : (resolved info g e).slots = none := by simpa [hSlots] using hSome
      have hDead := hPasses.dead_eq hBranches hMarks hAcyclic
      simp only [carriesDeath, hSlots, hNone, Bool.or_false, Link.isControlEdge, isNone_none,
        forall_const]
      constructor
      · intro hLive
        refine ⟨by simp [hDead, hLive], ?_⟩
        intro s output' hPasses'
        rw [(hPasses'.unique hPasses).1]
        exact hLive
      · rintro ⟨-, hAll⟩
        exact hAll _ _ hPasses
    · rw [resolved_of_kept info hMatch]
      constructor
      · intro h
        exact ⟨h, fun _ s output hPasses => absurd hPasses.mem hMatch⟩
      · exact And.left

theorem bringsNothing_resolved (hAcyclic : g.Acyclic) (e : Link N) :
    bringsNothing info deadOutput dead e ↔
      (bringsNothing info deadOutput dead (resolved info g e) ∨
        e.isControlEdge = false ∧ ∃ s output, Passes info g e.src s output ∧ dead s) := by
  by_cases hMatch : e.src ∈ matching info g
  · obtain ⟨output, hPasses, hSome, hOutput⟩ := resolved_spec hAcyclic hMatch
    have hDead := hPasses.dead_eq hBranches hMarks hAcyclic
    obtain ⟨-, hIdentity, -⟩ := mem_matching.mp hMatch
    cases hSlots : e.slots with
    | none =>
      have hNone : (resolved info g e).slots = none := by simpa [hSlots] using hSome
      simp [bringsNothing, hSlots, hNone]
    | some slots =>
      obtain ⟨slots', hSlots'⟩ := isSome_iff_exists.mp
        (hSome.trans (by simp [hSlots]) : (resolved info g e).slots.isSome)
      have hEq := hOutput slots'.1 slots'.2 hSlots'
      simp only [bringsNothing, hSlots, hSlots', gone_identity hBranches hIdentity, hDead, hEq,
        Bool.or_eq_true, Link.isControlEdge, isNone_some, true_and]
      constructor
      · rintro (h | h)
        · exact Or.inr ⟨_, output, hPasses, h⟩
        · exact Or.inl h
      · rintro (h | ⟨s, output', hPasses', h⟩)
        · exact Or.inr h
        · rw [(hPasses'.unique hPasses).1] at h
          exact Or.inl h
  · rw [resolved_of_kept info hMatch]
    constructor
    · exact Or.inl
    · rintro (h | ⟨-, s, output, hPasses, -⟩)
      · exact h
      · exact absurd hPasses.mem hMatch

end Dead

end TensorFlowOnSpark.CommonRuntime
