import TensorFlowOnSpark.Graph.GraphConstructor
import TensorFlowOnSpark.Lib.Fallible

/-!
# The name index and the counts of the constructor

What `BuildNodeIndex` and `InitFromEdges` leave behind: every name stands for the place of
its node in the `GraphDef`, and the counts are those of tasks that wait for each other.
-/

namespace TensorFlowOnSpark.Construction

open Ops Fallible List Function Option Nat

variable {R H : Type}

@[simp] theorem check_eq_ok {condition : Bool} {error : Error} {u : Unit} :
    check condition error = .ok u ↔ condition := by
  cases condition <;> simp [check]

@[simp] theorem orFail_eq_ok {α : Type} {s : State R} {x : Except Error α} {a : α} :
    orFail s x = .ok a ↔ x = .ok a := mapError_eq_ok

theorem orFail_ends {α : Type} {s : State R} {x : Except Error α} {E : Failure R → Prop}
    (h : ∀ error, E ⟨error, s⟩) : Ends (fun a => x = .ok a) E (orFail s x) := Ends.mapError h

/-- The index when the node at `i` has been made into the node `made i`. -/
def indexWith (nodes : List Ops.NodeDef) (made : Nat → Option Nat) (n : Nat) :
    List (String × NodeInfo) :=
  (nodes.zipIdx n).map fun entry => (entry.1.name, ⟨entry.2, made entry.2⟩)

variable {nodeDef : Ops.NodeDef}

section Index

variable {nodes : List Ops.NodeDef} {made : Nat → Option Nat} {n : Nat}

theorem indexWith_names : (indexWith nodes made n).map Prod.fst = nodes.map Ops.NodeDef.name := by
  rw [indexWith, List.map_map]
  have hFst : (Prod.fst ∘ fun entry : Ops.NodeDef × Nat =>
      (entry.1.name, (⟨entry.2, made entry.2⟩ : NodeInfo))) = Ops.NodeDef.name ∘ Prod.fst := rfl
  rw [hFst, ← List.map_map, zipIdx_map_fst]

theorem mem_indexWith {entry : String × NodeInfo} :
    entry ∈ indexWith nodes made n ↔ ∃ i nodeDef, nodes[i]? = some nodeDef ∧
      entry = (nodeDef.name, ⟨n + i, made (n + i)⟩) := by
  rw [indexWith, List.mem_map]
  constructor
  · rintro ⟨⟨nodeDef, i⟩, hMem, rfl⟩
    obtain ⟨hLe, hGet⟩ := mk_mem_zipIdx_iff_le_and_getElem?_sub.mp hMem
    refine ⟨i - n, nodeDef, hGet, ?_⟩
    rw [Nat.add_sub_cancel' hLe]
  · rintro ⟨i, nodeDef, hGet, rfl⟩
    refine ⟨(nodeDef, n + i), mk_mem_zipIdx_iff_le_and_getElem?_sub.mpr ⟨by omega, ?_⟩, rfl⟩
    rwa [Nat.add_sub_cancel_left]

theorem lookup_eq_some {entries : List (String × NodeInfo)} (hNodup : (entries.map Prod.fst).Nodup)
    {name : String} {info : NodeInfo} :
    entries.lookup name = some info ↔ (name, info) ∈ entries := by
  induction entries with
  | nil => simp
  | cons entry rest ih =>
    obtain ⟨name', info'⟩ := entry
    rw [map_cons, nodup_cons] at hNodup
    rw [lookup_cons]
    by_cases hEq : name = name'
    · subst hEq
      have hNot : ∀ info, (name, info) ∉ rest :=
        fun _ hMem => hNodup.1 (mem_map.mpr ⟨_, hMem, rfl⟩)
      simp [hNot, eq_comm]
    · have hNe : (name == name') = false := beq_eq_false_iff_ne.mpr hEq
      rw [hNe]
      simp [hEq, ih hNodup.2]

section

variable (hNodup : (nodes.map Ops.NodeDef.name).Nodup)

include hNodup

theorem lookup_indexWith {name : String}
    {info : NodeInfo} : (indexWith nodes made 0).lookup name = some info ↔
      ∃ nodeDef, nodes[info.gdefIndex]? = some nodeDef ∧ nodeDef.name = name ∧
        info.node = made info.gdefIndex := by
  rw [lookup_eq_some (by rwa [indexWith_names]), mem_indexWith]
  constructor
  · rintro ⟨i, nodeDef, hGet, hEq⟩
    rw [Nat.zero_add] at hEq
    obtain ⟨rfl, rfl⟩ := Prod.mk.inj hEq
    exact ⟨nodeDef, hGet, rfl, rfl⟩
  · rintro ⟨nodeDef, hGet, rfl, hMade⟩
    refine ⟨info.gdefIndex, nodeDef, hGet, ?_⟩
    rw [Nat.zero_add, ← hMade]

theorem name_inj {i j : Nat} {d d' : Ops.NodeDef}
    (hi : nodes[i]? = some d) (hj : nodes[j]? = some d') (hName : d.name = d'.name) : i = j := by
  have hGet : (nodes.map Ops.NodeDef.name)[i]? = (nodes.map Ops.NodeDef.name)[j]? := by
    rw [getElem?_map, getElem?_map, hi, hj, map_some, map_some, hName]
  have hLt : i < (nodes.map Ops.NodeDef.name).length := by
    rw [length_map]
    exact (List.getElem?_eq_some_iff.mp hi).1
  exact (getElem?_inj hLt hNodup).mp hGet

theorem map_setNode {o id : Nat}
    (hGet : nodes[o]? = some nodeDef) :
    (indexWith nodes made 0).map (setNode id nodeDef.name) =
      indexWith nodes (update made o (some id)) 0 := by
  rw [indexWith, List.map_map]
  apply map_congr_left
  rintro ⟨d, i⟩ hMem
  have hi : nodes[i]? = some d := by
    simpa using (mk_mem_zipIdx_iff_le_and_getElem?_sub.mp hMem).2
  simp only [Function.comp, setNode]
  by_cases hEq : i = o
  · subst hEq
    obtain rfl : d = nodeDef := some.inj (hi.symm.trans hGet)
    rw [if_pos rfl, update_self]
  · have hNe : d.name ≠ nodeDef.name := fun hName => hEq (name_inj hNodup hi hGet hName)
    rw [if_neg hNe, update_of_ne hEq]

end

end Index

def Named (opts : Options) (nodeDef : Ops.NodeDef) : Prop :=
  isValidNodeName nodeDef.name opts.allowInternalOps = true ∧ nodeDef.op ≠ "" ∧
    (opts.expectDeviceSpec && nodeDef.device = "") = false

variable {nodes : List Ops.NodeDef} {n : Nat} {s : State R}
variable {s' : State R}

theorem buildNodeIndex_eq_ok {opts : Options} :
    buildNodeIndex opts nodes n s = .ok s' ↔
      (∀ nodeDef ∈ nodes, Named opts nodeDef ∧ nodeDef.name ∉ s.nameIndex.map Prod.fst) ∧
      (nodes.map Ops.NodeDef.name).Nodup ∧
      s' = { s with nameIndex := s.nameIndex ++ indexWith nodes (fun _ => none) n } := by
  induction nodes generalizing n s with
  | nil =>
    simp only [buildNodeIndex, indexWith]
    simp [eq_comm]
  | cons nodeDef rest ih =>
    simp only [buildNodeIndex, Fallible.bind_eq_ok, orFail_eq_ok, check_eq_ok, exists_unit, ih]
    simp only [map_append, map_cons, map_nil, mem_append, mem_singleton, decide_eq_true_eq,
      Bool.not_eq_true', not_or, forall_mem_cons, nodup_cons, append_assoc, List.mem_map,
      not_exists, not_and]
    constructor
    · rintro ⟨hValid, hNew, hOp, hDevice, hRest, hNodup, hEq⟩
      exact ⟨⟨⟨⟨hValid, hOp, hDevice⟩, hNew⟩, fun d hMem => ⟨(hRest d hMem).1, (hRest d hMem).2.1⟩⟩,
        ⟨fun d hMem => (hRest d hMem).2.2, hNodup⟩, hEq⟩
    · rintro ⟨⟨⟨⟨hValid, hOp, hDevice⟩, hNew⟩, hRest⟩, ⟨hOther, hNodup⟩, hEq⟩
      exact ⟨hValid, hNew, hOp, hDevice,
        fun d hMem => ⟨(hRest d hMem).1, (hRest d hMem).2, hOther d hMem⟩, hNodup, hEq⟩

theorem buildNodeIndex_ends {opts : Options} (hNone : ∀ entry ∈ s.nameIndex, entry.2.node = none) :
    Ends (fun _ => True)
      (fun f => f.state.graph = s.graph ∧ ∀ entry ∈ f.state.nameIndex, entry.2.node = none)
      (buildNodeIndex opts nodes n s) := by
  induction nodes generalizing n s with
  | nil => exact .ok trivial
  | cons nodeDef rest ih =>
    have hNew : ∀ entry ∈ s.nameIndex ++ [(nodeDef.name, (⟨n, none⟩ : NodeInfo))],
        entry.2.node = none := by
      intro entry hMem
      rcases mem_append.mp hMem with hMem | hMem
      · exact hNone entry hMem
      · rw [mem_singleton.mp hMem]
    refine (orFail_ends fun _ => ⟨rfl, hNone⟩).bind fun _ _ _ => ?_
    refine (orFail_ends fun _ => ⟨rfl, hNone⟩).bind fun _ _ _ => ?_
    refine (orFail_ends fun _ => ⟨rfl, hNew⟩).bind fun _ _ _ => ?_
    exact (orFail_ends fun _ => ⟨rfl, hNew⟩).bind fun _ _ _ => ih hNew

/-- The node that an input names is the one at `o`. -/
def namesNode (nodes : List Ops.NodeDef) (o : Nat) (input : String) : Bool :=
  nodes[o]?.map Ops.NodeDef.name = some (inputId input).1

/-- `outputs_`: a node stands there once for each of its inputs from the node at `o`. -/
def outputsOf (nodes : List Ops.NodeDef) (o : Nat) : List Nat :=
  nodes.zipIdx.flatMap fun entry =>
    List.replicate (entry.1.input.countP (namesNode nodes o)) entry.2

/-- The nodes as tasks that wait for their inputs. -/
def tasksOf (nodes : List Ops.NodeDef) : Countdown.Tasks Nat where
  start := (nodes.zipIdx.filter fun entry => entry.1.input.isEmpty).map Prod.snd
  outputs := outputsOf nodes
  need := fun n => (nodes[n]?.map pendingCount).getD 0
  start_nodup := by
    have hSnd : (nodes.zipIdx.map Prod.snd).Nodup := by
      rw [zipIdx_map_snd]
      exact nodup_range'
    exact hSnd.sublist (filter_sublist.map _)
  start_free := by
    intro i hStart o hMem
    obtain ⟨⟨d, i'⟩, hEntry, rfl⟩ := List.mem_map.mp hStart
    obtain ⟨hEntry, hEmpty⟩ := mem_filter.mp hEntry
    obtain ⟨⟨d', n⟩, hEntry', hMem⟩ := mem_flatMap.mp hMem
    obtain ⟨hCount, hEq⟩ := mem_replicate.mp hMem
    have hGet := (mk_mem_zipIdx_iff_le_and_getElem?_sub.mp hEntry).2
    have hGet' := (mk_mem_zipIdx_iff_le_and_getElem?_sub.mp hEntry').2
    simp only at hEq
    subst hEq
    obtain rfl : d = d' := some.inj (hGet.symm.trans hGet')
    rw [List.isEmpty_iff.mp hEmpty] at hCount
    exact hCount rfl

theorem mem_start {i : Nat} :
    i ∈ (tasksOf nodes).start ↔ ∃ d, nodes[i]? = some d ∧ d.input = [] := by
  simp only [tasksOf, List.mem_map, mem_filter]
  constructor
  · rintro ⟨⟨d, i'⟩, ⟨hEntry, hEmpty⟩, rfl⟩
    exact ⟨d, by simpa using (mk_mem_zipIdx_iff_le_and_getElem?_sub.mp hEntry).2,
      List.isEmpty_iff.mp hEmpty⟩
  · rintro ⟨d, hGet, hEmpty⟩
    exact ⟨(d, i), ⟨mk_mem_zipIdx_iff_le_and_getElem?_sub.mpr ⟨by omega, by simpa using hGet⟩,
      List.isEmpty_iff.mpr hEmpty⟩, rfl⟩

/-- The outputs with the node at `n` after each node that its inputs name. -/
def noteInputs (index : List (String × NodeInfo)) (n : Nat) (inputs : List String)
    (outputs : List (List Nat)) : List (List Nat) :=
  inputs.foldl (fun outputs input =>
    match index.lookup (inputId input).1 with
    | none => outputs
    | some info => outputs.modify info.gdefIndex (· ++ [n])) outputs

variable {inputs : List String}

theorem initFromInputs_eq_ok : initFromInputs nodeDef n inputs s = .ok s' ↔
      (∀ input ∈ inputs, (s.nameIndex.lookup (inputId input).1).isSome = true) ∧
      s' = { s with outputs := noteInputs s.nameIndex n inputs s.outputs } := by
  induction inputs generalizing s with
  | nil =>
    simp only [initFromInputs, Except.ok.injEq, not_mem_nil, false_implies, implies_true, true_and]
    exact eq_comm
  | cons input rest ih =>
    rw [initFromInputs, forall_mem_cons, noteInputs, foldl_cons]
    cases hLookup : s.nameIndex.lookup (inputId input).1 with
    | none => simp
    | some info => simp [ih, noteInputs]

section Outputs

variable {nodes : List Ops.NodeDef} {made : Nat → Option Nat}

theorem namesNode_iff {o : Nat} {input : String} : namesNode nodes o input = true ↔
    ∃ d, nodes[o]? = some d ∧ d.name = (inputId input).1 := by
  simp [namesNode]

theorem getD_modify (outputs : List (List Nat)) (i o n : Nat) (h : o < outputs.length) :
    (outputs.modify i (· ++ [n])).getD o [] =
      outputs.getD o [] ++ if i = o then [n] else [] := by
  rw [getD_eq_getElem?_getD, getD_eq_getElem?_getD, getElem?_modify, getElem?_eq_getElem h]
  split
  · rfl
  · simp

variable {outputs : List (List Nat)}

theorem getD_noteInputs (hNodup : (nodes.map Ops.NodeDef.name).Nodup) {n o : Nat}
    (hLength : o < outputs.length) :
    (noteInputs (indexWith nodes made 0) n inputs outputs).getD o [] =
      outputs.getD o [] ++ List.replicate (inputs.countP (namesNode nodes o)) n := by
  unfold noteInputs
  induction inputs generalizing outputs with
  | nil => simp
  | cons input rest ih =>
    rw [foldl_cons, countP_cons]
    cases hLookup : (indexWith nodes made 0).lookup (inputId input).1 with
    | none =>
      have hNot : namesNode nodes o input = false := by
        rw [Bool.eq_false_iff]
        intro hNames
        obtain ⟨d, hGet, hName⟩ := namesNode_iff.mp hNames
        have hSome : (indexWith nodes made 0).lookup (inputId input).1 = some ⟨o, made o⟩ :=
          (lookup_indexWith hNodup).mpr ⟨d, hGet, hName, rfl⟩
        rw [hLookup] at hSome
        cases hSome
      rw [ih hLength, hNot]
      rfl
    | some info =>
      obtain ⟨d, hGet, hName, -⟩ := (lookup_indexWith hNodup).mp hLookup
      rw [ih (by rwa [length_modify]), getD_modify _ _ _ _ hLength, append_assoc]
      congr 1
      by_cases hEq : info.gdefIndex = o
      · subst hEq
        have hNames : namesNode nodes info.gdefIndex input = true :=
          namesNode_iff.mpr ⟨d, hGet, hName⟩
        rw [if_pos rfl, hNames, singleton_append, if_pos rfl, replicate_succ]
      · have hNot : namesNode nodes o input = false := by
          rw [Bool.eq_false_iff]
          intro hNames
          obtain ⟨d', hGet', hName'⟩ := namesNode_iff.mp hNames
          exact hEq (name_inj hNodup hGet hGet' (hName.trans hName'.symm))
        rw [if_neg hEq, hNot]
        rfl

theorem length_noteInputs {n : Nat} {index : List (String × NodeInfo)} :
    (noteInputs index n inputs outputs).length = outputs.length := by
  unfold noteInputs
  induction inputs generalizing outputs with
  | nil => rfl
  | cons input rest ih =>
    rw [foldl_cons, ih]
    split
    · rfl
    · exact length_modify ..

end Outputs

/-- What `InitFromEdges` adds to a state for the nodes from `n` on. -/
structure Counted (nodes rest : List Ops.NodeDef) (n : Nat) (s s' : State R) : Prop where
  graph : s'.graph = s.graph
  nameIndex : s'.nameIndex = s.nameIndex
  backEdges : s'.backEdges = s.backEdges
  length : s'.outputs.length = s.outputs.length
  outputs : ∀ o < nodes.length, s'.outputs.getD o [] = s.outputs.getD o [] ++
    (rest.zipIdx n).flatMap fun entry =>
      List.replicate (entry.1.input.countP (namesNode nodes o)) entry.2
  ready : s'.work.ready =
    (((rest.zipIdx n).filter fun entry => entry.1.input.isEmpty).map Prod.snd).reverse ++
      s.work.ready
  pending : ∀ i, s'.work.pending i =
    if n ≤ i then (rest[i - n]?.map pendingCount).getD (s.work.pending i) else s.work.pending i

variable {nodes : List Ops.NodeDef} {n : Nat} {s : State R}

theorem initFromEdges_counted {rest : List Ops.NodeDef} {made : Nat → Option Nat}
    (hNodup : (nodes.map Ops.NodeDef.name).Nodup) (hIndex : s.nameIndex = indexWith nodes made 0)
    (hLength : s.outputs.length = nodes.length) (h : initFromEdges rest n s = .ok s')
    : Counted nodes rest n s s' := by
  induction rest generalizing n s with
  | nil =>
    obtain rfl : s = s' := Except.ok.inj h
    constructor <;> simp
  | cons nodeDef rest ih =>
    simp only [initFromEdges, Fallible.bind_eq_ok] at h
    obtain ⟨t, hInputs, hRest⟩ := h
    obtain ⟨-, rfl⟩ := initFromInputs_eq_ok.mp hInputs
    have hLength' : (noteInputs s.nameIndex n nodeDef.input s.outputs).length = nodes.length :=
      length_noteInputs.trans hLength
    have hCounted := ih (s := { initCount nodeDef n s with
      outputs := noteInputs s.nameIndex n nodeDef.input s.outputs }) hIndex hLength' hRest
    constructor
    · exact hCounted.graph
    · exact hCounted.nameIndex
    · exact hCounted.backEdges
    · exact hCounted.length.trans length_noteInputs
    · intro o hLt
      rw [hCounted.outputs o hLt, zipIdx_cons, flatMap_cons, ← append_assoc]
      congr 1
      simp only [hIndex]
      exact getD_noteInputs hNodup (hLength ▸ hLt)
    · rw [hCounted.ready, zipIdx_cons, filter_cons]
      simp only [initCount]
      cases nodeDef.input.isEmpty <;> simp
    · intro i
      rw [hCounted.pending]
      by_cases hSelf : i = n
      · subst hSelf
        rw [if_neg (Nat.not_succ_le_self _), if_pos (Nat.le_refl _), Nat.sub_self]
        exact update_self ..
      · simp only [initCount, update_of_ne hSelf]
        by_cases hLe : n + 1 ≤ i
        · have hSub : i - n = i - (n + 1) + 1 := by omega
          rw [if_pos hLe, if_pos (by omega), hSub, getElem?_cons_succ]
        · rw [if_neg hLe, if_neg (by omega)]

theorem initFromEdges_isOk :
    (∃ s', initFromEdges nodes n s = .ok s') ↔ ∀ nodeDef ∈ nodes, ∀ input ∈ nodeDef.input,
      (s.nameIndex.lookup (inputId input).1).isSome = true := by
  induction nodes generalizing n s with
  | nil => simp [initFromEdges]
  | cons nodeDef rest ih =>
    simp only [initFromEdges, Fallible.bind_eq_ok, initFromInputs_eq_ok, forall_mem_cons]
    constructor
    · rintro ⟨s', t, ⟨hKnown, rfl⟩, hRest⟩
      exact ⟨hKnown, (ih (s := { initCount nodeDef n s with
        outputs := noteInputs s.nameIndex n nodeDef.input s.outputs })).mp ⟨s', hRest⟩⟩
    · rintro ⟨hKnown, hRest⟩
      obtain ⟨s', hOk⟩ := (ih (n := n + 1) (s := { initCount nodeDef n s with
        outputs := noteInputs s.nameIndex n nodeDef.input s.outputs })).mpr hRest
      exact ⟨s', _, ⟨hKnown, rfl⟩, hOk⟩

theorem initFromInputs_ends :
    Fallible.Ends (fun s' => s'.graph = s.graph ∧ s'.nameIndex = s.nameIndex)
      (fun f => f.state.graph = s.graph ∧ f.state.nameIndex = s.nameIndex)
      (initFromInputs nodeDef n inputs s) := by
  induction inputs generalizing s with
  | nil => exact .ok ⟨rfl, rfl⟩
  | cons input rest ih =>
    rw [initFromInputs]
    split
    · exact .error ⟨rfl, rfl⟩
    · exact ih

theorem initFromEdges_ends :
    Fallible.Ends (fun s' => s'.graph = s.graph ∧ s'.nameIndex = s.nameIndex)
      (fun f => f.state.graph = s.graph ∧ f.state.nameIndex = s.nameIndex)
      (initFromEdges nodes n s) := by
  induction nodes generalizing n s with
  | nil => exact .ok ⟨rfl, rfl⟩
  | cons nodeDef rest ih =>
    refine initFromInputs_ends.bind fun t _ hSame => ?_
    obtain ⟨hGraph, hIndex⟩ := hSame
    apply ih.mono
    · intro s' h
      exact ⟨h.1.trans hGraph, h.2.trans hIndex⟩
    · intro f h
      exact ⟨h.1.trans hGraph, h.2.trans hIndex⟩

/-- The state in which `Convert` starts. -/
structure Prepared (nodes : List Ops.NodeDef) (s : State R) : Prop where
  index : s.nameIndex = indexWith nodes (fun _ => none) 0
  outputs : ∀ o, s.outputs.getD o [] = (tasksOf nodes).outputs o
  work : Countdown.Inv (tasksOf nodes) [] [] s.work
  backEdges : s.backEdges = []

theorem outputsOf_of_le {o : Nat} (h : nodes.length ≤ o) : outputsOf nodes o = [] := by
  have hNames : namesNode nodes o = fun _ => false := by
    funext input
    simp [namesNode, getElem?_eq_none h]
  simp [outputsOf, hNames]

theorem initFromEdges_prepared (hNodup : (nodes.map Ops.NodeDef.name).Nodup)
    (hIndex : s.nameIndex = indexWith nodes (fun _ => none) 0)
    (hOutputs : s.outputs = List.replicate nodes.length []) (hBack : s.backEdges = [])
    (hWork : s.work = ⟨[], fun _ => 0⟩) (h : initFromEdges nodes 0 s = .ok s') :
    Prepared nodes s' := by
  have hCounted := initFromEdges_counted hNodup hIndex (by rw [hOutputs]; simp) h
  constructor
  · rw [hCounted.nameIndex, hIndex]
  · intro o
    by_cases hLt : o < nodes.length
    · have hEmpty : (List.replicate nodes.length ([] : List Nat)).getD o [] = [] := by
        rw [getD_eq_getElem?_getD, getElem?_replicate_of_lt hLt, getD_some]
      rw [hCounted.outputs o hLt, hOutputs, hEmpty]
      rfl
    · have hLength := hCounted.length
      rw [hOutputs, length_replicate] at hLength
      have hLe : nodes.length ≤ o := Nat.le_of_not_lt hLt
      rw [getD_eq_getElem?_getD, getElem?_eq_none (by omega)]
      exact (outputsOf_of_le hLe).symm
  · have hReady := hCounted.ready
    rw [hWork, append_nil] at hReady
    apply Countdown.Inv.initial
    · rw [hReady]
      exact reverse_perm _
    · intro i
      rw [hCounted.pending, hWork]
      simp [tasksOf]
  · rw [hCounted.backEdges, hBack]

variable {R H : Type}

structure SameWork (s s' : State R) : Prop where
  nameIndex : s'.nameIndex = s.nameIndex
  work : s'.work = s.work
  outputs : s'.outputs = s.outputs

theorem SameWork.refl (s : State R) : SameWork s s := ⟨rfl, rfl, rfl⟩

theorem SameWork.trans {s t u : State R} (h : SameWork s t) (h' : SameWork t u) : SameWork s u :=
  ⟨h'.nameIndex.trans h.nameIndex, h'.work.trans h.work, h'.outputs.trans h.outputs⟩

/-- The nodes of `done` have been taken, and `made` holds the nodes of the graph. -/
structure Converting (nodes : List Ops.NodeDef) (done : List Nat) (made : Nat → Option Nat)
    (s : State R) : Prop where
  index : s.nameIndex = indexWith nodes made 0
  made_iff : ∀ i, (made i).isSome = true ↔ i ∈ done
  outputs : ∀ o, s.outputs.getD o [] = (tasksOf nodes).outputs o
  work : Countdown.Inv (tasksOf nodes) done (done.flatMap (tasksOf nodes).outputs) s.work
  admissible : Countdown.Admissible (tasksOf nodes) done

theorem Prepared.converting {nodes : List Ops.NodeDef} {s : State R} (h : Prepared nodes s) :
    Converting nodes [] (fun _ => none) s := by
  constructor
  · exact h.index
  · simp
  · exact h.outputs
  · exact h.work
  · exact .nil

def infoOf (nameIndex : List (String × NodeInfo)) (input : String) : InputInfo :=
  ⟨(inputId input).1, (nameIndex.lookup (inputId input).1).bind NodeInfo.node,
    if isControlInput input then kControlSlot else (inputId input).2⟩

def isDataBackEdge (g : Graph) (nameIndex : List (String × NodeInfo)) (input : String) : Bool :=
  !isControlInput input && ((infoOf nameIndex input).node.bind g.node).isNone

def OutputExists (g : Graph) (nameIndex : List (String × NodeInfo)) (input : String) : Prop :=
  isControlInput input = false → ∀ src, (infoOf nameIndex input).node.bind g.node = some src →
    (inputId input).2 < src.outputTypes.length

def ControlLast (inputs : List String) : Prop :=
  inputs.Pairwise fun input later => isControlInput input → isControlInput later

variable {nameIndex : List (String × NodeInfo)}

theorem collectInputs_eq_ok {g : Graph} {control back : Bool} {infos : List InputInfo}
    {result : List InputInfo × Bool} :
    collectInputs g nameIndex nodeDef inputs control infos back = .ok result ↔
      (control = true → ∀ input ∈ inputs, isControlInput input = true) ∧ ControlLast inputs ∧
      (∀ input ∈ inputs, OutputExists g nameIndex input) ∧
      result = (infos ++ inputs.map (infoOf nameIndex),
        back || inputs.any (isDataBackEdge g nameIndex)) := by
  induction inputs generalizing control infos back with
  | nil =>
    rw [collectInputs, Except.ok.injEq, map_nil, append_nil, any_nil, Bool.or_false]
    constructor
    · rintro rfl
      simp [ControlLast]
    · rintro ⟨-, -, -, rfl⟩
      rfl
  | cons input rest ih =>
    simp only [collectInputs, Fallible.bind_eq_ok, check_eq_ok, exists_unit, ControlLast,
      forall_mem_cons, pairwise_cons, map_cons, any_cons]
    cases hControl : isControlInput input with
    | true =>
      have hInfo : infoOf nameIndex input = ⟨(inputId input).1,
          (nameIndex.lookup (inputId input).1).bind NodeInfo.node, kControlSlot⟩ := by
        simp [infoOf, hControl]
      have hData : isDataBackEdge g nameIndex input = false := by simp [isDataBackEdge, hControl]
      have hExists : OutputExists g nameIndex input := by simp [OutputExists, hControl]
      simp only [Bool.true_or, if_pos, ih, hData, hInfo, hExists, true_and, append_assoc,
        forall_const]
      constructor
      · rintro ⟨hAll, hLast, hOutputs, hEq⟩
        exact ⟨fun _ => hAll, ⟨hAll, hLast⟩, hOutputs, hEq⟩
      · rintro ⟨-, ⟨hAll, hLast⟩, hOutputs, hEq⟩
        exact ⟨hAll, hLast, hOutputs, hEq⟩
    | false =>
      cases control with
      | true => simp
      | false =>
        have hInfo : infoOf nameIndex input = ⟨(inputId input).1,
            (nameIndex.lookup (inputId input).1).bind NodeInfo.node, (inputId input).2⟩ := by
          simp [infoOf, hControl]
        have hNode : (infoOf nameIndex input).node =
            (nameIndex.lookup (inputId input).1).bind NodeInfo.node := rfl
        rw [← hNode]
        cases hSrc : (infoOf nameIndex input).node.bind g.node with
        | none =>
          have hData : isDataBackEdge g nameIndex input = true := by
            simp [isDataBackEdge, hControl, hSrc]
          have hExists : OutputExists g nameIndex input := by simp [OutputExists, hSrc]
          simp only [Bool.not_false, Bool.or_true, Bool.or_false, Bool.false_eq_true, if_false,
            false_implies, true_and, ih, hData, hExists, ControlLast, append_assoc,
            singleton_append, Bool.true_or, hNode, ← hInfo, implies_true]
        | some src =>
          have hData : isDataBackEdge g nameIndex input = false := by
            simp [isDataBackEdge, hSrc]
          have hExists : OutputExists g nameIndex input ↔
              (inputId input).2 < src.outputTypes.length := by
            simp [OutputExists, hControl, hSrc]
          simp only [Bool.not_false, Bool.or_true, Bool.or_false, Bool.false_eq_true, if_false,
            false_implies, true_and, Fallible.bind_eq_ok, check_eq_ok, exists_unit,
            decide_eq_true_eq, ih, hData, hExists, append_assoc, hNode, ← hInfo, implies_true]
          constructor
          · rintro ⟨hLt, hLast, hOutputs, hEq⟩
            exact ⟨hLast, ⟨hLt, hOutputs⟩, hEq⟩
          · rintro ⟨hLast, ⟨hLt, hOutputs⟩, hEq⟩
            exact ⟨hLt, hLast, hOutputs, hEq⟩

theorem infoOf_node {input : String} {src : Nat} (h : (infoOf nameIndex input).node = some src) :
    ∃ entry ∈ nameIndex, entry.2.node = some src := by
  obtain ⟨found, hLookup, hFound⟩ := bind_eq_some_iff.mp h
  obtain ⟨before, after, hSplit, -⟩ := lookup_eq_some_iff.mp hLookup
  refine ⟨((inputId input).1, found), ?_, hFound⟩
  rw [hSplit]
  simp

namespace Converting

variable {nodes : List Ops.NodeDef} {done : List Nat} {made : Nat → Option Nat} {s : State R}

theorem lt_length (h : Converting nodes done made s) {i : Nat} (hMem : i ∈ s.work.ready ++ done) :
    i < nodes.length := by
  rcases (h.work.started i).mp hMem with hStart | ⟨hPos, -⟩
  · obtain ⟨d, hGet, -⟩ := mem_start.mp hStart
    exact (List.getElem?_eq_some_iff.mp hGet).1
  · by_contra hGe
    have hNone : nodes[i]? = none := getElem?_eq_none (Nat.le_of_not_lt hGe)
    simp [tasksOf, hNone] at hPos

variable {o : Nat} {rest : List Nat}

theorem not_made (h : Converting nodes done made s) (hReady : s.work.ready = o :: rest) :
    made o = none := by
  have hNodup := h.work.nodup
  rw [hReady] at hNodup
  have hNot : o ∉ done := fun hMem =>
    (nodup_cons.mp hNodup).1 (mem_append_right _ hMem)
  rw [← not_isSome_iff_eq_none, h.made_iff]
  exact hNot

theorem next (h : Converting nodes done made s) (hReady : s.work.ready = o :: rest) {id : Nat}
    (hIndex : s'.nameIndex = indexWith nodes (update made o (some id)) 0)
    (hOutputs : s'.outputs = s.outputs)
    (hWork : s'.work = Countdown.signals ⟨rest, s.work.pending⟩ (s.outputs.getD o [])) :
    Converting nodes (o :: done) (update made o (some id)) s' := by
  have hBefore : Countdown.Inv (tasksOf nodes) done (done.flatMap (tasksOf nodes).outputs)
      ⟨o :: rest, s.work.pending⟩ := by
    rw [← hReady]
    exact h.work
  constructor
  · exact hIndex
  · intro i
    by_cases hEq : i = o
    · simp [hEq]
    · rw [update_of_ne hEq, h.made_iff]
      simp [hEq]
  · intro i
    rw [hOutputs]
    exact h.outputs i
  · rw [hWork, h.outputs o]
    exact hBefore.finish
  · exact hBefore.admissible h.admissible

end Converting

end TensorFlowOnSpark.Construction
