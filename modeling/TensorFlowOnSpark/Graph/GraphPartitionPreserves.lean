import TensorFlowOnSpark.Graph.GraphPartitionWiring

/-!
# Partitioning preserves loop-free graphs

The nodes of all partitions, with each send followed by its recv, have the meaning of the
graph: the same nodes, the same sources of the data inputs, a path for each control edge
and no cycle.
-/

namespace TensorFlowOnSpark

open Dependency Relation List Option Nat DupRecvKey Bool

universe u

variable {N : Type u}

def NodeInput.isData : NodeInput → Bool
  | .control _ => false
  | .data _ _ => true

def paired (x y : NodeDef N) : Bool :=
  match x.op, y.op with
  | .send _ a, .recv _ b _ =>
    a.tensorName = b.tensorName && a.sendDevice = b.sendDevice && a.recvDevice = b.recvDevice
  | _, _ => false

def NodeDef.isSend (x : NodeDef N) : Bool :=
  match x.op with
  | .send _ _ => true
  | _ => false

def NodeDef.isRecv (x : NodeDef N) : Bool :=
  match x.op with
  | .recv _ _ _ => true
  | _ => false

def NodeDef.original? (x : NodeDef N) : Option N :=
  match x.op with
  | .original v => some v
  | _ => none

/-- The node and the slot that a data input takes its value from, when the send and the
recv of each pair are contracted. -/
def contractedSource (defs : List (String × NodeDef N)) : NodeInput → Option (String × Nat)
  | .control _ => none
  | .data srcName slot =>
    (defs.find? fun d => d.2.name = srcName).bind fun d =>
      if d.2.isRecv then
        (defs.find? fun c => paired c.2 d.2).bind fun c =>
          match c.2.inputs with
          | [.data srcName slot] => some (srcName, slot)
          | _ => none
      else some (srcName, slot)

/-- The node and the slot that the graph connects to a slot of `v`. -/
def PlacedGraph.sourceOf (g : PlacedGraph N) (v : N) (slot : Nat) : Option (String × Nat) :=
  ((g.inEdges v).find? fun e => e.dstInput = some slot).bind fun e =>
    e.slots.map fun slots => (g.name e.src, slots.1)

/-- The node named `b` has an input from the node named `a`, or they are a pair. -/
def Precedes (defs : List (String × NodeDef N)) (a b : String) : Prop :=
  (∃ d ∈ defs, d.2.name = b ∧ ∃ i ∈ d.2.inputs, i.srcName = a) ∨
    ∃ c ∈ defs, ∃ d ∈ defs, paired c.2 d.2 ∧ c.2.name = a ∧ d.2.name = b

/-- `new_name` makes names that are unique. -/
structure UniqueNames (opts : PartitionOptions N) (g : PlacedGraph N) : Prop where
  distinct : ∀ i j a b, opts.newName i a = opts.newName j b → i = j
  fresh : ∀ i a v, opts.newName i a ≠ g.name v

theorem toDigits_injective {i j : Nat} (h : toDigits 10 i = toDigits 10 j) : i = j := by
  rw [← ofDigitChars_ten_toDigits (n := i), h, ofDigitChars_ten_toDigits]

theorem eq_of_append_cons {α : Type u} {a : α} {l l' r r' : List α} (h : a ∉ l) (h' : a ∉ l')
    (hEq : l ++ a :: r = l' ++ a :: r') : l = l' := by
  induction l generalizing l' with
  | nil =>
    cases l' with
    | nil => rfl
    | cons b l' =>
      rw [nil_append, cons_append, cons.injEq] at hEq
      exact absurd (hEq.1 ▸ mem_cons_self) h'
  | cons b l ih =>
    cases l' with
    | nil =>
      rw [nil_append, cons_append, cons.injEq] at hEq
      exact absurd (hEq.1 ▸ mem_cons_self) h
    | cons b' l' =>
      rw [cons_append, cons_append, cons.injEq] at hEq
      rw [hEq.1, ih (fun hMem => h (mem_cons_of_mem _ hMem))
        (fun hMem => h' (mem_cons_of_mem _ hMem)) hEq.2]

theorem tensorName_injective {g : PlacedGraph N} {e e' : Edge N}
    (h : tensorName g e = tensorName g e') : e.id = e'.id := by
  have hList := congrArg String.toList h
  simp only [tensorName, String.toList_append, append_assoc] at hList
  have hTail := append_cancel_left hList
  rw [toString_eq_repr, toString_eq_repr, toList_repr, toList_repr] at hTail
  exact toDigits_injective
    (eq_of_append_cons underscore_not_in_toDigits underscore_not_in_toDigits hTail)

namespace Placement

variable {p : Placement N} {ts : List (Transfer N)} {t : Transfer N}
    {defs : List (String × NodeDef N)}

inductive At (p : Placement N) (ts : List (Transfer N)) : String → N × Nat → Prop
  | node (v : N) : At p ts (p.g.name v) (v, 0)
  | stage (t : Transfer N) (i : Nat) (hMem : t ∈ ts) (hStage : t.base + i ∈ t.numbers) :
    At p ts (p.newName t i) (t.edge.src, i + 1)

theorem mem_numbers {i : Nat} :
    t.base + i ∈ t.numbers ↔ i < if t.edge.isControlEdge then 4 else 2 := by
  simp [Transfer.numbers]

end Placement

section Wired

variable [DecidableEq N] {p : Placement N} {done : List N} {defs : List (String × NodeDef N)}
  {s : PartitionState N} {ts : List (Transfer N)}

namespace Placement

section

variable (h : p.Wiring done defs s ts)

include h

theorem Wiring.eq_of_number {t t' : Transfer N} (hMem : t ∈ ts)
    (hMem' : t' ∈ ts) {i : Nat} (hi : i ∈ t.numbers) (hi' : i ∈ t'.numbers) : t = t' := by
  have hNodup : (ts.flatMap Transfer.numbers).Nodup := by
    rw [h.numbers]
    exact nodup_range
  have hApart := (nodup_flatMap.mp hNodup).2
  have hSymm : Std.Symm (Function.onFun Disjoint (Transfer.numbers (N := N))) :=
    ⟨fun _ _ hDisjoint => hDisjoint.symm⟩
  by_contra hNe
  exact hApart.forall hMem hMem' hNe hi hi'

theorem Wiring.eq_of_tensorName {t t' : Transfer N} (hMem : t ∈ ts)
    (hMem' : t' ∈ ts) (hName : tensorName p.g t.edge = tensorName p.g t'.edge) : t = t' := by
  have hEdge := p.g.id_injective _ _ _ (h.split t hMem).1 _ (h.split t' hMem').1
    (tensorName_injective hName)
  exact inj_on_of_nodup_map h.keys hMem hMem' (congrArg p.key hEdge)

theorem Wiring.at_unique (hNames : UniqueNames p.opts p.g)
    {name : String} {q q' : N × Nat} (hAt : p.At ts name q) (hAt' : p.At ts name q') : q = q' := by
  cases hAt with
  | node v =>
    generalize hEq : p.g.name v = name at hAt'
    cases hAt' with
    | node v' => rw [p.g.name_injective hEq]
    | stage t i => exact absurd hEq.symm (hNames.fresh _ _ _)
  | stage t i hMem hStage =>
    generalize hEq : p.newName t i = name at hAt'
    cases hAt' with
    | node v' => exact absurd hEq (hNames.fresh _ _ _)
    | stage t' i' hMem' hStage' =>
      have hNumber : t.base + i = t'.base + i' := hNames.distinct _ _ _ _ hEq
      obtain rfl := h.eq_of_number hMem hMem' hStage (hNumber ▸ hStage')
      rw [add_left_cancel hNumber]

theorem Wiring.mem_iff {d : String × NodeDef N} :
    d ∈ defs ↔ (∃ v ∈ done, p.wired s.dupRecv v = d) ∨ ∃ t ∈ ts, d ∈ p.transferDefs t := by
  rw [h.defs.mem_iff, mem_append, List.mem_map, mem_flatMap]

end

variable {t : Transfer N} {d : String × NodeDef N}

omit [DecidableEq N] in
theorem mem_transferDefs (hMem : d ∈ p.transferDefs t) :
    (t.edge.isControlEdge = true ∧ d = (p.loc t.edge.src, p.dummyDef t)) ∨
      d = (p.loc t.edge.src, p.sendDef t) ∨ d = (p.loc t.edge.dst, p.recvDef t) ∨
      (t.edge.isControlEdge = true ∧ d = (p.loc t.edge.dst, p.identityDef t)) := by
  unfold transferDefs at hMem
  split at hMem
  · rename_i hControl
    simpa [hControl] using hMem
  · rename_i hData
    simpa [hData] using hMem

omit [DecidableEq N] in
theorem at_send (hMem : t ∈ ts) :
    p.At ts (p.sendName t) (t.edge.src, if t.edge.isControlEdge then 2 else 1) := by
  have hAt := At.stage (p := p) t (if t.edge.isControlEdge then 1 else 0) hMem
    (mem_numbers.mpr (by split <;> omega))
  unfold sendName
  split
  · rename_i hControl
    simpa [hControl] using hAt
  · rename_i hData
    simpa [hData] using hAt

omit [DecidableEq N] in
theorem at_recv (hMem : t ∈ ts) :
    p.At ts (p.recvName t) (t.edge.src, if t.edge.isControlEdge then 3 else 2) := by
  have hAt := At.stage (p := p) t (if t.edge.isControlEdge then 2 else 1) hMem
    (mem_numbers.mpr (by split <;> omega))
  unfold recvName
  split
  · rename_i hControl
    simpa [hControl] using hAt
  · rename_i hData
    simpa [hData] using hAt

omit [DecidableEq N] in
theorem at_out (hMem : t ∈ ts) :
    p.At ts (p.outName t) (t.edge.src, if t.edge.isControlEdge then 4 else 2) := by
  have hAt := At.stage (p := p) t (if t.edge.isControlEdge then 3 else 1) hMem
    (mem_numbers.mpr (by split <;> omega))
  unfold outName
  split
  · rename_i hControl
    simpa [hControl] using hAt
  · rename_i hData
    simpa [hData] using hAt

omit [DecidableEq N] in
theorem srcName_directInput (e : Edge N) : (directInput p.g e).srcName = p.g.name e.src := by
  unfold directInput
  split <;> rfl

omit [DecidableEq N] in
theorem srcName_inputFrom (e : Edge N) (name : String) : (inputFrom e name).srcName = name := by
  unfold inputFrom
  split <;> rfl

variable {e : Edge N}

variable {v : N}

theorem Wiring.wire_cases (h : p.Wiring done defs s ts) (hv : v ∈ done)
    (he : e ∈ p.opInputs v) :
    (p.isLocal e ∧ p.wire s.dupRecv e = directInput p.g e) ∨
      ∃ t ∈ ts, p.isLocal e = false ∧ p.key t.edge = p.key e ∧
        p.wire s.dupRecv e = inputFrom e (p.outName t) := by
  cases hLocal : p.isLocal e with
  | true =>
    left
    rw [wire, if_pos hLocal]
    exact ⟨rfl, rfl⟩
  | false =>
    right
    obtain ⟨name, hSome⟩ := isSome_iff_exists.mp (h.covered v hv e he hLocal)
    obtain ⟨t, hMem, hKey, rfl⟩ := (h.dup _ _).mp hSome
    refine ⟨t, hMem, rfl, hKey, ?_⟩
    rw [wire, if_neg (by simp [hLocal]), hSome]
    rfl

theorem mem_opInputs (he : e ∈ p.opInputs v) :
    e ∈ p.g.inEdges v ∧ p.g.isOp e.src := by
  obtain ⟨hMem, hSrc⟩ := mem_filter.mp he
  exact ⟨mem_inEdges_of_arranged hMem, hSrc⟩

theorem Wiring.paired_iff (h : p.Wiring done defs s ts) {c : String × NodeDef N} (hc : c ∈ defs)
    (hd : d ∈ defs) : paired c.2 d.2 ↔
      ∃ t ∈ ts, c = (p.loc t.edge.src, p.sendDef t) ∧ d = (p.loc t.edge.dst, p.recvDef t) := by
  constructor
  · intro hPair
    rcases h.mem_iff.mp hc with ⟨v, -, rfl⟩ | ⟨t, ht, hMem⟩
    · cases hPair
    · rcases mem_transferDefs hMem with ⟨-, rfl⟩ | rfl | rfl | ⟨-, rfl⟩
      · cases hPair
      · rcases h.mem_iff.mp hd with ⟨v, -, rfl⟩ | ⟨t', ht', hMem'⟩
        · cases hPair
        · rcases mem_transferDefs hMem' with ⟨-, rfl⟩ | rfl | rfl | ⟨-, rfl⟩
          · cases hPair
          · cases hPair
          · simp only [paired, sendDef, recvDef, and_eq_true, decide_eq_true_eq] at hPair
            obtain rfl := h.eq_of_tensorName ht ht' hPair.1.1
            exact ⟨t, ht, rfl, rfl⟩
          · cases hPair
      · cases hPair
      · cases hPair
  · rintro ⟨t, -, rfl, rfl⟩
    simp [paired, sendDef, recvDef]

theorem Wiring.precedes_at (h : p.Wiring done defs s ts) {a b : String}
    (hStep : Precedes defs a b) :
    ∃ q q', p.At ts a q ∧ p.At ts b q' ∧ TransGen (Staged p.g.Feeds) q q' := by
  rcases hStep with ⟨d, hd, rfl, i, hi, rfl⟩ | ⟨c, hc, d, hd, hPair, rfl, rfl⟩
  · rcases h.mem_iff.mp hd with ⟨v, hv, rfl⟩ | ⟨t, ht, hMem⟩
    · obtain ⟨e, he, rfl⟩ := mem_map.mp hi
      obtain ⟨hEdge, -⟩ := mem_opInputs he
      rcases h.wire_cases hv he with ⟨-, hWire⟩ | ⟨t, ht, -, hKey, hWire⟩
      · rw [hWire, srcName_directInput]
        exact ⟨_, _, .node _, .node _, .single (Or.inl ⟨e, hEdge, rfl⟩)⟩
      · rw [hWire, srcName_inputFrom]
        refine ⟨_, _, at_out ht, .node _, .single (Or.inl ⟨e, hEdge, ?_⟩)⟩
        exact (congrArg srcNode hKey).symm
    · rcases mem_transferDefs hMem with ⟨hControl, rfl⟩ | rfl | rfl | ⟨hControl, rfl⟩
      · rw [mem_singleton.mp hi]
        exact ⟨_, _, .node _, .stage t 0 ht (mem_numbers.mpr (by split <;> omega)),
          .single (Or.inr ⟨rfl, zero_lt_one⟩)⟩
      · refine ⟨(t.edge.src, if t.edge.isControlEdge then 1 else 0), _, ?_, at_send ht,
          .single (Or.inr ⟨rfl, by dsimp only; split <;> omega⟩)⟩
        rw [mem_singleton.mp hi]
        split
        · exact .stage t 0 ht (mem_numbers.mpr (by split <;> omega))
        · rw [srcName_directInput]
          exact .node _
      · simp only [recvDef] at hi
        split at hi
        · rw [mem_singleton.mp hi]
          exact ⟨_, _, at_send ht, at_recv ht,
            .single (Or.inr ⟨rfl, by dsimp only; split <;> omega⟩)⟩
        · cases hi
      · rw [mem_singleton.mp hi]
        refine ⟨_, _, at_recv ht, at_out ht, .single (Or.inr ⟨rfl, ?_⟩)⟩
        simp only [hControl, if_true]
        omega
  · obtain ⟨t, ht, rfl, rfl⟩ := (h.paired_iff hc hd).mp hPair
    exact ⟨_, _, at_send ht, at_recv ht, .single (Or.inr ⟨rfl, by dsimp only; split <;> omega⟩)⟩

omit [DecidableEq N] in
theorem map_name_transferDefs (t : Transfer N) :
    (p.transferDefs t).map (fun d => d.2.name) =
      (List.range (if t.edge.isControlEdge then 4 else 2)).map (p.newName t) := by
  unfold transferDefs
  split
  · rename_i hControl
    simp [dummyDef, sendDef, recvDef, identityDef, sendName, recvName, outName, hControl,
      range_succ]
  · rename_i hData
    simp [sendDef, recvDef, sendName, recvName, hData, range_succ]

theorem Wiring.nodup_names (h : p.Wiring done defs s ts) (hDone : done.Nodup)
    (hNames : UniqueNames p.opts p.g) : (defs.map fun d => d.2.name).Nodup := by
  rw [(h.defs.map _).nodup_iff, map_append, nodup_append, List.map_map, map_flatMap]
  refine ⟨hDone.map p.g.name_injective, nodup_flatMap.mpr ⟨?_, ?_⟩, ?_⟩
  · intro t _
    rw [map_name_transferDefs]
    apply nodup_range.map
    intro i j hEq
    exact add_left_cancel (hNames.distinct _ _ _ _ hEq)
  · have hNumbers : (ts.flatMap Transfer.numbers).Nodup := by
      rw [h.numbers]
      exact nodup_range
    apply (nodup_flatMap.mp hNumbers).2.imp
    intro t t' hApart
    simp only [map_name_transferDefs]
    intro name hMem hMem'
    obtain ⟨i, hi, rfl⟩ := mem_map.mp hMem
    obtain ⟨j, hj, hEq⟩ := mem_map.mp hMem'
    rw [mem_range] at hi hj
    have hNumber := hNames.distinct _ _ _ _ hEq
    exact hApart (mem_numbers.mpr hi) (hNumber ▸ mem_numbers.mpr hj)
  · rintro name hMem name' hMem' rfl
    obtain ⟨v, -, rfl⟩ := mem_map.mp hMem
    obtain ⟨t, -, hName⟩ := mem_flatMap.mp hMem'
    rw [map_name_transferDefs] at hName
    obtain ⟨i, -, hEq⟩ := mem_map.mp hName
    exact hNames.fresh _ _ _ hEq

variable {q : String × NodeDef N → Bool}

omit [DecidableEq N] in
theorem find?_eq_of_unique
    (hMem : d ∈ defs) (hq : q d = true) (hUnique : ∀ c ∈ defs, q c = true → c = d) :
    defs.find? q = some d := by
  cases hFind : defs.find? q with
  | none => exact absurd hq (by simpa using find?_eq_none.mp hFind d hMem)
  | some c => rw [hUnique c (mem_of_find?_eq_some hFind) (find?_some hFind)]

omit [DecidableEq N] in
theorem find?_name (hNodup : (defs.map fun d => d.2.name).Nodup)
    (hMem : d ∈ defs) : defs.find? (fun c => c.2.name = d.2.name) = some d :=
  find?_eq_of_unique hMem (by simp) fun _ hc hName =>
    inj_on_of_nodup_map hNodup hc hMem (of_decide_eq_true hName)

variable {t : Transfer N}

section

variable (h : p.Wiring done defs s ts)
include h

theorem Wiring.mem_send (ht : t ∈ ts) : (p.loc t.edge.src, p.sendDef t) ∈ defs := by
  refine h.mem_iff.mpr (Or.inr ⟨t, ht, ?_⟩)
  unfold transferDefs
  split <;> simp

theorem Wiring.mem_recv (ht : t ∈ ts) : (p.loc t.edge.dst, p.recvDef t) ∈ defs := by
  refine h.mem_iff.mpr (Or.inr ⟨t, ht, ?_⟩)
  unfold transferDefs
  split <;> simp

theorem Wiring.mem_dummy (ht : t ∈ ts)
    (hControl : t.edge.isControlEdge) : (p.loc t.edge.src, p.dummyDef t) ∈ defs := by
  refine h.mem_iff.mpr (Or.inr ⟨t, ht, ?_⟩)
  simp [transferDefs, hControl]

theorem Wiring.mem_identity (ht : t ∈ ts)
    (hControl : t.edge.isControlEdge) : (p.loc t.edge.dst, p.identityDef t) ∈ defs := by
  refine h.mem_iff.mpr (Or.inr ⟨t, ht, ?_⟩)
  simp [transferDefs, hControl]

theorem Wiring.mem_wired {v : N} (hv : v ∈ done) :
    p.wired s.dupRecv v ∈ defs := h.mem_iff.mpr (Or.inl ⟨v, hv, rfl⟩)

theorem Wiring.eq_of_recvDef {t' : Transfer N} (ht : t ∈ ts)
    (ht' : t' ∈ ts) (hRecv : p.recvDef t = p.recvDef t') : t = t' := by
  have hOp : NodeOp.recv (p.dstHost t) (p.attrs t.edge) (edgeType p.g t.edge) =
      .recv (p.dstHost t') (p.attrs t'.edge) (edgeType p.g t'.edge) := congrArg NodeDef.op hRecv
  injection hOp with _ hAttrs
  exact h.eq_of_tensorName ht ht' (congrArg SendRecvAttrs.tensorName hAttrs)

theorem Wiring.eq_of_sendDef {t' : Transfer N} (ht : t ∈ ts)
    (ht' : t' ∈ ts) (hSend : p.sendDef t = p.sendDef t') : t = t' := by
  have hOp : NodeOp.send (p.srcHost t) (p.attrs t.edge) =
      .send (p.srcHost t') (p.attrs t'.edge) := congrArg NodeDef.op hSend
  injection hOp with _ hAttrs
  exact h.eq_of_tensorName ht ht' (congrArg SendRecvAttrs.tensorName hAttrs)

theorem Wiring.find?_send (ht : t ∈ ts) :
    defs.find? (fun c => paired c.2 (p.recvDef t)) = some (p.loc t.edge.src, p.sendDef t) := by
  apply find?_eq_of_unique (h.mem_send ht)
  · exact (h.paired_iff (h.mem_send ht) (h.mem_recv ht)).mpr ⟨t, ht, rfl, rfl⟩
  · intro c hc hPair
    obtain ⟨t', ht', rfl, hRecv⟩ := (h.paired_iff hc (h.mem_recv ht)).mp hPair
    rw [h.eq_of_recvDef ht ht' (congrArg Prod.snd hRecv)]

end

omit [DecidableEq N] in
theorem length_filter_eq_one
    (hNodup : defs.Nodup) (hMem : d ∈ defs) (hq : ∀ c ∈ defs, q c = true ↔ c = d) :
    (defs.filter q).length = 1 := by
  have hPerm : (defs.filter q).Perm [d] := by
    rw [perm_ext_iff_of_nodup (hNodup.filter _) (nodup_singleton d)]
    intro c
    rw [mem_filter, mem_singleton]
    constructor
    · rintro ⟨hc, hTest⟩
      exact (hq c hc).mp hTest
    · rintro rfl
      exact ⟨hMem, (hq c hMem).mpr rfl⟩
  exact hPerm.length_eq

theorem Wiring.pairs (h : p.Wiring done defs s ts) (hNodup : defs.Nodup) :
    (∀ c ∈ defs, c.2.isSend → (defs.filter fun d => paired c.2 d.2).length = 1) ∧
      ∀ d ∈ defs, d.2.isRecv → (defs.filter fun c => paired c.2 d.2).length = 1 := by
  constructor
  · intro c hc hSend
    rcases h.mem_iff.mp hc with ⟨v, -, rfl⟩ | ⟨t, ht, hMem⟩
    · cases hSend
    · rcases mem_transferDefs hMem with ⟨-, rfl⟩ | rfl | rfl | ⟨-, rfl⟩
      · cases hSend
      · apply length_filter_eq_one hNodup (h.mem_recv ht)
        intro d hd
        rw [h.paired_iff (h.mem_send ht) hd]
        constructor
        · rintro ⟨t', ht', hEq, rfl⟩
          rw [h.eq_of_sendDef ht ht' (congrArg Prod.snd hEq)]
        · rintro rfl
          exact ⟨t, ht, rfl, rfl⟩
      · cases hSend
      · cases hSend
  · intro d hd hRecv
    rcases h.mem_iff.mp hd with ⟨v, -, rfl⟩ | ⟨t, ht, hMem⟩
    · cases hRecv
    · rcases mem_transferDefs hMem with ⟨-, rfl⟩ | rfl | rfl | ⟨-, rfl⟩
      · cases hRecv
      · cases hRecv
      · apply length_filter_eq_one hNodup (h.mem_send ht)
        intro c hc
        rw [h.paired_iff hc (h.mem_recv ht)]
        constructor
        · rintro ⟨t', ht', rfl, hEq⟩
          rw [h.eq_of_recvDef ht ht' (congrArg Prod.snd hEq)]
        · rintro rfl
          exact ⟨t, ht, rfl, rfl⟩
      · cases hRecv

section Sources

variable (h : p.Wiring done defs s ts) (hNodup : (defs.map fun d => d.2.name).Nodup)
  (hDone : ∀ v, v ∈ done ↔ p.g.isOp v = true)

include h hNodup hDone

theorem Wiring.contractedSource_wire {v : N} (hv : v ∈ done) (he : e ∈ p.opInputs v)
    {slots : Nat × Nat} (hSlots : e.slots = some slots) :
    contractedSource defs (p.wire s.dupRecv e) = some (p.g.name e.src, slots.1) := by
  obtain ⟨-, hSrc⟩ := mem_opInputs he
  rcases h.wire_cases hv he with ⟨-, hWire⟩ | ⟨t, ht, -, hKey, hWire⟩
  · have hFind := find?_name hNodup (h.mem_wired ((hDone e.src).mpr hSrc))
    rw [hWire, directInput, hSlots]
    simp only [contractedSource]
    rw [show p.g.name e.src = (p.wired s.dupRecv e.src).2.name from rfl, hFind]
    rfl
  · have hData : t.edge.isControlEdge = false := by
      have hSlot : t.edge.slots.map Prod.fst = e.slots.map Prod.fst :=
        congrArg srcOutputSlot hKey
      rw [hSlots] at hSlot
      obtain ⟨slots', hSome, -⟩ := map_eq_some_iff.mp hSlot
      rw [Edge.isControlEdge, hSome]
      rfl
    have hFind := find?_name hNodup (h.mem_recv ht)
    have hOut : p.outName t = (p.loc t.edge.dst, p.recvDef t).2.name := by
      simp [outName, recvDef, recvName, hData]
    have hInput : inputFrom e (p.outName t) = .data (p.outName t) 0 := by
      simp [inputFrom, Edge.isControlEdge, hSlots]
    rw [hWire, hInput]
    simp only [contractedSource]
    rw [hOut, hFind]
    simp only [bind_some]
    have hIsRecv : (p.recvDef t).isRecv := rfl
    rw [if_pos hIsRecv, h.find?_send ht]
    have hSource : t.edge.src = e.src := congrArg srcNode hKey
    have hSlot : t.edge.slots.map Prod.fst = e.slots.map Prod.fst :=
      congrArg srcOutputSlot hKey
    rw [hSlots] at hSlot
    obtain ⟨slots', hSome, hFirst⟩ := map_eq_some_iff.mp hSlot
    simp only [bind_some, sendDef, hData, false_eq_true, if_false, directInput, hSome, hSource]
    rw [hFirst]

end Sources

omit [DecidableEq N] in
theorem slots_eq_of_key {e e' : Edge N} (hKey : p.key e = p.key e') :
    e.isControlEdge = e'.isControlEdge := by
  have hSlot : e.slots.map Prod.fst = e'.slots.map Prod.fst :=
    congrArg srcOutputSlot hKey
  simpa [Edge.isControlEdge] using congrArg Option.isNone hSlot

theorem Wiring.path (h : p.Wiring done defs s ts) (hPlain : p.Plain) (hv : v ∈ done)
    (hMem : e ∈ p.g.inEdges v) (hControl : e.isControlEdge) (hSrc : p.g.isOp e.src)
    : TransGen (Precedes defs) (p.g.name e.src) (p.g.name v) := by
  have he : e ∈ p.opInputs v := by
    refine mem_filter.mpr ⟨mem_append_right _ (mem_filter.mpr ⟨hMem, ?_⟩), hSrc⟩
    simp [hControl, isControlFlowEdge_eq_false hPlain]
  have hInput : p.wire s.dupRecv e ∈ (p.wired s.dupRecv v).2.inputs := mem_map_of_mem he
  rcases h.wire_cases hv he with ⟨-, hWire⟩ | ⟨t, ht, -, hKey, hWire⟩
  · apply TransGen.single
    refine Or.inl ⟨_, h.mem_wired hv, rfl, _, hInput, ?_⟩
    rw [hWire, srcName_directInput]
  · have hControl' : t.edge.isControlEdge := (slots_eq_of_key hKey).trans hControl
    have hSource : t.edge.src = e.src := congrArg srcNode hKey
    have hDummy : Precedes defs (p.g.name e.src) (p.newName t 0) := by
      refine Or.inl ⟨_, h.mem_dummy ht hControl', rfl, _, mem_singleton_self _, ?_⟩
      rw [← hSource]
      rfl
    have hSend : Precedes defs (p.newName t 0) (p.sendName t) := by
      refine Or.inl ⟨_, h.mem_send ht, rfl, _, mem_singleton_self _, ?_⟩
      rw [if_pos hControl']
      rfl
    have hRecv : Precedes defs (p.sendName t) (p.recvName t) :=
      Or.inr ⟨_, h.mem_send ht, _, h.mem_recv ht,
        (h.paired_iff (h.mem_send ht) (h.mem_recv ht)).mpr ⟨t, ht, rfl, rfl⟩, rfl, rfl⟩
    have hOut : Precedes defs (p.recvName t) (p.outName t) :=
      Or.inl ⟨_, h.mem_identity ht hControl', rfl, _, mem_singleton_self _, rfl⟩
    have hLast : Precedes defs (p.outName t) (p.g.name v) := by
      refine Or.inl ⟨_, h.mem_wired hv, rfl, _, hInput, ?_⟩
      rw [hWire, srcName_inputFrom]
    exact ((((TransGen.single hDummy).tail hSend).tail hRecv).tail hOut).tail hLast

theorem Wiring.closed (h : p.Wiring done defs s ts) (hDone : ∀ v, v ∈ done ↔ p.g.isOp v)
    (hd : d ∈ defs) {i : NodeInput} (hi : i ∈ d.2.inputs) :
    ∃ c ∈ defs, c.1 = d.1 ∧ c.2.name = i.srcName := by
  rcases h.mem_iff.mp hd with ⟨v, hv, rfl⟩ | ⟨t, ht, hMem⟩
  · obtain ⟨e, he, rfl⟩ := mem_map.mp hi
    obtain ⟨hEdge, hSrc⟩ := mem_opInputs he
    obtain rfl := p.g.dst_of_mem v e hEdge
    rcases h.wire_cases hv he with ⟨hLocal, hWire⟩ | ⟨t, ht, -, hKey, hWire⟩
    · refine ⟨_, h.mem_wired ((hDone e.src).mpr hSrc), ?_, ?_⟩
      · simp only [isLocal, isSamePartition, and_eq_true, decide_eq_true_eq] at hLocal
        exact hLocal.1
      · rw [hWire, srcName_directInput]
        rfl
    · have hLoc : p.loc t.edge.dst = p.loc e.dst := congrArg dstGraph hKey
      rw [hWire, srcName_inputFrom]
      cases hControl : t.edge.isControlEdge with
      | false =>
        refine ⟨_, h.mem_recv ht, hLoc, ?_⟩
        simp [recvDef, recvName, outName, hControl]
      | true => exact ⟨_, h.mem_identity ht hControl, hLoc, rfl⟩
  · obtain ⟨-, hSrc, -, -⟩ := h.split t ht
    have hSource := h.mem_wired ((hDone t.edge.src).mpr hSrc)
    rcases mem_transferDefs hMem with ⟨hControl, rfl⟩ | rfl | rfl | ⟨hControl, rfl⟩
    · rw [mem_singleton.mp hi]
      exact ⟨_, hSource, rfl, rfl⟩
    · rw [mem_singleton.mp hi]
      split
      · rename_i hControl
        exact ⟨_, h.mem_dummy ht hControl, rfl, rfl⟩
      · rw [srcName_directInput]
        exact ⟨_, hSource, rfl, rfl⟩
    · simp only [recvDef] at hi
      split at hi
      · rename_i hSame
        rw [mem_singleton.mp hi]
        exact ⟨_, h.mem_send ht, hSame, rfl⟩
      · cases hi
    · rw [mem_singleton.mp hi]
      exact ⟨_, h.mem_recv ht, rfl, rfl⟩

theorem isOp_of_data (hMem : e ∈ p.g.inEdges v) (hData : e.isControlEdge = false)
    : p.g.isOp e.src := by
  simp only [PlacedGraph.isOp, and_eq_true, decide_eq_true_eq]
  constructor
  · intro hSource
    rw [p.g.source_control v e hMem hSource] at hData
    cases hData
  · intro hSink
    have hOut : e ∈ p.g.outEdges e.src := by
      rw [p.g.mem_outEdges, p.g.dst_of_mem v e hMem]
      exact ⟨rfl, hMem⟩
    rw [hSink, p.g.sink_outEdges] at hOut
    cases hOut

omit [DecidableEq N] in
theorem exists_edge {slot : Nat} (hSlot : slot < p.g.numInputs v) :
    ∃ e, (p.g.inEdges v).find? (fun e => e.dstInput = some slot) = some e ∧
      e ∈ p.g.inEdges v ∧ e.dstInput = some slot := by
  have hMem := (p.g.inputs_filled v).mem_iff.mpr (mem_range.mpr hSlot)
  obtain ⟨e', hEdge, hInput⟩ := mem_filterMap.mp hMem
  cases hFind : (p.g.inEdges v).find? (fun e => e.dstInput = some slot) with
  | none => exact absurd hInput (by simpa using find?_eq_none.mp hFind e' hEdge)
  | some e =>
    have hSlot : e.dstInput = some slot := by simpa using find?_some hFind
    exact ⟨e, rfl, mem_of_find?_eq_some hFind, hSlot⟩

omit [DecidableEq N] in
theorem map_filterMap_eq {α β γ : Type*} {f : α → Option β} {k : β → γ} {k' : α → γ} (l : List α)
    (h : ∀ a ∈ l, ∃ b, f a = some b ∧ k b = k' a) : (l.filterMap f).map k = l.map k' := by
  induction l with
  | nil => rfl
  | cons a l ih =>
    obtain ⟨b, hSome, hEq⟩ := h a mem_cons_self
    rw [filterMap_cons_some hSome, map_cons, map_cons, hEq,
      ih fun a' hMem => h a' (mem_cons_of_mem _ hMem)]

/-- The data inputs in the order of the slots, and the control inputs after them. -/
theorem Wiring.inputs (h : p.Wiring done defs s ts) (hNodup : (defs.map fun d => d.2.name).Nodup)
    (hDone : ∀ v, v ∈ done ↔ p.g.isOp v) (hv : v ∈ done) :
    ∃ inputs controls, (p.wired s.dupRecv v).2.inputs = inputs ++ controls ∧
      inputs.map (contractedSource defs) = (range (p.g.numInputs v)).map (p.g.sourceOf v) ∧
      ∀ i ∈ controls, i.isData = false := by
  let data := (range (p.g.numInputs v)).filterMap fun slot =>
    (p.g.inEdges v).find? fun e => e.dstInput = some slot
  have hData : ∀ e ∈ data, e ∈ p.g.inEdges v ∧ e.isControlEdge = false := by
    intro e hMem
    obtain ⟨slot, -, hFind⟩ := mem_filterMap.mp hMem
    refine ⟨mem_of_find?_eq_some hFind, ?_⟩
    have hSlot : e.dstInput = some slot := by simpa using find?_some hFind
    obtain ⟨slots, hSlots, -⟩ := map_eq_some_iff.mp hSlot
    rw [Edge.isControlEdge, hSlots]
    rfl
  have hKept : data.filter (fun e => p.g.isOp e.src) = data := by
    rw [filter_eq_self]
    exact fun e hMem => isOp_of_data (hData e hMem).1 (hData e hMem).2
  have hOpInputs : p.opInputs v = data ++ ((p.g.inEdges v).filter fun e =>
      e.isControlEdge && !isControlFlowEdge p.g e).filter fun e => p.g.isOp e.src := by
    rw [opInputs, arrangedInputs, filter_append]
    exact congrArg (· ++ _) hKept
  refine ⟨data.map (p.wire s.dupRecv), (((p.g.inEdges v).filter fun e =>
      e.isControlEdge && !isControlFlowEdge p.g e).filter fun e =>
        p.g.isOp e.src).map (p.wire s.dupRecv), ?_, ?_, ?_⟩
  · change (p.opInputs v).map (p.wire s.dupRecv) = _
    rw [hOpInputs, map_append]
  · rw [List.map_map]
    apply map_filterMap_eq (range (p.g.numInputs v))
    intro slot hSlot
    obtain ⟨e, hFind, hMem, hInput⟩ := exists_edge (p := p) (mem_range.mp hSlot)
    obtain ⟨slots, hSlots, -⟩ := map_eq_some_iff.mp hInput
    have he : e ∈ p.opInputs v := by
      rw [hOpInputs]
      exact mem_append_left _ (mem_filterMap.mpr ⟨slot, hSlot, hFind⟩)
    refine ⟨e, hFind, ?_⟩
    rw [Function.comp_apply, h.contractedSource_wire hNodup hDone hv he hSlots,
      PlacedGraph.sourceOf, hFind]
    simp [hSlots]
  · intro i hMem
    obtain ⟨e, he, rfl⟩ := mem_map.mp hMem
    obtain ⟨he, -⟩ := mem_filter.mp he
    have hControl : e.isControlEdge := (and_eq_true_iff.mp (mem_filter.mp he).2).1
    unfold wire
    split
    · unfold directInput
      rw [isNone_iff_eq_none.mp hControl]
      rfl
    · rw [inputFrom, if_pos hControl]
      rfl

end Placement

end Wired

structure PlacedGraph.LoopFree (g : PlacedGraph N) : Prop where
  unframed : ∀ v, g.isEnter v = false ∧ g.isExit v = false ∧ g.isNextIteration v = false
  unlooped : ∀ v, g.isMerge v → g.isControlLoop v = false

/-- The partitions of a loop-free graph mean what the graph means: they have its nodes, each
data input comes from the same output when the pairs of send and recv are contracted, each
control edge is a path, sends and recvs are in pairs and nothing is cyclic. -/
theorem partition_preserves [DecidableEq N] {opts : PartitionOptions N} {g : PlacedGraph N}
    {devices : N → String} {order : List N} (hAcyclic : g.Acyclic) (hLoopFree : g.LoopFree)
    (hRef : ∀ v slot, (g.outputType v slot).isRef = false) (hCast : opts.shouldCast = none)
    (hNames : UniqueNames opts g) (hKnown : Known opts g (colocatedDevices opts g devices order)) :
    ∃ defs, partition opts g devices order = .ok defs ∧
      (defs.map fun d => d.2.name).Nodup ∧
      (∀ d ∈ defs, ∀ i ∈ d.2.inputs, ∃ c ∈ defs, c.1 = d.1 ∧ c.2.name = i.srcName) ∧
      (defs.filterMap fun d => d.2.original?).Perm (g.nodes.filter g.isOp) ∧
      (∀ d ∈ defs, ∀ v, d.2.original? = some v →
        d.1 = opts.nodeToLoc v d.2.device ∧ d.2.name = g.name v ∧
          ∃ inputs controls, d.2.inputs = inputs ++ controls ∧
            inputs.map (contractedSource defs) = (range (g.numInputs v)).map (g.sourceOf v) ∧
            ∀ i ∈ controls, i.isData = false) ∧
      (∀ v, ∀ e ∈ g.inEdges v, e.isControlEdge → g.isOp e.src → g.isOp v →
        TransGen (Precedes defs) (g.name e.src) (g.name v)) ∧
      (∀ c ∈ defs, c.2.isSend → (defs.filter fun d => paired c.2 d.2).length = 1) ∧
      (∀ d ∈ defs, d.2.isRecv → (defs.filter fun c => paired c.2 d.2).length = 1) ∧
      Acyclic (Precedes defs) := by
  obtain ⟨info, hInfo⟩ := hKnown.buildMemoryDeviceInfo
  let p : Placement N := ⟨opts, g, colocatedDevices opts g devices order, info⟩
  have hPlain : p.Plain :=
    ⟨hCast, hRef, hLoopFree.unlooped, fun e hSrc hDst => hKnown.readStartTimes hSrc hDst⟩
  obtain ⟨s, ts, hRun, h⟩ := partition_wiring hInfo hPlain
  have hNodup := h.nodup_names (g.nodes_nodup.filter _) hNames
  have hDone : ∀ v, v ∈ g.nodes.filter g.isOp ↔ g.isOp v := by
    simp [g.mem_nodes]
  have hPairs := h.pairs hNodup.of_map
  refine ⟨s.defs, hRun, hNodup, fun d hd i hi => h.closed hDone hd hi, ?_, ?_, ?_, hPairs.1,
    hPairs.2, ?_⟩
  · have hOwn : ((g.nodes.filter g.isOp).map (p.wired s.dupRecv)).filterMap
        (fun d => d.2.original?) = g.nodes.filter g.isOp := by
      rw [filterMap_map]
      exact filterMap_some
    have hNew : (ts.flatMap p.transferDefs).filterMap (fun d => d.2.original?) = [] := by
      rw [filterMap_eq_nil_iff]
      intro d hd
      obtain ⟨t, -, hMem⟩ := mem_flatMap.mp hd
      rcases Placement.mem_transferDefs hMem with ⟨-, rfl⟩ | rfl | rfl | ⟨-, rfl⟩
      all_goals rfl
    have hPerm := h.defs.filterMap fun d => d.2.original?
    rwa [filterMap_append, hOwn, hNew, append_nil] at hPerm
  · intro d hd v hv
    rcases h.mem_iff.mp hd with ⟨w, hw, rfl⟩ | ⟨t, ht, hMem⟩
    · obtain rfl : w = v := some.inj hv
      exact ⟨rfl, rfl, h.inputs hNodup hDone hw⟩
    · rcases Placement.mem_transferDefs hMem with ⟨-, rfl⟩ | rfl | rfl | ⟨-, rfl⟩
      all_goals cases hv
  · intro v e hMem hControl hSrc hv
    exact h.path hPlain ((hDone v).mpr hv) hMem hControl hSrc
  · exact acyclic_of_positions (p.At ts)
      (fun _ _ _ => h.at_unique hNames) (fun _ _ => h.precedes_at) (Acyclic.staged hAcyclic)

def numberedName (i : Nat) (namePrefix : String) : String := namePrefix ++ "/_" ++ toString i

theorem numberedName_injective {i j : Nat} {a b : String}
    (h : numberedName i a = numberedName j b) : i = j := by
  have hList := congrArg (fun name => name.toList.reverse) h
  have hMiddle : "/_".toList = ['/', '_'] := rfl
  simp only [numberedName, String.toList_append, reverse_append, hMiddle, toString_eq_repr,
    toList_repr] at hList
  have hDigits := eq_of_append_cons (by simp)
    (by simp) hList
  exact toDigits_injective (reverse_injective hDigits)

/-- A node on one device with two consumers on another, and a control edge back. -/
def sharedRecv : PlacedGraph (Fin 6) where
  toGraph := Graph.ofEdges (fun _ => .other) 1
    (fun v => if v = 3 ∨ v = 4 then 1 else 0) (fun v => if v = 0 ∨ v = 1 then 0 else 1)
    [⟨0, 0, 2, none⟩, ⟨1, 2, 3, some (0, 0)⟩, ⟨2, 2, 4, some (0, 0)⟩, ⟨3, 3, 5, none⟩,
      ⟨4, 5, 1, none⟩]
    (by decide) (by decide) (by decide)
  source := 0
  name := fun v => match v with
    | 0 => "_SOURCE" | 1 => "_SINK" | 2 => "a" | 3 => "b" | 4 => "c" | 5 => "d"
  inputType := fun _ _ => ⟨.float, false⟩
  outputType := fun _ _ => ⟨.float, false⟩
  name_injective := by
    intro v w
    revert v w
    decide
  id_injective := by decide
  source_control := by decide

def sharedRecvDevices (v : Fin 6) : String := if v = 3 ∨ v = 4 then "/gpu:0" else "/cpu:0"

def sharedRecvOptions : PartitionOptions (Fin 6) where
  nodeToLoc := fun _ device => device
  newName := numberedName
  getIncarnation := fun _ => 1
  controlFlowAdded := false
  shouldCast := none
  schedulingForRecvs := true
  needToRecordStartTimes := false
  parseDeviceType := fun device =>
    if device = "/cpu:0" then some "CPU" else if device = "/gpu:0" then some "GPU" else none
  memoryTypesForNode := fun _ _ => .ok (fun _ => .deviceMemory, fun _ => .deviceMemory)
  startTimeAttr := fun v => .ok v.val

theorem partition_preserves_sharedRecv :
    ∃ defs, partition sharedRecvOptions sharedRecv sharedRecvDevices [0, 2, 3, 4, 5, 1] =
        .ok defs ∧
      TransGen (Precedes defs) "b" "d" ∧ Acyclic (Precedes defs) := by
  have hAcyclic : sharedRecv.Acyclic := by
    have hRank : ∀ v, ∀ e ∈ sharedRecv.inEdges v,
        (if e.src = 1 then 6 else e.src.val) < if v = 1 then 6 else v.val := by decide
    apply acyclic_of_rank fun v => if v = 1 then 6 else v.val
    rintro u v ⟨e, hMem, rfl⟩
    exact hRank v e hMem
  have hLoopFree : sharedRecv.LoopFree := ⟨by decide, by decide⟩
  have hNames : UniqueNames sharedRecvOptions sharedRecv := by
    refine ⟨fun i j a b => numberedName_injective, fun i a v hEq => ?_⟩
    have hSlash : '/' ∈ (numberedName i a).toList := by
      simp [numberedName]
    have hNone : ∀ v, '/' ∉ (sharedRecv.name v).toList := by decide
    exact hNone v (hEq ▸ hSlash)
  have hKnown : Known sharedRecvOptions sharedRecv
      (colocatedDevices sharedRecvOptions sharedRecv sharedRecvDevices [0, 2, 3, 4, 5, 1]) := by
    have hParse : ∀ v, (sharedRecvOptions.parseDeviceType (colocatedDevices sharedRecvOptions
        sharedRecv sharedRecvDevices [0, 2, 3, 4, 5, 1] v)).isSome := by decide
    refine ⟨fun v _ => ?_, fun _ _ v _ => ⟨v.val, rfl⟩⟩
    obtain ⟨deviceType, hDeviceType⟩ := Option.isSome_iff_exists.mp (hParse v)
    exact ⟨deviceType, _, hDeviceType, rfl⟩
  obtain ⟨defs, hRun, -, -, -, -, hPaths, -, -, hDefs⟩ :=
    @partition_preserves _ _ sharedRecvOptions sharedRecv sharedRecvDevices [0, 2, 3, 4, 5, 1]
      hAcyclic hLoopFree (fun _ _ => rfl) rfl hNames hKnown
  exact ⟨defs, hRun, hPaths 5 ⟨3, 3, 5, none⟩ (by decide) rfl (by decide) (by decide), hDefs⟩

end TensorFlowOnSpark
