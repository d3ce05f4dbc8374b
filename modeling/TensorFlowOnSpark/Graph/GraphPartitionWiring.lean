import TensorFlowOnSpark.Graph.GraphPartition

/-!
# What `Partition` has wired

Without casts, reference types and control loops the nodes that `Partition` makes are the
nodes of the graph, with their inputs wired, and those of the transfers.
-/

namespace TensorFlowOnSpark

open Framework List Function

universe u

variable {N : Type u}

/-- What the loop over the nodes of `Partition` works with. -/
structure Placement (N : Type u) where
  opts : PartitionOptions N
  g : PlacedGraph N
  devices : N → String
  info : GraphInfo N

structure Transfer (N : Type u) where
  edge : Edge N
  base : Nat

namespace Placement

variable (p : Placement N)

def loc (v : N) : String := locOf p.opts p.devices v

def key (e : Edge N) : DupRecvKey N := dupRecvKey p.opts p.devices p.info e

def isLocal (e : Edge N) : Bool := isSamePartition p.opts p.devices p.info e

def attrs (e : Edge N) : SendRecvAttrs := sendRecvAttrs p.opts p.g p.devices e

section Transfers

variable (t : Transfer N)

def newName (i : Nat) : String := p.opts.newName (t.base + i) (p.g.name t.edge.src)

def sendName : String := p.newName t (if t.edge.isControlEdge then 1 else 0)

def recvName : String := p.newName t (if t.edge.isControlEdge then 2 else 1)

def outName : String := p.newName t (if t.edge.isControlEdge then 3 else 1)

def srcHost : Bool :=
  match t.edge.slots with
  | none => false
  | some (srcPort, _) => p.info.outputTypes t.edge.src srcPort = .hostMemory

def dstHost : Bool :=
  match t.edge.slots with
  | none => false
  | some (_, dstPort) => p.info.inputTypes t.edge.dst dstPort = .hostMemory

def dummyDef : NodeDef N :=
  ⟨p.newName t 0, p.devices t.edge.src, .const, [.control (p.g.name t.edge.src)]⟩

def sendDef : NodeDef N :=
  ⟨p.sendName t, p.devices t.edge.src, .send (p.srcHost t) (p.attrs t.edge),
    [if t.edge.isControlEdge then .data (p.newName t 0) 0 else directInput p.g t.edge]⟩

def recvDef : NodeDef N :=
  ⟨p.recvName t, p.devices t.edge.dst,
    .recv (p.dstHost t) (p.attrs t.edge) (edgeType p.g t.edge),
    if p.loc t.edge.src = p.loc t.edge.dst then [.control (p.sendName t)] else []⟩

def identityDef : NodeDef N :=
  ⟨p.outName t, p.devices t.edge.dst, .identity, [.data (p.recvName t) 0]⟩

def transferDefs : List (String × NodeDef N) :=
  if t.edge.isControlEdge then
    [(p.loc t.edge.src, p.dummyDef t), (p.loc t.edge.src, p.sendDef t),
      (p.loc t.edge.dst, p.recvDef t), (p.loc t.edge.dst, p.identityDef t)]
  else [(p.loc t.edge.src, p.sendDef t), (p.loc t.edge.dst, p.recvDef t)]

end Transfers

def wire (dupRecv : DupRecvKey N → Option String) (e : Edge N) : NodeInput :=
  if p.isLocal e then directInput p.g e else inputFrom e ((dupRecv (p.key e)).getD "")

end Placement

def Transfer.numbers (t : Transfer N) : List Nat :=
  range' t.base (if t.edge.isControlEdge then 4 else 2)

namespace Placement

variable [DecidableEq N] (p : Placement N)

def opInputs (v : N) : List (Edge N) :=
  (arrangedInputs p.g v).filter fun e => p.g.isOp e.src

def nodeDef (v : N) (inputs : List NodeInput) : String × NodeDef N :=
  (p.loc v, ⟨p.g.name v, p.devices v, .original v, inputs⟩)

def wired (dupRecv : DupRecvKey N → Option String) (v : N) : String × NodeDef N :=
  p.nodeDef v ((p.opInputs v).map (p.wire dupRecv))

structure Plain : Prop where
  uncast : p.opts.shouldCast = none
  unref : ∀ v slot, (p.g.outputType v slot).isRef = false
  unlooped : ∀ v, p.g.isMerge v → p.g.isControlLoop v = false
  timed : ∀ e, p.g.isOp e.src → p.g.isOp e.dst → readStartTimes p.opts e = .ok ()

/-- `others` are the nodes of `done` and of the transfers `ts`. -/
structure Wiring (done : List N) (others : List (String × NodeDef N)) (s : PartitionState N)
    (ts : List (Transfer N)) : Prop where
  defs : others.Perm (done.map (p.wired s.dupRecv) ++ ts.flatMap p.transferDefs)
  numbers : ts.flatMap Transfer.numbers = range s.numNames
  dup : ∀ k name, s.dupRecv k = some name ↔ ∃ t ∈ ts, p.key t.edge = k ∧ p.outName t = name
  keys : (ts.map fun t => p.key t.edge).Nodup
  split : ∀ t ∈ ts, t.edge ∈ p.g.inEdges t.edge.dst ∧ p.g.isOp t.edge.src ∧
    p.g.isOp t.edge.dst ∧ p.isLocal t.edge = false
  covered : ∀ v ∈ done, ∀ e ∈ p.opInputs v, p.isLocal e = false →
    (s.dupRecv (p.key e)).isSome

end Placement

section Positions

theorem modify_append_cons {α : Type u} (before : List α) (a : α) (after : List α) (f : α → α) :
    (before ++ a :: after).modify before.length f = before ++ f a :: after := by
  induction before with
  | nil => rfl
  | cons b before ih => simp [ih]

variable {s : PartitionState N} {loc : String} {def_ : NodeDef N} {input : NodeInput}
  {before after : List (String × NodeDef N)}

theorem addInput_eq (hDefs : s.defs = before ++ (loc, def_) :: after) :
    s.addInput before.length input = { s with
      defs := before ++ (loc, { def_ with inputs := def_.inputs ++ [input] }) :: after } := by
  rw [PartitionState.addInput, hDefs, modify_append_cons]

end Positions

section Split

variable [DecidableEq N] {p : Placement N} {s : PartitionState N} {e : Edge N}

omit [DecidableEq N] in
theorem addSend_eq (hCast : p.opts.shouldCast = none) (loc : String) (sendFrom : NodeInput)
    (dtype : SlotType) :
    s.addSend p.opts p.g p.devices p.info loc e sendFrom dtype =
      (p.newName ⟨e, s.numNames⟩ 0,
        { s with
          defs := s.defs ++ [(loc, ⟨p.newName ⟨e, s.numNames⟩ 0, p.devices e.src,
            .send (p.srcHost ⟨e, s.numNames⟩) (p.attrs e), [sendFrom]⟩)]
          numNames := s.numNames + 1 }) := by
  simp only [PartitionState.addSend, hCast, ne_eq, not_true_eq_false, false_and, if_false]
  rfl

omit [DecidableEq N] in
theorem addRecv_data (hCast : p.opts.shouldCast = none) (hData : e.isControlEdge = false)
    (loc : String) :
    s.addRecv p.opts p.g p.devices p.info loc e =
      ((p.newName ⟨e, s.numNames⟩ 0, s.defs.length),
        { s with
          defs := s.defs ++ [(loc, ⟨p.newName ⟨e, s.numNames⟩ 0, p.devices e.dst,
            .recv (p.dstHost ⟨e, s.numNames⟩) (p.attrs e) (edgeType p.g e), []⟩)]
          numNames := s.numNames + 1 }) := by
  simp only [PartitionState.addRecv, hCast, ne_eq, not_true_eq_false, if_false, hData,
    Bool.false_eq_true]
  rfl

omit [DecidableEq N] in
theorem addRecv_control (hCast : p.opts.shouldCast = none) (hControl : e.isControlEdge = true)
    (loc : String) :
    s.addRecv p.opts p.g p.devices p.info loc e =
      ((p.newName ⟨e, s.numNames⟩ 1, s.defs.length),
        { s with
          defs := s.defs ++
            [(loc, ⟨p.newName ⟨e, s.numNames⟩ 0, p.devices e.dst,
              .recv (p.dstHost ⟨e, s.numNames⟩) (p.attrs e) (edgeType p.g e), []⟩),
            (loc, ⟨p.newName ⟨e, s.numNames⟩ 1, p.devices e.dst, .identity,
              [.data (p.newName ⟨e, s.numNames⟩ 0) 0]⟩)]
          numNames := s.numNames + 2 }) := by
  simp only [PartitionState.addRecv, hCast, ne_eq, not_true_eq_false, if_false, hControl, if_true,
    PartitionState.newName, PartitionState.addNode, append_assoc, singleton_append]
  rfl

omit [DecidableEq N] in
theorem addDummyConst_eq (loc : String) :
    s.addDummyConst p.opts p.g p.devices loc e =
      (p.newName ⟨e, s.numNames⟩ 0,
        { s with
          defs := s.defs ++ [(loc, p.dummyDef ⟨e, s.numNames⟩)]
          numNames := s.numNames + 1 }) := rfl

omit [DecidableEq N] in
theorem isRefEdge_eq_false (hRef : ∀ v slot, (p.g.outputType v slot).isRef = false) :
    isRefEdge p.g e = false := by
  unfold isRefEdge
  split
  · rfl
  · exact hRef _ _

def Placement.transferred (p : Placement N) (s : PartitionState N) (e : Edge N) :
    PartitionState N :=
  let t : Transfer N := ⟨e, s.numNames⟩
  { defs := s.defs ++ p.transferDefs t
    dupRecv := update s.dupRecv (p.key e) (some (p.outName t))
    numNames := s.numNames + t.numbers.length }

theorem splitEdge_eq (h : p.Plain) (dst : Nat) (l : InputLoop N) :
    splitEdge p.opts p.g p.devices p.info dst none l e =
      { l with
        state := (p.transferred l.state e).addInput dst
          (inputFrom e (p.outName ⟨e, l.state.numNames⟩))
        refControlInputs := l.refControlInputs ++ [p.outName ⟨e, l.state.numNames⟩] } := by
  have hRef := isRefEdge_eq_false (e := e) h.unref
  have hCast := h.uncast
  have hLoc : ∀ v, locOf p.opts p.devices v = p.loc v := fun _ => rfl
  cases hControl : e.isControlEdge with
  | false =>
    simp only [splitEdge, hRef, hLoc, Bool.false_eq_true, if_false]
    rw [addSend_eq hCast]
    rw [addRecv_data hCast hControl]
    simp only [Placement.transferred, Placement.transferDefs, Transfer.numbers]
    split
    · rename_i hSame
      rw [addInput_eq (rfl : _ = _ ++ _ :: [])]
      simp only [Placement.recvDef, Placement.sendDef, Placement.recvName, Placement.sendName,
        Placement.outName, hControl, hSame, append_assoc]
      rfl
    · rename_i hApart
      simp only [Placement.recvDef, Placement.sendDef, Placement.recvName, Placement.sendName,
        Placement.outName, hControl, hApart, append_assoc]
      rfl
  | true =>
    simp only [splitEdge, hRef, hLoc, Bool.false_eq_true, if_false]
    rw [addDummyConst_eq]
    rw [addSend_eq hCast]
    rw [addRecv_control hCast hControl]
    simp only [Placement.transferred, Placement.transferDefs, Transfer.numbers]
    split
    · rename_i hSame
      rw [addInput_eq rfl]
      simp only [Placement.recvDef, Placement.identityDef, Placement.sendDef, Placement.recvName,
        Placement.sendName, Placement.outName, hControl, hSame, append_assoc]
      rfl
    · rename_i hApart
      simp only [Placement.recvDef, Placement.identityDef, Placement.sendDef, Placement.recvName,
        Placement.sendName, Placement.outName, hControl, hApart, append_assoc]
      rfl

end Split

def Extends (dup dup' : DupRecvKey N → Option String) : Prop :=
  ∀ k, (dup k).isSome → dup' k = dup k

namespace Placement

variable [DecidableEq N] {p : Placement N} {dup dup' : DupRecvKey N → Option String}
  {done : List N} {others : List (String × NodeDef N)} {s : PartitionState N}
  {ts : List (Transfer N)} {e : Edge N} {v : N}

omit [DecidableEq N] in
theorem map_wire_congr {edges : List (Edge N)} (hExtends : Extends dup dup')
    (hCovered : ∀ e ∈ edges, p.isLocal e = false → (dup (p.key e)).isSome = true) :
    edges.map (p.wire dup') = edges.map (p.wire dup) := by
  apply map_congr_left
  intro e hMem
  unfold wire
  split
  · rfl
  · rename_i hLocal
    rw [hExtends _ (hCovered e hMem (by simpa using hLocal))]

theorem extends_update (hNone : dup (p.key e) = none) (name : Option String) :
    Extends dup (update dup (p.key e) name) := by
  intro k hSome
  apply update_of_ne
  rintro rfl
  rw [hNone] at hSome
  cases hSome

theorem Wiring.transferred (h : p.Wiring done others s ts) (hMem : e ∈ p.g.inEdges e.dst)
    (hSrc : p.g.isOp e.src) (hDst : p.g.isOp e.dst) (hRemote : p.isLocal e = false)
    (hNone : s.dupRecv (p.key e) = none) :
    p.Wiring done (others ++ p.transferDefs ⟨e, s.numNames⟩) (p.transferred s e)
      (ts ++ [⟨e, s.numNames⟩]) := by
  have hExtends := extends_update (p := p) hNone (some (p.outName ⟨e, s.numNames⟩))
  constructor
  · have hDone : done.map (p.wired (p.transferred s e).dupRecv) = done.map (p.wired s.dupRecv) := by
      apply map_congr_left
      intro v hv
      exact congrArg _ (map_wire_congr hExtends (h.covered v hv))
    rw [hDone, flatMap_append, flatMap_singleton, ← append_assoc]
    exact h.defs.append_right _
  · rw [flatMap_append, flatMap_singleton, h.numbers]
    simp only [Transfer.numbers, Placement.transferred, range_eq_range']
    simpa using range'_append_1 (s := 0) (m := s.numNames)
      (n := if e.isControlEdge then 4 else 2)
  · intro k name
    simp only [Placement.transferred, update_apply, mem_append, mem_singleton]
    constructor
    · intro hSome
      split at hSome
      · rename_i hKey
        cases hSome
        exact ⟨_, Or.inr rfl, hKey.symm, rfl⟩
      · obtain ⟨t, hMem, hKey, hName⟩ := (h.dup k name).mp hSome
        exact ⟨t, Or.inl hMem, hKey, hName⟩
    · rintro ⟨t, hMem | rfl, rfl, rfl⟩
      · have hSome := (h.dup _ _).mpr ⟨t, hMem, rfl, rfl⟩
        rw [if_neg, hSome]
        intro hKey
        rw [hKey, hNone] at hSome
        cases hSome
      · rw [if_pos rfl]
  · rw [map_append, nodup_append]
    refine ⟨h.keys, nodup_singleton _, ?_⟩
    rintro k hMem k' hMem' rfl
    obtain ⟨t, ht, hKey⟩ := mem_map.mp hMem
    have hSome := (h.dup _ _).mpr ⟨t, ht, rfl, rfl⟩
    rw [map_singleton, mem_singleton] at hMem'
    rw [hKey, hMem', hNone] at hSome
    cases hSome
  · intro t ht
    rcases mem_append.mp ht with hOld | hNew
    · exact h.split t hOld
    · rw [mem_singleton.mp hNew]
      exact ⟨hMem, hSrc, hDst, hRemote⟩
  · intro v hv e' he' hRemote'
    have hSome := h.covered v hv e' he' hRemote'
    rw [show (p.transferred s e).dupRecv (p.key e') = s.dupRecv (p.key e') from hExtends _ hSome]
    exact hSome

/-- The node `v` at position `dst` has the inputs `inputs`, and the rest is wired. -/
structure Midway (p : Placement N) (done : List N) (v : N)
    (before after : List (String × NodeDef N))
    (inputs : List NodeInput) (l : InputLoop N) (ts : List (Transfer N)) : Prop where
  defs : l.state.defs = before ++ p.nodeDef v inputs :: after
  wiring : p.Wiring done (before ++ after) l.state ts
  refs : l.refRecvs = []

variable {before after : List (String × NodeDef N)} {inputs : List NodeInput} {l : InputLoop N}

omit [DecidableEq N] in
theorem addInput_nodeDef {input : NodeInput}
    (hDefs : s.defs = before ++ p.nodeDef v inputs :: after) :
    s.addInput before.length input =
      { s with defs := before ++ p.nodeDef v (inputs ++ [input]) :: after } :=
  addInput_eq hDefs

/-- What one turn of the loop over the inputs does. -/
theorem Midway.connectInput (hPlain : p.Plain) (h : p.Midway done v before after inputs l ts)
    (hMem : e ∈ p.g.inEdges v) (hv : p.g.isOp v) :
    ∃ after' ts',
      p.Midway done v before after'
        (inputs ++ if p.g.isOp e.src then
            [p.wire (TensorFlowOnSpark.connectInput p.opts p.g p.devices p.info before.length none
              l e).state.dupRecv e]
          else [])
        (TensorFlowOnSpark.connectInput p.opts p.g p.devices p.info before.length none l e) ts' ∧
      Extends l.state.dupRecv
        (TensorFlowOnSpark.connectInput p.opts p.g p.devices p.info before.length none
          l e).state.dupRecv ∧
      (p.g.isOp e.src → p.isLocal e = false →
        ((TensorFlowOnSpark.connectInput p.opts p.g p.devices p.info before.length none
          l e).state.dupRecv (p.key e)).isSome) := by
  obtain rfl := p.g.dst_of_mem v e hMem
  unfold TensorFlowOnSpark.connectInput
  cases hSrc : p.g.isOp e.src with
  | false =>
    refine ⟨after, ts, ?_, fun _ _ => rfl, fun hOp => by cases hOp⟩
    simpa using h
  | true =>
    simp only [Bool.not_true, Bool.false_eq_true, if_false, if_true]
    split
    · rename_i hHere
      have hLocal : p.isLocal e := hHere
      rw [addInput_nodeDef h.defs]
      refine ⟨after, ts, ⟨?_, ⟨h.wiring.1, h.wiring.2, h.wiring.3, h.wiring.4, h.wiring.5,
        h.wiring.6⟩, h.refs⟩, fun _ _ => rfl, fun _ hRemote => ?_⟩
      · rw [wire, if_pos hLocal]
      · rw [hLocal] at hRemote
        cases hRemote
    · rename_i hAway
      have hRemote : p.isLocal e = false := eq_false_of_ne_true hAway
      split
      · rename_i recvName hFound
        change l.state.dupRecv (p.key e) = some recvName at hFound
        rw [addInput_nodeDef h.defs]
        refine ⟨after, ts, ⟨?_, ⟨h.wiring.1, h.wiring.2, h.wiring.3, h.wiring.4, h.wiring.5,
          h.wiring.6⟩, h.refs⟩, fun _ _ => rfl, fun _ _ => ?_⟩
        · rw [wire, if_neg (by simp [hRemote]), hFound]
          rfl
        · rw [hFound]
          rfl
      · rename_i hNone
        rw [splitEdge_eq hPlain]
        have hDefs : (p.transferred l.state e).defs =
            before ++ p.nodeDef e.dst inputs ::
              (after ++ p.transferDefs ⟨e, l.state.numNames⟩) := by
          simp [transferred, h.defs]
        rw [addInput_nodeDef hDefs]
        have hWiring := h.wiring.transferred hMem hSrc hv hRemote hNone
        rw [append_assoc] at hWiring
        have hSelf : (p.transferred l.state e).dupRecv (p.key e) =
            some (p.outName ⟨e, l.state.numNames⟩) := update_self ..
        refine ⟨_, _, ⟨?_, ⟨hWiring.1, hWiring.2, hWiring.3, hWiring.4, hWiring.5,
          hWiring.6⟩, h.refs⟩, extends_update hNone _, fun _ _ => ?_⟩
        · rw [wire, if_neg (by simp [hRemote]), hSelf]
          rfl
        · rw [hSelf]
          rfl

omit [DecidableEq N] in
theorem Extends.trans {dup'' : DupRecvKey N → Option String} (h : Extends dup dup')
    (h' : Extends dup' dup'') : Extends dup dup'' := by
  intro k hSome
  rw [h' k (by rwa [h k hSome]), h k hSome]

theorem processInput_eq (hPlain : p.Plain) (hMem : e ∈ p.g.inEdges v) (hv : p.g.isOp v) (dst : Nat)
    (l : InputLoop N) :
    processInput p.opts p.g p.devices p.info dst none l e =
      .ok (connectInput p.opts p.g p.devices p.info dst none l e) := by
  obtain rfl := p.g.dst_of_mem v e hMem
  unfold processInput
  cases hSrc : p.g.isOp e.src with
  | false => rfl
  | true =>
    rw [hPlain.timed e hSrc hv]
    simp

theorem Midway.processInputs (hPlain : p.Plain) (hv : p.g.isOp v) (edges : List (Edge N))
    (h : p.Midway done v before after inputs l ts) (hEdges : ∀ e ∈ edges, e ∈ p.g.inEdges v) :
    ∃ l' after' ts',
      edges.foldlM (processInput p.opts p.g p.devices p.info before.length none) l = .ok l' ∧
      p.Midway done v before after'
        (inputs ++ (edges.filter fun e => p.g.isOp e.src).map (p.wire l'.state.dupRecv)) l' ts' ∧
      Extends l.state.dupRecv l'.state.dupRecv ∧
      ∀ e ∈ edges.filter fun e => p.g.isOp e.src, p.isLocal e = false →
        (l'.state.dupRecv (p.key e)).isSome := by
  induction edges generalizing after inputs l ts with
  | nil => exact ⟨l, after, ts, rfl, by simpa using h, fun _ _ => rfl, by simp⟩
  | cons e edges ih =>
    obtain ⟨after₁, ts₁, h₁, hExtends, hCovered⟩ := h.connectInput hPlain
      (hEdges e mem_cons_self) hv
    obtain ⟨l', after', ts', hFold, h', hExtends', hCovered'⟩ := ih h₁ fun e' hMem =>
      hEdges e' (mem_cons_of_mem _ hMem)
    refine ⟨l', after', ts', ?_, ?_, Extends.trans hExtends hExtends', ?_⟩
    · rw [foldlM_cons, processInput_eq hPlain (hEdges e mem_cons_self) hv]
      exact hFold
    · cases hSrc : p.g.isOp e.src with
      | false =>
        simpa [hSrc] using h'
      | true =>
        have hWire : [e].map (p.wire _) = _ := map_wire_congr hExtends' fun e' hMem hRemote => by
          rw [mem_singleton.mp hMem] at hRemote ⊢
          exact hCovered hSrc hRemote
        rw [map_singleton, map_singleton] at hWire
        rw [← hWire] at h'
        simpa [hSrc] using h'
    · intro e' hMem hRemote
      obtain ⟨hMem, hSrc⟩ := mem_filter.mp hMem
      rcases mem_cons.mp hMem with rfl | hMem
      · have hSome := hCovered hSrc hRemote
        rw [hExtends' _ hSome]
        exact hSome
      · exact hCovered' e' (mem_filter.mpr ⟨hMem, hSrc⟩) hRemote

theorem isControlFlowEdge_eq_false (hPlain : p.Plain) (e : Edge N) :
    isControlFlowEdge p.g e = false := by
  cases hMerge : p.g.isMerge e.src with
  | false => simp [isControlFlowEdge, hMerge]
  | true => simp [isControlFlowEdge, hPlain.unlooped _ hMerge]

omit [DecidableEq N] in
theorem mem_inEdges_of_arranged (hMem : e ∈ arrangedInputs p.g v) : e ∈ p.g.inEdges v := by
  rcases mem_append.mp hMem with hData | hControl
  · obtain ⟨slot, -, hFind⟩ := mem_filterMap.mp hData
    exact mem_of_find?_eq_some hFind
  · exact (mem_filter.mp hControl).1

/-- The body of the loop over the nodes. -/
theorem Wiring.processNode (hPlain : p.Plain) (h : p.Wiring done s.defs s ts) (v : N) :
    ∃ s' ts', processNode p.opts p.g p.devices p.info s v = .ok s' ∧
      p.Wiring (done ++ if p.g.isOp v then [v] else []) s'.defs s' ts' := by
  unfold TensorFlowOnSpark.processNode
  cases hv : p.g.isOp v with
  | false =>
    refine ⟨s, ts, rfl, ?_⟩
    simpa using h
  | true =>
    have hNone : (p.g.inEdges v).filter (isControlFlowEdge p.g) = [] := by
      rw [filter_eq_nil_iff]
      intro e _
      rw [isControlFlowEdge_eq_false hPlain]
      exact Bool.false_ne_true
    have hStart : p.Midway done v s.defs [] [] ⟨s.addNode (p.loc v)
        ⟨p.g.name v, p.devices v, .original v, []⟩, [], [], 0⟩ ts := by
      refine ⟨rfl, ?_, rfl⟩
      rw [append_nil]
      exact ⟨h.1, h.2, h.3, h.4, h.5, h.6⟩
    obtain ⟨l', after, ts', hFold, hEnd, hExtends, hCovered⟩ :=
      hStart.processInputs hPlain hv (arrangedInputs p.g v) fun e => mem_inEdges_of_arranged
    simp only [p.g.countP_dataEdges, ne_eq, hNone, getLast?_nil, length_nil]
    rw [show locOf p.opts p.devices v = p.loc v from rfl, hFold]
    refine ⟨_, ts', rfl, ?_⟩
    simp only [hEnd.refs, addReadControl, foldl_nil]
    have hDefs := hEnd.defs
    constructor
    · rw [hDefs, map_append]
      refine perm_middle.trans ((hEnd.wiring.defs.cons _).trans ?_)
      rw [append_assoc]
      exact perm_middle.symm
    · exact hEnd.wiring.numbers
    · exact hEnd.wiring.dup
    · exact hEnd.wiring.keys
    · exact hEnd.wiring.split
    · intro w hw e he hRemote
      rcases mem_append.mp hw with hOld | hNew
      · exact hEnd.wiring.covered w hOld e he hRemote
      · rw [mem_singleton.mp hNew] at he
        exact hCovered e he hRemote

theorem Wiring.processNodes (hPlain : p.Plain) (nodes : List N) (h : p.Wiring done s.defs s ts) :
    ∃ s' ts', nodes.foldlM (TensorFlowOnSpark.processNode p.opts p.g p.devices p.info) s = .ok s' ∧
      p.Wiring (done ++ nodes.filter p.g.isOp) s'.defs s' ts' := by
  induction nodes generalizing done s ts with
  | nil => exact ⟨s, ts, rfl, by simpa using h⟩
  | cons v nodes ih =>
    obtain ⟨s₁, ts₁, hNode, h₁⟩ := h.processNode hPlain v
    obtain ⟨s', ts', hFold, h'⟩ := ih h₁
    refine ⟨s', ts', ?_, ?_⟩
    · rw [foldlM_cons, hNode]
      exact hFold
    · cases hv : p.g.isOp v with
      | false => simpa [hv] using h'
      | true => simpa [hv] using h'

end Placement

section Known

variable [DecidableEq N] {opts : PartitionOptions N} {g : PlacedGraph N} {devices : N → String}
  {order : List N}

/-- What `Partition` looks up for the nodes is known. -/
structure Known (opts : PartitionOptions N) (g : PlacedGraph N) (devices : N → String) : Prop where
  memoryTypes : ∀ v, g.isOp v → ∃ deviceType types,
    opts.parseDeviceType (devices v) = some deviceType ∧
      opts.memoryTypesForNode deviceType v = .ok types
  startTimes : opts.schedulingForRecvs → opts.needToRecordStartTimes = false →
    ∀ v, g.isOp v → ∃ time, opts.startTimeAttr v = .ok time

theorem Known.readStartTimes (h : Known opts g devices) {e : Edge N} (hSrc : g.isOp e.src)
    (hDst : g.isOp e.dst) : readStartTimes opts e = .ok () := by
  unfold TensorFlowOnSpark.readStartTimes
  split
  · rename_i hRead
    rw [Bool.and_eq_true, Bool.not_eq_true'] at hRead
    obtain ⟨sendTime, hSend⟩ := h.startTimes hRead.1 hRead.2 e.src hSrc
    obtain ⟨recvTime, hRecv⟩ := h.startTimes hRead.1 hRead.2 e.dst hDst
    rw [hSend, hRecv]
    rfl
  · rfl

theorem Known.addMemoryDeviceInfo (h : Known opts g devices) (info : GraphInfo N) (v : N) :
    ∃ info', addMemoryDeviceInfo opts g devices info v = .ok info' := by
  unfold TensorFlowOnSpark.addMemoryDeviceInfo
  cases hv : g.isOp v with
  | false => exact ⟨info, rfl⟩
  | true =>
    obtain ⟨deviceType, types, hParse, hTypes⟩ := h.memoryTypes v hv
    simp [hParse, hTypes]

theorem Known.buildMemoryDeviceInfo (h : Known opts g devices) :
    ∃ info, buildMemoryDeviceInfo opts g devices = .ok info := by
  have hFold : ∀ (nodes : List N) (info : GraphInfo N),
      ∃ info', nodes.foldlM (TensorFlowOnSpark.addMemoryDeviceInfo opts g devices) info =
        .ok info' := by
    intro nodes
    induction nodes with
    | nil => exact fun info => ⟨info, rfl⟩
    | cons v nodes ih =>
      intro info
      obtain ⟨next, hNext⟩ := h.addMemoryDeviceInfo info v
      rw [foldlM_cons, hNext]
      exact ih next
  exact hFold g.nodes _

theorem partition_wiring {info : GraphInfo N}
    (hInfo : buildMemoryDeviceInfo opts g (colocatedDevices opts g devices order) = .ok info)
    (hPlain : (Placement.mk opts g (colocatedDevices opts g devices order) info).Plain) :
    ∃ s ts, partition opts g devices order = .ok s.defs ∧
      (Placement.mk opts g (colocatedDevices opts g devices order) info).Wiring
        (g.nodes.filter g.isOp) s.defs s ts := by
  have hStart : (Placement.mk opts g (colocatedDevices opts g devices order) info).Wiring []
      (PartitionState.mk (N := N) [] (fun _ => none) 0).defs ⟨[], fun _ => none, 0⟩ [] := by
    constructor
    · exact Perm.refl _
    · rfl
    · simp
    · exact nodup_nil
    · simp
    · simp
  obtain ⟨s, ts, hFold, h⟩ := hStart.processNodes hPlain g.nodes
  refine ⟨s, ts, ?_, h⟩
  simp only [partition, hInfo]
  change (g.nodes.foldlM (processNode opts g _ info) _).map PartitionState.defs = _
  rw [hFold]
  rfl

end Known

end TensorFlowOnSpark
