import TensorFlowOnSpark.CommonRuntime.ExecutorLoopFreeRuns

/-!
# What a loop-free run does

The history of a run: which inputs made a node ready, what the node saw, and when the
run was finished.
-/

namespace TensorFlowOnSpark.CommonRuntime

open Transition List ExecutorState

universe u v

variable {N : Type u} {V : Type v}

/-- The inputs `ks` of a node allow it to be put into the ready list as `t`. -/
def MadeReadyBy (g : Graph N) (ks : List (Token N V)) (t : TaggedNode N) : Prop :=
  if g.isMerge t.node then
    (∀ e ∈ g.inEdges t.node, e.isControlEdge → ∃ k ∈ ks, k.edge = e) ∧
      ((∃ k ∈ ks, k.isLive) ∨
        ∀ e ∈ g.inEdges t.node, e.isControlEdge = false → ∃ k ∈ ks, k.edge = e ∧ k.entry = none)
  else
    (∀ e ∈ g.inEdges t.node, ∃ k ∈ ks, k.edge = e) ∧
      (t.isDead ↔ g.isControlTrigger t.node = false ∧ ∃ k ∈ ks, k.makesDead)

theorem Fits.exists_token {g : Graph N} {n : N} {ks : List (Token N V)} (h : Fits g n ks)
    {p : Edge N → Bool} {q : Token N V → Bool} (hKind : ∀ k ∈ ks, q k → p k.edge)
    (hCount : ks.countP q = (g.inEdges n).countP p) {e : Edge N} (hMem : e ∈ g.inEdges n)
    (he : p e) : ∃ k ∈ ks, k.edge = e ∧ q k := by
  have hSub : ((ks.filter q).map Token.edge).Subperm ((g.inEdges n).filter p) := by
    apply subperm_of_subset
    · exact h.nodup.sublist (filter_sublist.map _)
    · intro e' hMem'
      obtain ⟨k, hFilter, rfl⟩ := mem_map.mp hMem'
      obtain ⟨hk, hq⟩ := mem_filter.mp hFilter
      refine mem_filter.mpr ⟨?_, hKind k hk hq⟩
      exact Subperm.subset h (mem_map_of_mem hk)
  have hPerm := hSub.perm_of_length_le (by
    rw [length_map, ← countP_eq_length_filter, ← countP_eq_length_filter, hCount])
  obtain ⟨k, hFilter, rfl⟩ := mem_map.mp
    (hPerm.mem_iff.mpr (mem_filter.mpr ⟨hMem, he⟩))
  obtain ⟨hk, hq⟩ := mem_filter.mp hFilter
  exact ⟨k, hk, rfl, hq⟩

theorem madeReadyBy_of_ready {x : ExecutorImpl N V} (hFree : x.LoopFree) {t : TaggedNode N}
    {ks : List (Token N V)} (hFits : Fits x.graph t.node ks)
    (hReady : readyWith x.graph t.node ks)
    (hDead : t.isDead = deadWith x.graph t.node ks) : MadeReadyBy x.graph ks t := by
  have hComplete := complete_of_ready hReady (not_enteredDead hFree _ _)
  unfold MadeReadyBy
  split
  · rename_i hMerge
    rw [complete_merge hMerge] at hComplete
    constructor
    · intro e hMem hControl
      obtain ⟨k, hk, hEdge, -⟩ := hFits.exists_token (q := Token.isControl)
        (fun k _ hControl => hControl) hComplete.1 hMem hControl
      exact ⟨k, hk, hEdge⟩
    · rcases hComplete.2 with hLive | hAllDead
      · exact Or.inl (countP_pos_iff.mp hLive)
      · right
        intro e hMem hData
        have hCount : ks.countP Token.isDeadData =
            (x.graph.inEdges t.node).countP fun e => !e.isControlEdge := by
          rw [x.graph.countP_dataEdges, hAllDead]
        obtain ⟨k, hk, hEdge, hNone⟩ := hFits.exists_token (q := Token.isDeadData)
          (fun k _ hData => (Bool.and_eq_true_iff.mp hData).1) hCount hMem (by simp [hData])
        refine ⟨k, hk, hEdge, ?_⟩
        simpa using (Bool.and_eq_true_iff.mp hNone).2
  · rename_i hMerge
    have hExit : ∀ k : Token N V, x.graph.isExit k.edge.src = false := fun k => (hFree _).2.1
    constructor
    · intro e hMem
      have hLength : ks.countP (fun _ => true) = (x.graph.inEdges t.node).countP fun _ => true := by
        simpa [complete, hMerge] using hComplete
      obtain ⟨k, hk, hEdge, -⟩ := hFits.exists_token (fun _ _ _ => rfl) hLength hMem rfl
      exact ⟨k, hk, hEdge⟩
    · rw [hDead]
      simp [deadWith, hMerge, hExit, and_comm]

variable [DecidableEq N] {x : ExecutorImpl N V} {s s' : ExecutorState N V}

theorem LoopFreeSound.length_le (h : LoopFreeSound x s) :
    (readiedIn s.log).length ≤ x.graph.nodes.length := by
  have hSub := subperm_of_subset h.nodup
    (fun n (_ : n ∈ _) => x.graph.mem_nodes n : _ ⊆ x.graph.nodes)
  simpa using hSub.length_le

def rank (x : ExecutorImpl N V) (s : ExecutorState N V) : Nat :=
  3 * (x.graph.nodes.length - (readiedIn s.log).length) + 3 * s.ready.length +
    2 * s.running.length + s.leaving.length + 3 * s.held.length

section Runs

variable (hAcyclic : x.graph.Acyclic) (hFree : x.LoopFree) (hOne : x.OneLive)
  (hSucceed : x.KernelsSucceed)

include hAcyclic hFree hOne hSucceed

/-- Each step can be taken if its node is there, and leaves less to do. -/
theorem step_cases (h : LoopFreeSound x s) (a : ThreadStep) :
    s.step x a = .blocked ∨
      ∃ s', s.step x a = .next s' ∧ LoopFreeSound x s' ∧ rank x s' < rank x s := by
  cases a with
  | start i =>
    cases hGet : s.ready[i]? with
    | none =>
      left
      simp [step, start, hGet]
    | some t =>
      right
      obtain ⟨s', hStep, hSound, hReady, hRunning, hLeaving, hLog⟩ :=
        start_sound hAcyclic hFree hOne h hGet
      refine ⟨s', hStep, hSound, ?_⟩
      have hLength := (perm_eraseIdx hGet).length_eq
      rw [length_cons] at hLength
      unfold rank held
      rw [hReady, hLeaving, hLog]
      omega
  | propagate i =>
    cases hGet : s.running[i]? with
    | none =>
      left
      simp [step, propagate, hGet]
    | some p =>
      right
      obtain ⟨s', hStep, hSound, hReady, hRunning, ready, hLeaving, hLog⟩ :=
        propagate_sound hAcyclic hFree hSucceed h hGet
      refine ⟨s', hStep, hSound, ?_⟩
      have hLength := (perm_eraseIdx hGet).length_eq
      have hBound := hSound.length_le
      rw [hLog, length_append] at hBound
      rw [length_cons] at hLength
      unfold rank held
      rw [hReady, hRunning, hLeaving, hLog]
      simp only [length_append, flatMap_append, flatMap_singleton,
        length_singleton, Except.toOption, Option.getD_some]
      omega
  | nodeDone i =>
    cases hGet : s.leaving[i]? with
    | none =>
      left
      simp [step, nodeDone, hGet]
    | some p =>
      right
      obtain ⟨t, result⟩ := p
      obtain ⟨ready, rfl⟩ := h.succeed _ (mem_of_getElem? hGet)
      obtain ⟨s', hStep, hSound, hReady, hRunning, hLeaving, hLog⟩ := nodeDone_sound h hGet
      refine ⟨s', hStep, hSound, ?_⟩
      have hPerm := perm_eraseIdx hGet
      have hLength := hPerm.length_eq
      have hHeld : (s.leaving.flatMap fun p => p.2.toOption.getD []).Perm
          (ready ++ (s.leaving.eraseIdx i).flatMap fun p => p.2.toOption.getD []) :=
        hPerm.flatMap_right _
      have hHeldLength := hHeld.length_eq
      rw [length_cons] at hLength
      rw [length_append] at hHeldLength
      unfold rank held
      rw [hReady, hRunning, hLeaving, hLog, length_append]
      omega

end Runs

/-- When nothing is outstanding, every node has been propagated. -/
theorem LoopFreeSound.all_readied (hAcyclic : x.graph.Acyclic) (h : LoopFreeSound x s)
    (hZero : s.numOutstandingOps = 0) {n : N} (hn : n ≠ x.graph.sink) :
    timesReadied s.log [] 0 n = 1 ∧ ∃ t ∈ propagatedIn s.log, t.node = n := by
  have hCount := h.count
  have hActive : s.active = [] := by
    have hReady : s.ready = [] := eq_nil_of_length_eq_zero (by omega)
    have hRunning : s.running = [] := eq_nil_of_length_eq_zero (by omega)
    have hLeaving : s.leaving = [] := eq_nil_of_length_eq_zero (by omega)
    simp [active, held, hReady, hRunning, hLeaving]
  have hFlow := h.flow
  rw [hActive] at hFlow
  have := x.graph.finite
  -- along the edges: when all sources have been propagated, the inputs have all come
  induction n using hAcyclic.wellFounded.induction with
  | _ n ih =>
    have hFits := (h.log.recorded n hn).fits
    have hAll : x.graph.inEdges n ⊆ (tokensAt s.log [] 0 n).map Token.edge := by
      intro e hEdge
      have hDst := x.graph.dst_of_mem n e hEdge
      have hOut : e ∈ x.graph.outEdges e.src :=
        (x.graph.mem_outEdges _ _).mpr ⟨rfl, by rw [hDst]; exact hEdge⟩
      have hSrc : e.src ≠ x.graph.sink := by
        intro hSink
        rw [hSink, x.graph.sink_outEdges] at hOut
        cases hOut
      obtain ⟨-, t, hMem, hNode⟩ := ih e.src ⟨e, hEdge, rfl⟩ hSrc
      obtain ⟨k, hk, hEq⟩ := h.log.sent t hMem e (hNode ▸ hOut) (by rw [hDst]; exact hn)
      rw [hDst] at hk
      exact mem_map.mpr ⟨k, hk, hEq⟩
    have hPerm : ((tokensAt s.log [] 0 n).map Token.edge).Perm (x.graph.inEdges n) :=
      Subperm.antisymm hFits (subperm_of_subset (x.graph.inEdges_nodup n) hAll)
    have hReady : readyWith x.graph n (tokensAt s.log [] 0 n) := by
      rw [readyWith, complete_of_perm hPerm, Bool.true_or]
    have hOnce := (h.log.recorded n hn).once
    rw [hReady, if_pos rfl] at hOnce
    refine ⟨hOnce, ?_⟩
    have hPos : 0 < timesReadied s.log [] 0 n := by omega
    obtain ⟨t, hMem, hAt⟩ := countP_pos_iff.mp hPos
    refine ⟨t, hFlow.mem_iff.mp hMem, ?_⟩
    simp only [TaggedNode.at, decide_eq_true_eq] at hAt
    exact hAt.2.2

theorem LoopFreeSound.enabled (h : LoopFreeSound x s) (hCount : s.numOutstandingOps ≠ 0) :
    ∃ a, s.step x a ≠ .blocked := by
  have hSum := h.count
  by_cases hReady : s.ready = []
  · by_cases hRunning : s.running = []
    · have hPos : 0 < s.leaving.length := by
        rw [hReady, hRunning] at hSum
        simp only [length_nil] at hSum
        omega
      refine ⟨.nodeDone 0, ?_⟩
      obtain ⟨p, rest, hLeaving⟩ := exists_cons_of_length_pos hPos
      obtain ⟨ready, hOk⟩ := h.succeed p (by rw [hLeaving]; exact mem_cons_self)
      simp only [step, nodeDone, hLeaving, getElem?_cons_zero, hOk]
      cases ready <;> simp
    · refine ⟨.propagate 0, ?_⟩
      obtain ⟨p, rest, hCons⟩ := exists_cons_of_ne_nil hRunning
      simp only [step, propagate, hCons, getElem?_cons_zero]
      repeat' split
      all_goals simp
  · refine ⟨.start 0, ?_⟩
    obtain ⟨t, rest, hCons⟩ := exists_cons_of_ne_nil hReady
    simp only [step, start, hCons, getElem?_cons_zero]
    split
    · simp
    · simp

theorem LoopFreeSound.idle (h : LoopFreeSound x s) (hCount : s.numOutstandingOps = 0)
    (a : ThreadStep) : s.step x a = .blocked := by
  have hSum := h.count
  have hReady : s.ready = [] := eq_nil_of_length_eq_zero (by omega)
  have hRunning : s.running = [] := eq_nil_of_length_eq_zero (by omega)
  have hLeaving : s.leaving = [] := eq_nil_of_length_eq_zero (by omega)
  cases a with
  | start i => simp [step, start, hReady]
  | propagate i => simp [step, propagate, hRunning]
  | nodeDone i => simp [step, nodeDone, hLeaving]

theorem LoopFreeSound.madeReady (hFree : x.LoopFree) (h : LoopFreeSound x s)
    {before after : List (Event N V)} {t : TaggedNode N}
    (hLog : s.log = before ++ .readied t :: after) (hSink : t.node ≠ x.graph.sink) :
    MadeReadyBy x.graph (tokensAt before [] 0 t.node) t := by
  have hMem : t ∈ readiedIn s.log := by
    rw [hLog, readiedIn_append]
    exact mem_append_right _ mem_cons_self
  obtain ⟨hFrame, hIter, -, -⟩ := h.log.readied t hMem
  obtain ⟨hReady, hDead⟩ := h.log.justified before _ after hLog
  rw [hFrame, hIter] at hReady hDead
  have hFits := (h.log.recorded t.node hSink).fits
  rw [hLog, tokensAt_append] at hFits
  exact madeReadyBy_of_ready hFree hFits.of_append hReady hDead

/-- Every order of the threads schedules a loop-free graph the same way: each node becomes
ready once, with the inputs that allow it, sees what the graph means, and the run finishes
after the last node. -/
theorem loopFree_scheduling (hAcyclic : x.graph.Acyclic) (hFree : x.LoopFree) (hOne : x.OneLive)
    (hSucceed : x.KernelsSucceed) :
    (∃ left : ExecutorState N V → Nat,
      ∀ s, Reach (step x) anyStep (runAsync x) s →
        ∀ a s', s.step x a = .next s' → left s' < left s) ∧
    ∀ s, Reach (step x) anyStep (runAsync x) s →
      (∀ a misuse, s.step x a ≠ .failed misuse) ∧
      (∀ t ∈ readiedIn s.log, t.inputFrame = [] ∧ t.inputIter = 0) ∧
      (∀ n, n ≠ x.graph.sink → timesReadied s.log [] 0 n ≤ 1) ∧
      (∀ before t after, s.log = before ++ .readied t :: after → t.node ≠ x.graph.sink →
        MadeReadyBy x.graph (tokensAt before [] 0 t.node) t) ∧
      (∀ t inputs, .started t inputs ∈ s.log →
        t.isDead = (x.meaning t.node).dead ∧ inputs = (x.meaning t.node).inputs) ∧
      (s.numOutstandingOps ≠ 0 → (∃ a s', s.step x a = .next s') ∧ .finished ∉ s.log) ∧
      (s.numOutstandingOps = 0 → (∀ a, s.step x a = .blocked) ∧
        (∀ n, n ≠ x.graph.sink →
          timesReadied s.log [] 0 n = 1 ∧ ∃ t ∈ propagatedIn s.log, t.node = n) ∧
        ∃ log, s.log = log ++ [.finished] ∧ .finished ∉ log) := by
  have hCases := fun s (h : Reach (step x) anyStep (runAsync x) s) a =>
    step_cases hAcyclic hFree hOne hSucceed
      (sound_of_reach hAcyclic hFree hOne hSucceed h) a
  constructor
  · refine ⟨rank x, fun s hReach a s' hStep => ?_⟩
    rcases hCases s hReach a with hBlocked | ⟨s'', hNext, -, hLess⟩
    · rw [hStep] at hBlocked
      cases hBlocked
    · rw [hStep] at hNext
      cases hNext
      exact hLess
  · intro s hReach
    have h := sound_of_reach hAcyclic hFree hOne hSucceed hReach
    have hFinish := h.finished
    refine ⟨?_, ?_, ?_, fun before t after hLog hSink => h.madeReady hFree hLog hSink,
      h.log.started, ?_, ?_⟩
    · intro a misuse hFailed
      rcases hCases s hReach a with hBlocked | ⟨s', hNext, -⟩
      · rw [hFailed] at hBlocked
        cases hBlocked
      · rw [hFailed] at hNext
        cases hNext
    · intro t hMem
      obtain ⟨hFrame, hIter, -⟩ := h.log.readied t hMem
      exact ⟨hFrame, hIter⟩
    · intro n hSink
      rw [(h.log.recorded n hSink).once]
      split <;> omega
    · intro hCount
      rw [FinishesAtZero, if_neg hCount] at hFinish
      obtain ⟨a, hEnabled⟩ := h.enabled hCount
      rcases hCases s hReach a with hBlocked | ⟨s', hNext, -⟩
      · exact absurd hBlocked hEnabled
      · exact ⟨⟨a, s', hNext⟩, fun hMem => hFinish _ hMem rfl⟩
    · intro hCount
      rw [FinishesAtZero, if_pos hCount] at hFinish
      obtain ⟨log, hLog, hNone⟩ := hFinish
      exact ⟨h.idle hCount, fun n hSink => h.all_readied hAcyclic hCount hSink,
        log, hLog, fun hMem => hNone _ hMem rfl⟩

/-- A `Switch` whose two outputs go through a node each into one `Merge`. -/
def diamond : ExecutorImpl (Fin 8) Nat where
  graph := Graph.ofEdges
    (fun n => if n = 4 then .switch else if n = 7 then .merge else .other) 1
    (fun n => if n = 4 ∨ n = 7 then 2 else if n = 5 ∨ n = 6 then 1 else 0)
    (fun n => if n = 4 then 2 else if n = 0 ∨ n = 1 then 0 else 1)
    [⟨0, 0, 1, none⟩, ⟨1, 0, 2, none⟩, ⟨2, 0, 3, none⟩, ⟨3, 3, 4, some (0, 0)⟩,
      ⟨4, 2, 4, some (0, 1)⟩, ⟨5, 4, 5, some (0, 0)⟩, ⟨6, 4, 6, some (1, 0)⟩,
      ⟨7, 5, 7, some (0, 0)⟩, ⟨8, 6, 7, some (0, 1)⟩, ⟨9, 3, 7, none⟩]
    (by decide) (by decide) (by decide)
  emptyTensor := 0
  compute := fun n inputs _ => .ok <|
    match n with
    | 2 => [some 1]
    | 3 => [some 5]
    | 4 =>
      if inputs[1]? = some (some 1) then [none, (inputs[0]?).join] else [(inputs[0]?).join, none]
    | 5 => [some 50]
    | 6 => [some 60]
    | 7 => [(inputs.find? Option.isSome).join]
    | _ => []
  vlog := true

theorem loopFree_scheduling_diamond : ∃ s,
    Reach (step diamond) anyStep (runAsync diamond) s ∧
      ∀ n, n ≠ diamond.graph.sink → timesReadied s.log [] 0 n = 1 := by
  have hAcyclic : diamond.graph.Acyclic := by
    have hRank : ∀ v, ∀ e ∈ diamond.graph.inEdges v,
        (if e.src = 1 then 8 else e.src.val) < if v = 1 then 8 else v.val := by decide
    apply Dependency.acyclic_of_rank fun v => if v = 1 then 8 else v.val
    rintro u v ⟨e, hMem, rfl⟩
    exact hRank v e hMem
  have hFree : diamond.LoopFree := by
    unfold ExecutorImpl.LoopFree
    decide
  have hOne : diamond.OneLive := by
    unfold ExecutorImpl.OneLive
    decide +kernel
  have hSucceed : diamond.KernelsSucceed := by
    have hOk : ∀ n, (diamond.process n (diamond.meaning n).dead (diamond.meaning n).inputs).isOk =
        true := by decide +kernel
    intro n
    have hThis := hOk n
    cases hProcess : diamond.process n (diamond.meaning n).dead (diamond.meaning n).inputs with
    | ok outputs => exact ⟨outputs, rfl⟩
    | error status =>
      rw [hProcess] at hThis
      cases hThis
  obtain ⟨s, hReach, hDone⟩ := exists_reach_of_exec (step diamond)
    (runAsync diamond) always anyStep_of_always
    (replicate 7 [.start 0, .propagate 0, .nodeDone 0]).flatten
    (fun s => s.numOutstandingOps = 0) (by decide +kernel)
  obtain ⟨-, hRuns⟩ := loopFree_scheduling hAcyclic hFree hOne hSucceed
  obtain ⟨-, -, -, -, -, -, hEnd⟩ := hRuns s hReach
  obtain ⟨-, hAll, -⟩ := hEnd (of_decide_eq_true hDone)
  exact ⟨s, hReach, fun n hSink => (hAll n hSink).1⟩

end TensorFlowOnSpark.CommonRuntime
