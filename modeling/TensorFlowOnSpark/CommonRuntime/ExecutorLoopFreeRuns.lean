import TensorFlowOnSpark.CommonRuntime.ExecutorMeaning

/-!
# Every run of a loop-free graph

The three steps of a thread keep what is known of a loop-free run, in any order.
-/

namespace TensorFlowOnSpark.CommonRuntime

open Transition List Function ExecutorState ExecutorImpl

universe u v

variable {N : Type u} {V : Type v} [DecidableEq N] {x : ExecutorImpl N V} {s s' : ExecutorState N V}

variable {ks : List (Token N V)} {it it' : IterationState N V}

omit [DecidableEq N] in
theorem Reflects.of_ready {g : Graph N}
    {n : N} (h : Reflects g ks it n) (hReady : readyWith g n ks = true)
    (hInputs : it'.inputTensors = it.inputTensors)
    (hCounts : (it'.counts n).Settled) : Reflects g ks it' n where
  waits := by
    intro hWaiting
    rw [hReady] at hWaiting
    cases hWaiting
  settled := fun _ _ _ => hCounts
  inputs := by
    intro slot
    rw [hInputs]
    exact h.inputs slot

omit [DecidableEq N] in
theorem Reflects.of_counts {g : Graph N}
    {n : N} (h : Reflects g ks it n) (hInputs : it'.inputTensors = it.inputTensors)
    (hCounts : it'.counts n = it.counts n) : Reflects g ks it' n where
  waits := by
    rw [hCounts]
    exact h.waits
  settled := by
    rw [hCounts]
    exact h.settled
  inputs := by
    intro slot
    rw [hInputs]
    exact h.inputs slot

/-- What `mark_started` and `mark_completed` change. -/
structure Marked (x : ExecutorImpl N V) (t : TaggedNode N) (change : Counts → Counts)
    (frames : Frames N V) (it : IterationState N V) (f' : FrameState N V)
    (it' : IterationState N V) : Prop where
  found : frames [] = some f'
  root : IsRoot f' it'
  ops : it'.outstandingOps = it.outstandingOps
  inputs : it'.inputTensors = it.inputTensors
  counts : it'.counts =
    if x.vlog then update it.counts t.node (change (it.counts t.node)) else it.counts

variable {t : TaggedNode N}
variable {it : IterationState N V}

variable {frames : Frames N V}

theorem mark_root {f : FrameState N V} (hFind : frames [] = some f)
    (hRoot : IsRoot f it) (hFrame : t.inputFrame = []) (hIter : t.inputIter = 0)
    (change : Counts → Counts) :
    ∃ f' it', Marked x t change (mark x frames t f it change) it f' it' := by
  unfold mark
  split
  · rename_i hLog
    refine ⟨_, { it with counts := update it.counts t.node (change (it.counts t.node)) },
      ?_, hRoot.setIteration hRoot.number hRoot.frameCount, rfl, rfl, (if_pos hLog).symm⟩
    rw [hFrame, hIter, Frames.set, update_self]
  · rename_i hLog
    exact ⟨f, it, hFind, hRoot, rfl, rfl, (if_neg hLog).symm⟩

theorem Marked.reflects {change : Counts → Counts} {f' : FrameState N V}
    (h : Marked x t change frames it f' it')
    {n : N} (hReflects : Reflects x.graph ks it n)
    (hReady : n = t.node → readyWith x.graph n ks)
    (hSettled : x.vlog → n = t.node → (change (it.counts t.node)).Settled) :
    Reflects x.graph ks it' n := by
  have hCounts := congrFun h.counts n
  cases hLog : x.vlog with
  | false =>
    rw [hLog] at hCounts
    exact hReflects.of_counts h.inputs hCounts
  | true =>
    rw [hLog, if_pos rfl] at hCounts
    by_cases hNode : n = t.node
    · apply hReflects.of_ready (hReady hNode) h.inputs
      rw [hCounts, hNode, update_self]
      exact hSettled hLog hNode
    · rw [update_of_ne hNode] at hCounts
      exact hReflects.of_counts h.inputs hCounts

section Steps

variable (hAcyclic : x.graph.Acyclic) (hFree : x.LoopFree) (hOne : x.OneLive)
  (hSucceed : x.KernelsSucceed)

variable {t : TaggedNode N}

include hFree in
theorem LoopFreeSound.readyWith_of_active (h : LoopFreeSound x s)
    (hMem : t ∈ s.active) (hNe : t.node ≠ x.graph.sink) :
    readyWith x.graph t.node (tokensAt s.log [] 0 t.node) = true := by
  rw [readyWith, h.log.complete_of_readied hFree hNe (h.active_readied hMem) rfl, Bool.true_or]

theorem RootSound.lookup {f : FrameState N V} (h : RootSound x s f it) (hFrame : t.inputFrame = [])
    (hIter : t.inputIter = 0) :
    ((s.frames.find t.inputFrame).bind fun f =>
      (f.useIteration t.inputIter).bind fun it => .ok (f, it)) = .ok (f, it) := by
  rw [hFrame, hIter, Frames.find, h.found]
  simp only [Except.bind, h.root.use]

variable {i : Nat}

include hAcyclic hFree hOne in
theorem start_sound (h : LoopFreeSound x s)
    (hGet : s.ready[i]? = some t) :
    ∃ s', s.start x i = .next s' ∧ LoopFreeSound x s' ∧
      s'.ready = s.ready.eraseIdx i ∧ s'.running.length = s.running.length + 1 ∧
      s'.leaving = s.leaving ∧ readiedIn s'.log = readiedIn s.log := by
  have hMem : t ∈ s.active := by
    refine mem_append_left _ (mem_append_left _ ?_)
    exact mem_of_getElem? hGet
  have hReadied := h.active_readied hMem
  obtain ⟨hFrame, hIter, hDead, -⟩ := h.log.readied t hReadied
  obtain ⟨f, it, hRoot⟩ := h.root_of_active hMem
  obtain ⟨f', it', hMarked⟩ := mark_root (x := x) hRoot.found hRoot.root hFrame hIter
    Counts.markStarted
  have hInputs := hRoot.inputs_eq hAcyclic hFree hOne h.log hReadied
  have hPerm := perm_eraseIdx hGet
  let inputs := (List.range (x.graph.numInputs t.node)).map (it.inputTensors t.node)
  let s' : ExecutorState N V := { s with
    frames := mark x s.frames t f it Counts.markStarted
    ready := s.ready.eraseIdx i
    running := s.running ++ [(t, inputs)]
    log := s.log ++ [.started t inputs] }
  have hStep : s.start x i = .next s' := by
    unfold ExecutorState.start
    rw [hGet]
    simp only [hRoot.lookup hFrame hIter]
    rfl
  have hQuiet : ∀ event ∈ [Event.started t inputs], event.isQuiet = true := by
    intro event hEvent
    rw [mem_singleton] at hEvent
    subst hEvent
    rfl
  have hActive : s'.active.Perm s.active := by
    change (s.ready.eraseIdx i ++ (s.running ++ [(t, inputs)]).map Prod.fst ++ s.held).Perm
      (s.ready ++ s.running.map Prod.fst ++ s.held)
    rw [map_append, map_singleton]
    apply List.Perm.append_right
    rw [← append_assoc]
    refine (perm_append_singleton _ _).trans ?_
    exact (hPerm.append_right _).symm
  refine ⟨s', hStep, ?_, rfl, length_append, rfl, readiedIn_append_quiet hQuiet⟩
  constructor
  · apply h.log.append_quiet hQuiet rfl
    intro t' inputs' hEvent
    rw [mem_singleton] at hEvent
    cases hEvent
    exact ⟨hDead, hInputs⟩
  · change (readiedIn (s.log ++ _)).Perm (s'.active ++ propagatedIn (s.log ++ _))
    have hNone : propagatedIn [Event.started t inputs] = [] := rfl
    rw [readiedIn_append_quiet hQuiet, propagatedIn_append, hNone, append_nil]
    exact h.flow.trans (hActive.symm.append_right _)
  · change timesReadied (s.log ++ _) [] 0 x.graph.sink ≤ 1
    rw [timesReadied, readiedIn_append_quiet hQuiet]
    exact h.sinkOnce
  · intro p hp
    rw [mem_append, mem_singleton] at hp
    rcases hp with hp | rfl
    · exact h.inputs p hp
    · exact hInputs
  · exact h.succeed
  · have hLength := hPerm.length_eq
    rw [length_cons] at hLength
    change s.numOutstandingOps = _
    rw [h.count]
    simp only [s', length_append, length_singleton]
    omega
  · left
    refine ⟨f', it', hMarked.found, hMarked.root, ?_, ?_, ?_⟩
    · rw [hMarked.ops, hRoot.ops, hActive.length_eq]
    · intro n hn
      change Reflects _ (tokensAt (s.log ++ _) [] 0 n) it' n
      rw [tokensAt_append_quiet hQuiet]
      apply hMarked.reflects (hRoot.reflects n hn)
      · rintro rfl
        exact h.readyWith_of_active hFree hMem hn
      · intro _ _
        exact (Counts.begun_markStarted _).settled
    · intro hLog p hp hNe
      have hCounts := congrFun hMarked.counts p.1.node
      rw [hLog, if_pos rfl] at hCounts
      rw [hCounts]
      rw [mem_append, mem_singleton] at hp
      by_cases hNode : p.1.node = t.node
      · rw [hNode, update_self]
        exact Counts.begun_markStarted _
      · rw [update_of_ne hNode]
        rcases hp with hp | rfl
        · exact hRoot.begun hLog p hp hNe
        · exact absurd rfl hNode
  · have hCount : s.numOutstandingOps ≠ 0 := by
      have hLength := hPerm.length_eq
      rw [length_cons] at hLength
      rw [h.count]
      omega
    apply h.finished.append hCount hCount
    intro event hEvent
    rw [mem_singleton] at hEvent
    subst hEvent
    exact (by simp)

include hSucceed in
omit [DecidableEq N] in
theorem process_eq (hAcyclic : x.graph.Acyclic) (n : N) :
    x.process n (x.meaning n).dead (x.meaning n).inputs = .ok (x.meaning n).outputs := by
  obtain ⟨outputs, hOk⟩ := hSucceed n
  rw [meaning_outputs hAcyclic, hOk]
  rfl

include hFree in
theorem LoopFreeSound.sendable (h : LoopFreeSound x s) (hMem : t ∈ s.active) :
    Sendable x.graph s.log [] 0 t.node (x.graph.outEdges t.node) where
  out := fun _ hEdge => hEdge
  nodup := x.graph.outEdges_nodup _
  fresh := by
    rintro e hEdge hNe k hToken rfl
    obtain ⟨-, t', hMem', hNode⟩ := h.log.sources _ hNe k hToken
    exact h.not_propagated hMem hMem' (hNode.trans ((x.graph.mem_outEdges _ _).mp hEdge).1)
  opened := fun _ _ => not_enteredDead hFree _ _
  single := by
    intro hEnter
    rw [(hFree _).1] at hEnter
    cases hEnter

variable {log : List (Event N V)}

theorem dead_of_justified (hAcyclic : x.graph.Acyclic) (hFree : x.LoopFree)
    (hJust : Justified x.graph log) (hMem : t ∈ readiedIn log) (hFrame : t.inputFrame = [])
    (hIter : t.inputIter = 0) (hFits : Fits x.graph t.node (tokensAt log [] 0 t.node))
    (hGenuine : Genuine x (tokensAt log [] 0 t.node)) : t.isDead = (x.meaning t.node).dead := by
  obtain ⟨event, hEvent, hTag⟩ := mem_filterMap.mp hMem
  obtain ⟨before, after, rfl⟩ := append_of_mem hEvent
  cases event with
  | readied t' =>
    cases hTag
    obtain ⟨hReady, hDead⟩ := hJust before _ after rfl
    rw [hFrame, hIter] at hReady hDead
    rw [tokensAt_append] at hFits hGenuine
    rw [hDead, meaning_dead hAcyclic]
    apply Genuine.deadWith_eq _ hFits.of_append
      (complete_of_ready hReady (not_enteredDead hFree _ _)) hFree
    intro k hk
    exact hGenuine k (mem_append_left _ hk)
  | delivered name iter e isDead entry => cases hTag
  | started t' inputs => cases hTag
  | propagated t' => cases hTag
  | finished => cases hTag

include hAcyclic hFree in
theorem LogSound.propagate {log events : List (Event N V)} (h : LogSound x log)
    {it : IterationState N V} {r : IterationState N V × Output N V}
    (hDead : t.isDead = (x.meaning t.node).dead)
    (hGrew : Grew x.graph [] 0 ((x.graph.outEdges t.node).map fun e =>
      ⟨e, t.isDead, e.entry (x.meaning t.node).outputs⟩) (it, ⟨[], []⟩) r events)
    (hKeeps : Keeps x.graph [] 0 log (log ++ events) it r.1) :
    LogSound x (log ++ events ++ [.propagated t]) := by
  have hQuiet : ∀ event ∈ [Event.propagated (V := V) t], event.isQuiet = true := by
    intro event hEvent
    rw [mem_singleton] at hEvent
    subst hEvent
    rfl
  have hPropagated : propagatedIn (log ++ events ++ [.propagated t]) = propagatedIn log ++ [t] := by
    rw [propagatedIn_append, propagatedIn_append, propagatedIn_activation hGrew.kinds, append_nil]
    rfl
  have hTokens : ∀ n, n ≠ x.graph.sink → tokensAt (log ++ events) [] 0 n =
      tokensAt log [] 0 n ++ ((x.graph.outEdges t.node).filter fun e => e.dst = n).map
        (tokenOf x.meaning) := by
    intro n hn
    rw [tokensAt_append, hGrew.tokens [] 0 n hn, if_pos ⟨rfl, rfl⟩, filter_map]
    congr 1
    apply map_congr_left
    intro e hMem
    have hEdge := mem_of_mem_filter hMem
    have hSrc := ((x.graph.mem_outEdges _ _).mp hEdge).1
    simp only [tokenOf, hSrc, hDead]
  have hSources : ∀ n, n ≠ x.graph.sink → ∀ k ∈ tokensAt (log ++ events) [] 0 n,
      k = tokenOf x.meaning k.edge ∧ ∃ t' ∈ propagatedIn log ++ [t], t'.node = k.edge.src := by
    intro n hn k hMem
    rw [hTokens n hn, mem_append] at hMem
    rcases hMem with hOld | hNew
    · obtain ⟨hToken, t', hMem', hNode⟩ := h.sources n hn k hOld
      exact ⟨hToken, t', mem_append_left _ hMem', hNode⟩
    · obtain ⟨e, hEdge, rfl⟩ := mem_map.mp hNew
      have hSrc := ((x.graph.mem_outEdges _ _).mp (mem_of_mem_filter hEdge)).1
      exact ⟨rfl, t, mem_append_right _ (mem_singleton_self t), hSrc.symm⟩
  have hReadied : readiedIn (log ++ events ++ [.propagated t]) =
    readiedIn log ++ readiedIn events := by
    rw [readiedIn_append_quiet hQuiet, readiedIn_append]
  constructor
  · exact hKeeps.justified.append_quiet hQuiet
  · intro n hn
    apply (hKeeps.tracked n hn).recorded.of_events (tokensAt_quiet hQuiet _ _ _)
    rw [timesReadied, readiedIn_quiet hQuiet, countP_nil]
  · intro t' hMem
    rw [hReadied, mem_append] at hMem
    rcases hMem with hOld | hNew
    · exact h.readied t' hOld
    · obtain ⟨hFrame, hIter, hNe⟩ := hGrew.tags t' hNew
      refine ⟨hFrame, hIter, ?_, fun hSink => absurd hSink hNe⟩
      apply dead_of_justified hAcyclic hFree hKeeps.justified _ hFrame hIter
        (hKeeps.tracked _ hNe).recorded.fits
      · intro k hk
        exact (hSources _ hNe k hk).1
      · rw [readiedIn_append]
        exact mem_append_right _ hNew
  · intro n hn k hMem
    rw [tokensAt_append_quiet hQuiet] at hMem
    rw [hPropagated]
    exact hSources n hn k hMem
  · intro t' hMem e hEdge hNe
    rw [tokensAt_append_quiet hQuiet, hTokens _ hNe]
    rw [hPropagated, mem_append, mem_singleton] at hMem
    rcases hMem with hOld | rfl
    · obtain ⟨k, hk, hEq⟩ := h.sent t' hOld e hEdge hNe
      exact ⟨k, mem_append_left _ hk, hEq⟩
    · refine ⟨tokenOf x.meaning e, mem_append_right _ (mem_map_of_mem ?_), rfl⟩
      exact mem_filter.mpr ⟨hEdge, decide_eq_true rfl⟩
  · intro t' inputs hMem
    rw [mem_append, mem_append, mem_singleton] at hMem
    rcases hMem with (hOld | hNew) | hLast
    · exact h.started t' inputs hOld
    · cases hGrew.kinds _ hNew
    · cases hLast

include hAcyclic hFree hSucceed in
theorem propagate_sound (h : LoopFreeSound x s) {p : TaggedNode N × List (Option V)}
    (hGet : s.running[i]? = some p) :
    ∃ s', s.propagate x i = .next s' ∧ LoopFreeSound x s' ∧
      s'.ready = s.ready ∧ s'.running = s.running.eraseIdx i ∧
      ∃ ready, s'.leaving = s.leaving ++ [(p.1, .ok ready)] ∧
        readiedIn s'.log = readiedIn s.log ++ ready := by
  obtain ⟨t, inputs⟩ := p
  have hRunning : (t, inputs) ∈ s.running := mem_of_getElem? hGet
  have hMem : t ∈ s.active :=
    mem_append_left _ (mem_append_right _ (mem_map_of_mem hRunning))
  have hReadied := h.active_readied hMem
  obtain ⟨hFrame, hIter, hDead, -⟩ := h.log.readied t hReadied
  have hInputs : inputs = (x.meaning t.node).inputs := h.inputs _ hRunning
  obtain ⟨f, it, hRoot⟩ := h.root_of_active hMem
  obtain ⟨f', it', hMarked⟩ := mark_root (x := x) hRoot.found hRoot.root hFrame hIter
    Counts.markCompleted
  have hReflects : ∀ n, n ≠ x.graph.sink → Reflects x.graph (tokensAt s.log [] 0 n) it' n := by
    intro n hn
    apply hMarked.reflects (hRoot.reflects n hn)
    · rintro rfl
      exact h.readyWith_of_active hFree hMem hn
    · rintro hLog rfl
      exact (hRoot.begun hLog _ hRunning hn).markCompleted.settled
  let outputs := (x.meaning t.node).outputs
  let edges := x.graph.outEdges t.node
  let r := FrameState.activateEdges x [] t.node t.isDead 0 outputs edges (it', ⟨[], []⟩)
  obtain ⟨events, hGrew⟩ := activateEdges_grew x [] t.node t.isDead 0 outputs edges (it', ⟨[], []⟩)
  have hLogEq : r.2.log = events := hGrew.log
  have hKeeps : Keeps x.graph [] 0 s.log (s.log ++ events) it' r.1 := by
    have hSend := h.sendable hFree hMem
    have hKeep := activateEdges_keeps x (s := (it', ⟨[], []⟩)) t.isDead outputs s.log
      (fun _ => (hFree _).2.1) (by rwa [append_nil])
      (by rw [append_nil]; exact h.log.justified)
      (by
        intro n hn
        rw [append_nil]
        exact ⟨h.log.recorded n hn, hReflects n hn⟩)
    rw [append_nil] at hKeep
    rwa [← hLogEq]
  let ready := readiedIn events
  have hReadyEq : r.2.ready = ready := hGrew.ready
  have hProcess : x.process t.node t.isDead inputs = .ok outputs := by
    rw [hDead, hInputs]
    exact process_eq hSucceed hAcyclic t.node
  have hPropagate := propagateOutputs_root hFree hFrame hIter hMarked.found hMarked.root outputs
    (r := r) rfl
  have hPerm := perm_eraseIdx hGet
  have hOps : r.1.outstandingOps = (s.active.length + ready.length : Nat) := by
    rw [hGrew.ops, hMarked.ops, hRoot.ops]
    push_cast
    rfl
  obtain ⟨frames', hFrames, hNext⟩ : ∃ frames',
      propagateOutputs x (mark x s.frames t f it Counts.markCompleted) t outputs =
        .ok (frames', r.2) ∧ ((∃ f'', frames' [] = some f'' ∧
          IsRoot f'' { r.1 with outstandingOps := r.1.outstandingOps - 1 }) ∨
          r.1.outstandingOps = 1) := by
    split at hPropagate
    · rename_i hLast
      obtain ⟨frames', hEq, -⟩ := hPropagate
      exact ⟨frames', hEq, Or.inr hLast⟩
    · obtain ⟨f'', hEq, hRoot'⟩ := hPropagate
      exact ⟨_, hEq, Or.inl ⟨f'', by simp [Frames.set], hRoot'⟩⟩
  let s' : ExecutorState N V := { s with
    frames := frames'
    running := s.running.eraseIdx i
    leaving := s.leaving ++ [(t, .ok ready)]
    log := s.log ++ events ++ [.propagated t] }
  have hStep : s.propagate x i = .next s' := by
    unfold ExecutorState.propagate
    rw [hGet]
    simp only [hRoot.lookup hFrame hIter, hProcess, hFrames, hLogEq, hReadyEq]
    rfl
  have hActive : (t :: s'.active).Perm (s.active ++ ready) := by
    have hMap := hPerm.map Prod.fst
    have hHeld : s'.held = s.held ++ ready := by
      simp [s', ExecutorState.held, Except.toOption]
    refine List.Perm.trans ?_
      ((hMap.append_left s.ready).append_right s.held |>.append_right _).symm
    change (t :: (s.ready ++ (s.running.eraseIdx i).map Prod.fst ++ s'.held)).Perm _
    rw [hHeld]
    simp only [map_cons, append_assoc, cons_append]
    exact perm_middle.symm
  have hReadiedIn : readiedIn s'.log = readiedIn s.log ++ ready := by
    change readiedIn (s.log ++ events ++ [.propagated t]) = _
    rw [readiedIn_append, readiedIn_append]
    exact append_nil _
  have hCount : s.numOutstandingOps ≠ 0 := by
    have hLength := hPerm.length_eq
    rw [length_cons] at hLength
    rw [h.count]
    omega
  refine ⟨s', hStep, ?_, rfl, rfl, ready, rfl, hReadiedIn⟩
  constructor
  · exact h.log.propagate hAcyclic hFree hDead hGrew hKeeps
  · rw [hReadiedIn]
    change (readiedIn s.log ++ ready).Perm
      (s'.active ++ propagatedIn (s.log ++ events ++ [.propagated t]))
    rw [propagatedIn_append, propagatedIn_append, propagatedIn_activation hGrew.kinds, append_nil]
    refine (h.flow.append_right ready).trans ?_
    rw [append_assoc]
    refine (perm_append_comm.append_left s.active).trans ?_
    rw [← append_assoc]
    refine (hActive.symm.append_right _).trans ?_
    rw [cons_append, ← append_assoc]
    exact (perm_append_singleton _ _).symm
  · rw [timesReadied, hReadiedIn, countP_append]
    have hNone : ready.countP (fun t => t.at [] 0 x.graph.sink) = 0 := by
      rw [countP_eq_zero]
      intro t' hMem'
      simp [TaggedNode.at, (hGrew.tags t' hMem').2.2]
    rw [hNone]
    exact h.sinkOnce
  · intro p hp
    exact h.inputs p (mem_of_mem_eraseIdx hp)
  · intro p hp
    rw [mem_append, mem_singleton] at hp
    rcases hp with hp | rfl
    · exact h.succeed p hp
    · exact ⟨ready, rfl⟩
  · have hLength := hPerm.length_eq
    rw [length_cons] at hLength
    change s.numOutstandingOps = _
    rw [h.count]
    simp only [s', length_append, length_singleton]
    omega
  · have hLength := hActive.length_eq
    rw [length_cons, length_append] at hLength
    rcases hNext with ⟨f'', hFound, hRoot'⟩ | hLast
    · left
      refine ⟨f'', _, hFound, hRoot', ?_, ?_, ?_⟩
      · change r.1.outstandingOps - 1 = _
        rw [hOps]
        omega
      · intro n hn
        have hTracked := (hKeeps.tracked n hn).reflects
        change Reflects _ (tokensAt (s.log ++ events ++ [.propagated t]) [] 0 n) _ n
        rw [tokensAt_append_quiet (by simp [Event.isQuiet, Event.isActivation])]
        exact hTracked.of_counts rfl rfl
      · intro hLog p hp hNe
        have hOld := mem_of_mem_eraseIdx hp
        have hActiveMem : p.1 ∈ s.active :=
          mem_append_left _ (mem_append_right _ (mem_map_of_mem hOld))
        have hReady := h.readyWith_of_active hFree hActiveMem hNe
        change (r.1.counts p.1.node).Begun
        rw [(hKeeps.counts _ hNe hReady).1, congrFun hMarked.counts, hLog, if_pos rfl]
        by_cases hNode : p.1.node = t.node
        · rw [hNode, update_self]
          exact (hRoot.begun hLog _ hRunning (hNode ▸ hNe)).markCompleted
        · rw [update_of_ne hNode]
          exact hRoot.begun hLog p hOld hNe
    · right
      rw [hOps] at hLast
      exact eq_nil_of_length_eq_zero (by omega)
  · change FinishesAtZero s.numOutstandingOps (s.log ++ events ++ [.propagated t])
    rw [append_assoc]
    apply h.finished.append hCount hCount
    intro event hEvent
    rw [mem_append, mem_singleton] at hEvent
    rcases hEvent with hEvent | rfl
    · rintro rfl
      cases hGrew.kinds _ hEvent
    · exact (by simp)

theorem nodeDone_sound (h : LoopFreeSound x s) {ready : List (TaggedNode N)}
    (hGet : s.leaving[i]? = some (t, .ok ready)) :
    ∃ s', s.nodeDone i = .next s' ∧ LoopFreeSound x s' ∧
      s'.ready = s.ready ++ ready ∧ s'.running = s.running ∧ s'.leaving = s.leaving.eraseIdx i ∧
      readiedIn s'.log = readiedIn s.log := by
  have hPerm := perm_eraseIdx hGet
  have hLength := hPerm.length_eq
  rw [length_cons] at hLength
  have hCount := h.count
  let events : List (Event N V) :=
    if ready = [] ∧ s.numOutstandingOps = 1 then [.finished] else []
  let s' : ExecutorState N V := { s with
    ready := s.ready ++ ready
    leaving := s.leaving.eraseIdx i
    numOutstandingOps := s.numOutstandingOps + (ready.length - 1)
    log := s.log ++ events }
  have hStep : s.nodeDone i = .next s' := by
    unfold nodeDone
    rw [hGet]
    cases ready with
    | nil =>
      simp only [s', events, append_nil, true_and]
      rfl
    | cons t' rest =>
      simp only [s', events, reduceCtorEq, false_and, if_false, append_nil]
  have hQuiet : ∀ event ∈ events, event.isQuiet := by
    intro event hEvent
    simp only [events] at hEvent
    split at hEvent
    · rw [mem_singleton] at hEvent
      subst hEvent
      rfl
    · cases hEvent
  have hNone : propagatedIn events = [] := by
    simp only [events]
    split <;> rfl
  have hReadiedIn : readiedIn s'.log = readiedIn s.log := readiedIn_append_quiet hQuiet
  have hActive : s'.active.Perm s.active := by
    have hHeld : s.held.Perm (ready ++ s'.held) := hPerm.flatMap_right _
    refine Perm.trans ?_ (hHeld.append_left _).symm
    change (s.ready ++ ready ++ s.running.map Prod.fst ++ s'.held).Perm _
    simp only [append_assoc]
    apply Perm.append_left
    rw [← append_assoc, ← append_assoc]
    exact perm_append_comm.append_right _
  refine ⟨s', hStep, ?_, rfl, rfl, rfl, hReadiedIn⟩
  constructor
  · apply h.log.append_quiet hQuiet hNone
    intro t' inputs hEvent
    simp only [events] at hEvent
    split at hEvent <;> simp at hEvent
  · rw [hReadiedIn]
    rw [propagatedIn_append, hNone, append_nil]
    exact h.flow.trans (hActive.symm.append_right _)
  · rw [timesReadied, hReadiedIn]
    exact h.sinkOnce
  · exact h.inputs
  · intro p hp
    exact h.succeed p (mem_of_mem_eraseIdx hp)
  · simp only [s', length_append]
    omega
  · rcases h.root with ⟨f, it, hRoot⟩ | hIdle
    · left
      refine ⟨f, it, hRoot.found, hRoot.root, ?_, ?_, hRoot.begun⟩
      · rw [hRoot.ops, hActive.length_eq]
      · intro n hn
        rw [tokensAt_append_quiet hQuiet]
        exact hRoot.reflects n hn
    · right
      rw [hIdle] at hActive
      exact hActive.eq_nil
  · have hBefore : s.numOutstandingOps ≠ 0 := by
      omega
    by_cases hLast : ready = [] ∧ s.numOutstandingOps = 1
    · obtain ⟨rfl, hCountOne⟩ := hLast
      have hZero : s'.numOutstandingOps = 0 := by
        simp only [s', hCountOne]
        rfl
      have hFinished := h.finished
      rw [FinishesAtZero, if_neg hBefore] at hFinished
      rw [FinishesAtZero, if_pos hZero]
      refine ⟨s.log, ?_, hFinished⟩
      simp only [s', events, hCountOne, and_self, if_true]
    · have hEvents : events = [] := if_neg hLast
      have hAfter : s'.numOutstandingOps ≠ 0 := by
        simp only [s']
        have hOr : ready.length ≠ 0 ∨ s.numOutstandingOps ≠ 1 := by
          by_contra hNot
          push Not at hNot
          exact hLast ⟨eq_nil_of_length_eq_zero hNot.1, hNot.2⟩
        omega
      apply h.finished.append hBefore hAfter
      rw [hEvents]
      exact (by simp)

/-- The nodes without in-edges, which `RunAsync` puts into the ready list. -/
def roots (x : ExecutorImpl N V) : List (TaggedNode N) :=
  (x.graph.nodes.filter fun n => (x.graph.inEdges n).isEmpty).map fun n => ⟨n, [], 0, false⟩

omit [DecidableEq N] in
theorem mem_roots (hMem : t ∈ roots x) :
    x.graph.inEdges t.node = [] ∧ t.inputFrame = [] ∧ t.inputIter = 0 ∧ t.isDead = false := by
  obtain ⟨n, hFilter, rfl⟩ := mem_map.mp hMem
  exact ⟨List.isEmpty_iff.mp (mem_filter.mp hFilter).2, rfl, rfl, rfl⟩

omit [DecidableEq N] in
theorem readyWith_nil (n : N) :
    readyWith x.graph n ([] : List (Token N V)) = true ↔ x.graph.inEdges n = [] := by
  constructor
  · intro hReady
    by_contra hSome
    rw [(waits_initial x hSome).waiting] at hReady
    cases hReady
  · intro hNone
    have hComplete : complete x.graph n ([] : List (Token N V)) = true :=
      complete_of_perm (by rw [hNone]; exact List.Perm.nil)
    rw [readyWith, hComplete, Bool.true_or]

omit [DecidableEq N] in
theorem deadWith_nil {n : N} (hNone : x.graph.inEdges n = []) :
    deadWith x.graph n ([] : List (Token N V)) = false := by
  unfold deadWith
  split <;> simp [hNone]

theorem countP_roots (n : N) : (roots x).countP (fun t => t.at [] 0 n) =
    if x.graph.inEdges n = [] then 1 else 0 := by
  have hOnce := count_eq_one_of_mem x.graph.nodes_nodup (x.graph.mem_nodes n)
  have hAt : ((fun t : TaggedNode N => t.at [] 0 n) ∘ fun n => ⟨n, [], 0, false⟩) =
      fun n' => n' == n := by
    funext n'
    simp only [TaggedNode.at, comp, true_and]
    rfl
  rw [roots, countP_map, hAt]
  change ((x.graph.nodes.filter _).count n) = _
  split
  · rename_i hNone
    rw [count_filter (by simp [hNone]), hOnce]
  · rename_i hSome
    rw [count_eq_zero]
    intro hMem
    exact hSome (isEmpty_iff.mp (mem_filter.mp hMem).2)

omit [DecidableEq N] in
theorem runAsync_log {event : Event N V} (hMem : event ∈ (runAsync x).log) :
    (∃ t ∈ roots x, event = .readied t) ∨ event = .finished := by
  change event ∈ (roots x).map .readied ++ (if (roots x).isEmpty then [.finished] else []) at hMem
  rw [mem_append] at hMem
  rcases hMem with hMem | hMem
  · obtain ⟨t, hRoot, rfl⟩ := mem_map.mp hMem
    exact Or.inl ⟨t, hRoot, rfl⟩
  · split at hMem
    · exact Or.inr (mem_singleton.mp hMem)
    · cases hMem

omit [DecidableEq N] in
theorem readiedIn_runAsync : readiedIn (runAsync x).log = roots x := by
  change readiedIn ((roots x).map .readied ++ (if (roots x).isEmpty then [.finished] else [])) = _
  rw [readiedIn_append]
  have hFin : readiedIn (if (roots x).isEmpty then [Event.finished (N := N) (V := V)] else []) =
      [] := by
    split <;> rfl
  rw [hFin, append_nil, readiedIn, filterMap_map]
  exact filterMap_some

omit [DecidableEq N] in
theorem propagatedIn_runAsync : propagatedIn (runAsync x).log = [] := by
  rw [propagatedIn, filterMap_eq_nil_iff]
  intro event hMem
  rcases runAsync_log hMem with ⟨t, -, rfl⟩ | rfl
  · rfl
  · rfl

theorem tokensAt_runAsync (hSub : ∀ event ∈ log, event ∈ (runAsync x).log) (name : FrameName)
    (iter : Nat) (n : N) : tokensAt log name iter n = [] := by
  rw [tokensAt, filterMap_eq_nil_iff]
  intro event hMem
  rcases runAsync_log (hSub event hMem) with ⟨t, -, rfl⟩ | rfl
  · rfl
  · rfl

include hAcyclic in
theorem runAsync_logSound : LogSound x (runAsync x).log := by
  have hTokens := tokensAt_runAsync (x := x) (fun _ hMem => hMem) [] 0
  constructor
  · intro before event after hEq
    have hMem : event ∈ (runAsync x).log := by
      rw [hEq]
      exact mem_append_right _ mem_cons_self
    have hBefore : ∀ event ∈ before, event ∈ (runAsync x).log := by
      intro event' hMem'
      rw [hEq]
      exact mem_append_left _ hMem'
    rcases runAsync_log hMem with ⟨t, hRoot, rfl⟩ | rfl
    · obtain ⟨hNone, -, -, hDead⟩ := mem_roots hRoot
      simp only [Allowed, tokensAt_runAsync hBefore]
      exact ⟨(readyWith_nil _).mpr hNone, hDead.trans (deadWith_nil hNone).symm⟩
    · trivial
  · intro n _
    constructor
    · rw [hTokens]
      exact nil_subperm
    · rw [timesReadied, readiedIn_runAsync, countP_roots, hTokens]
      simp only [readyWith_nil]
  · intro t hMem
    rw [readiedIn_runAsync] at hMem
    obtain ⟨hNone, hFrame, hIter, hDead⟩ := mem_roots hMem
    refine ⟨hFrame, hIter, ?_, fun _ => hNone⟩
    rw [hDead, meaning_dead hAcyclic, allTokens, hNone]
    exact (deadWith_nil hNone).symm
  · intro n _ k hMem
    rw [hTokens] at hMem
    cases hMem
  · intro t hMem
    rw [propagatedIn_runAsync] at hMem
    cases hMem
  · intro t inputs hMem
    rcases runAsync_log hMem with ⟨t', -, hEq⟩ | hEq <;> cases hEq

include hFree in
omit [DecidableEq N] in
theorem inputCount_loopFree (name : String) : x.inputCount name = 0 := by
  rw [inputCount, countP_eq_zero]
  intro n _
  have hEnter := (hFree n).1
  unfold Graph.isEnter at hEnter
  split
  · rename_i hClass
    rw [hClass] at hEnter
    cases hEnter
  · simp

include hFree in
theorem runAsync_rootSound : ∃ f it, RootSound x (runAsync x) f it := by
  let it : IterationState N V := { x.newIterationState 0 with outstandingOps := (roots x).length }
  let f := (x.newFrameState 1 1 (x.inputCount "")).setIteration 0 (some it)
  refine ⟨f, it, ?_, ?_, ?_, ?_, nofun⟩
  · simp only [runAsync, update_self]
    rfl
  · constructor
    · rfl
    · simp [f, FrameState.setIteration, newFrameState]
    · rfl
    · rfl
    · change ((x.inputCount "" : Nat) : Int) = 0
      rw [inputCount_loopFree hFree]
      rfl
    · rfl
    · rfl
    · rfl
  · change ((roots x).length : Int) = ((roots x ++ [] ++ []).length : Nat)
    rw [append_nil, append_nil]
  · intro n _
    rw [tokensAt_runAsync fun _ hMem => hMem]
    constructor
    · intro hWaiting
      apply waits_initial
      intro hNone
      rw [(readyWith_nil n).mpr hNone] at hWaiting
      cases hWaiting
    · intro _ _ hLive
      cases hLive
    · intro slot
      unfold storedAt
      split <;> rfl

include hAcyclic hFree in
theorem runAsync_sound : LoopFreeSound x (runAsync x) where
  log := runAsync_logSound hAcyclic
  flow := by
    rw [readiedIn_runAsync, propagatedIn_runAsync]
    change (roots x).Perm (roots x ++ [] ++ [] ++ [])
    simp
  sinkOnce := by
    rw [timesReadied, readiedIn_runAsync, countP_roots]
    split <;> omega
  inputs := by rintro _ ⟨⟩
  succeed := by rintro _ ⟨⟩
  count := rfl
  root := Or.inl (runAsync_rootSound hFree)
  finished := by
    change FinishesAtZero ((roots x).length : Int) ((roots x).map .readied ++
      (if (roots x).isEmpty then [.finished] else []))
    unfold FinishesAtZero
    cases hRoots : roots x with
    | nil => exact ⟨[], rfl, by simp⟩
    | cons t rest =>
      rw [if_neg (by simp; omega)]
      intro event hMem
      rw [isEmpty_cons, if_neg Bool.false_ne_true, append_nil] at hMem
      obtain ⟨t', -, rfl⟩ := mem_map.mp hMem
      exact (by simp)

include hAcyclic hFree hOne hSucceed in
theorem step_sound (h : LoopFreeSound x s) {a : ThreadStep} (hStep : s.step x a = .next s') :
    LoopFreeSound x s' := by
  cases a with
  | start i =>
    cases hGet : s.ready[i]? with
    | none => simp [ExecutorState.step, ExecutorState.start, hGet] at hStep
    | some t =>
      obtain ⟨s'', hEq, hSound, -⟩ := start_sound hAcyclic hFree hOne h hGet
      cases hEq.symm.trans hStep
      exact hSound
  | propagate i =>
    cases hGet : s.running[i]? with
    | none => simp [ExecutorState.step, ExecutorState.propagate, hGet] at hStep
    | some p =>
      obtain ⟨s'', hEq, hSound, -⟩ := propagate_sound hAcyclic hFree hSucceed h hGet
      cases hEq.symm.trans hStep
      exact hSound
  | nodeDone i =>
    cases hGet : s.leaving[i]? with
    | none => simp [ExecutorState.step, ExecutorState.nodeDone, hGet] at hStep
    | some p =>
      obtain ⟨ready, hOk⟩ := h.succeed p (mem_of_getElem? hGet)
      obtain ⟨s'', hEq, hSound, -⟩ := nodeDone_sound h (t := p.1) (hGet.trans (by rw [← hOk]))
      cases hEq.symm.trans hStep
      exact hSound

include hAcyclic hFree hOne hSucceed in
theorem sound_of_reach (h : Reach (ExecutorState.step x) anyStep (runAsync x) s) :
    LoopFreeSound x s := by
  apply h.invariant (LoopFreeSound x) (runAsync_sound hAcyclic hFree)
  intro s a s' hSound _ hStep
  exact step_sound hAcyclic hFree hOne hSucceed hSound hStep

end Steps

end TensorFlowOnSpark.CommonRuntime
