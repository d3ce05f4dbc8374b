import TensorFlowOnSpark.CommonRuntime.RemoveIdentity

/-!
# Removing identity nodes and executions

An execution of the graph is one of the graph without its matches, and the other way
round, exactly as long as no death is lost and no value is found.
-/

namespace TensorFlowOnSpark.CommonRuntime

open Relation List

universe u v

variable {N : Type u} [DecidableEq N] {info : OpInfo N} {g : GraphState N}

structure Preserves (info : OpInfo N) (deadOutput : N → Nat → Bool) (dead : N → Bool)
    (g g' : GraphState N) : Prop where
  marks : MarksDead info deadOutput dead g'
  live : ∀ n ∈ g'.nodes, info.isSink n = false → dead n = false → ∀ input,
    NoInput info deadOutput dead g' n input ↔ NoInput info deadOutput dead g n input
  runs : ∀ (V : Type v) (compute : N → (Nat → Option V) → Nat → V), HandsOn info compute →
    ∀ x : Run N V, Runs info deadOutput dead compute g' x ↔
      ∃ y, Runs info deadOutput dead compute g y ∧ ∀ n ∈ g'.nodes, SameAt x y n
  order : ∀ n ∈ g'.nodes, ∀ m ∈ g'.nodes, TransGen g.Feeds n m → TransGen g'.Feeds n m

variable {e : Link N}

section Order

variable (hAcyclic : g.Acyclic)
include hAcyclic

theorem feeds_resolved (hMem : e ∈ g.edges) (hKept : e.dst ∉ matching info g) :
    (removeIdentityNodes info g).1.Feeds (resolved info g e).src e.dst := by
  have hIn : resolved info g e ∈ (removeIdentityNodes info g).1.inEdges e.dst :=
    (mem_inEdges_after hAcyclic hKept).mpr ⟨e, GraphState.mem_inEdges.mpr ⟨hMem, rfl⟩, rfl⟩
  obtain ⟨hEdge, hDst⟩ := GraphState.mem_inEdges.mp hIn
  exact ⟨_, hEdge, rfl, hDst⟩

omit hAcyclic in
theorem eq_inEdgeOf {e : Link N} (hMem : e ∈ g.edges) (hMatch : e.dst ∈ matching info g) :
    inEdgeOf info g e.dst = e := by
  obtain ⟨-, -, hIn, -⟩ := mem_matching.mp hMatch
  have hHere : e ∈ g.inEdges e.dst := GraphState.mem_inEdges.mpr ⟨hMem, rfl⟩
  rw [hIn] at hHere
  exact (mem_singleton.mp hHere).symm

/-- A path to a match becomes a path to the node whose output it hands on. -/
theorem path_after {n m : N} (hKept : n ∉ matching info g) (hPath : TransGen g.Feeds n m) :
    (m ∉ matching info g → TransGen (removeIdentityNodes info g).1.Feeds n m) ∧
      ∀ s output, Passes info g m s output →
        s = n ∨ TransGen (removeIdentityNodes info g).1.Feeds n s := by
  have hPasses : ∀ e ∈ g.edges, ∀ s output, Passes info g e.dst s output →
      (e.src ∉ matching info g ∧ s = e.src) ∨ Passes info g e.src s output := by
    intro e hMem s output h
    have hIs := eq_inEdgeOf hMem h.mem
    cases h with
    | direct hMatch hSrc hSlots =>
      left
      rw [hIs] at hSrc ⊢
      exact ⟨hSrc, rfl⟩
    | chain hMatch hNext =>
      right
      rw [hIs] at hNext
      exact hNext
  induction hPath with
  | single hEdge =>
    obtain ⟨e, hMem, rfl, rfl⟩ := hEdge
    constructor
    · intro hDst
      have hFeeds := feeds_resolved hAcyclic hMem hDst
      rw [resolved_of_kept info hKept] at hFeeds
      exact .single hFeeds
    · intro s output h
      rcases hPasses e hMem s output h with ⟨-, hEq⟩ | hNext
      · exact Or.inl hEq
      · exact absurd hNext.mem hKept
  | tail _ hEdge ih =>
    obtain ⟨e, hMem, rfl, rfl⟩ := hEdge
    constructor
    · intro hDst
      have hFeeds := feeds_resolved hAcyclic hMem hDst
      by_cases hSrc : e.src ∈ matching info g
      · obtain ⟨output, hHands, -⟩ := resolved_spec hAcyclic hSrc
        rcases ih.2 _ output hHands with hEq | hPath
        · rw [hEq] at hFeeds
          exact .single hFeeds
        · exact hPath.tail hFeeds
      · rw [resolved_of_kept info hSrc] at hFeeds
        exact (ih.1 hSrc).tail hFeeds
    · intro s output h
      rcases hPasses e hMem s output h with ⟨hSrc, rfl⟩ | hNext
      · exact Or.inr (ih.1 hSrc)
      · exact ih.2 s output hNext

end Order

section Executions

variable {deadOutput : N → Nat → Bool} {dead : N → Bool} (hWell : WellFormed info g)
  (hBranches : OnlyBranches info deadOutput) (hMarks : MarksDead info deadOutput dead g)
include hWell hBranches hMarks

theorem Safe.bringsNothing (hSafe : Safe info deadOutput dead g) (hMem : e ∈ g.edges)
    (hMerge : info.isMerge e.dst) :
    bringsNothing info deadOutput dead (resolved info g e) =
      CommonRuntime.bringsNothing info deadOutput dead e := by
  rw [Bool.eq_iff_iff, bringsNothing_resolved hBranches hMarks hWell.acyclic e]
  constructor
  · exact Or.inl
  · rintro (h | ⟨hData, s, output, hPasses, hDead⟩)
    · exact h
    · have hGone := hSafe.value e hMem hData hMerge s output hPasses hDead
      obtain ⟨output', hPasses', hSome, hOutput⟩ := resolved_spec hWell.acyclic hPasses.mem
      obtain ⟨hSrc, rfl⟩ := hPasses.unique hPasses'
      have hIs : e.slots.isSome := by simpa [Link.isControlEdge] using hData
      obtain ⟨slots, hSlots⟩ := Option.isSome_iff_exists.mp (hSome.trans hIs)
      simp only [CommonRuntime.bringsNothing, hSlots, hOutput slots.1 slots.2 hSlots, ← hSrc, hGone]

theorem Safe.marks (hSafe : Safe info deadOutput dead g) :
    MarksDead info deadOutput dead (removeIdentityNodes info g).1 := by
  intro n hMem
  obtain ⟨hNode, hKept⟩ := (mem_nodes_after hWell.acyclic).mp hMem
  have hEdges : ∀ e', e' ∈ (removeIdentityNodes info g).1.inEdges n ↔
      ∃ e ∈ g.inEdges n, resolved info g e = e' :=
    fun _ => mem_inEdges_after hWell.acyclic hKept
  have hDead := hMarks n hNode
  rw [hDead]
  unfold isDead
  cases hQuiet : info.isSink n || info.isControlTrigger n with
  | true => rfl
  | false =>
    cases hMerge : info.isMerge n with
    | true =>
      simp only [Bool.false_eq_true, if_false, if_true]
      rw [Bool.eq_iff_iff, all_eq_true, all_eq_true]
      constructor
      · intro h e' he'
        obtain ⟨e, he, rfl⟩ := (hEdges e').mp he'
        obtain ⟨hIn, hDst⟩ := GraphState.mem_inEdges.mp he
        rw [hSafe.bringsNothing hWell hBranches hMarks hIn (hDst ▸ hMerge)]
        exact h e he
      · intro h e he
        obtain ⟨hIn, hDst⟩ := GraphState.mem_inEdges.mp he
        rw [← hSafe.bringsNothing hWell hBranches hMarks hIn (hDst ▸ hMerge)]
        exact h _ ((hEdges _).mpr ⟨e, he, rfl⟩)
    | false =>
      simp only [Bool.false_eq_true, if_false]
      rw [Bool.eq_iff_iff, any_eq_true, any_eq_true]
      constructor
      · intro h
        have hDeath : dead n := by
          rw [hDead, isDead, hQuiet, hMerge]
          simpa using h
        obtain ⟨e, he, hCarries⟩ := hSafe.death n hNode hKept hMerge hDeath
        exact ⟨_, (hEdges _).mpr ⟨e, he, rfl⟩,
          (carriesDeath_resolved hBranches hMarks hWell.acyclic e).mpr hCarries⟩
      · rintro ⟨e', he', hCarries⟩
        obtain ⟨e, he, rfl⟩ := (hEdges e').mp he'
        exact ⟨e, he, ((carriesDeath_resolved hBranches hMarks hWell.acyclic e).mp hCarries).1⟩

omit hBranches hMarks in
theorem mem_input_after {n : N} (hKept : n ∉ matching info g) {input : Nat} :
    (∃ e' ∈ (removeIdentityNodes info g).1.inEdges n, ∃ output, e'.slots = some (output, input)) ↔
      ∃ e ∈ g.inEdges n, ∃ output, e.slots = some (output, input) := by
  constructor
  · rintro ⟨e', he', output, hSlots⟩
    obtain ⟨e, he, rfl⟩ := (mem_inEdges_after hWell.acyclic hKept).mp he'
    obtain ⟨output', hSlots'⟩ := resolved_input hSlots
    exact ⟨e, he, output', hSlots'⟩
  · rintro ⟨e, he, output, hSlots⟩
    obtain ⟨output', hSlots'⟩ := (resolved_leads info g e).input hSlots
    exact ⟨_, (mem_inEdges_after hWell.acyclic hKept).mpr ⟨e, he, rfl⟩, output', hSlots'⟩

variable {output output' input : Nat}

theorem Safe.gone (hSafe : Safe info deadOutput dead g) (hMem : e ∈ g.edges)
    (hSink : info.isSink e.dst = false) (hAlive : dead e.dst = false)
    (hSlots : e.slots = some (output, input))
    (hSlots' : (resolved info g e).slots = some (output', input)) :
    gone info deadOutput dead (resolved info g e).src output' =
      gone info deadOutput dead e.src output := by
  by_cases hMerge : info.isMerge e.dst
  · have hSame := hSafe.bringsNothing hWell hBranches hMarks hMem hMerge
    simpa [CommonRuntime.bringsNothing, hSlots, hSlots'] using hSame
  · have hTrigger : info.isControlTrigger e.dst = false := by
      cases hIs : info.isControlTrigger e.dst with
      | false => rfl
      | true => simp [hWell.noInput e hMem hIs] at hSlots
    have hDead := hMarks e.dst (g.dst_mem e hMem)
    rw [hAlive, isDead, hSink, hTrigger, Bool.not_eq_true _ |>.mp hMerge] at hDead
    have hNone : carriesDeath info deadOutput dead e = false := by
      have hAny := any_eq_false.mp hDead.symm e (GraphState.mem_inEdges.mpr ⟨hMem, rfl⟩)
      simpa using hAny
    have hNone' : carriesDeath info deadOutput dead (resolved info g e) = false := by
      rw [← (resolved_leads info g e).carriesDeath hBranches hMarks (by simp [hSlots]), hNone]
    simp only [carriesDeath, hSlots, hSlots', Bool.or_eq_false_iff] at hNone hNone'
    rw [hNone.2, hNone'.2]

theorem Safe.live (hSafe : Safe info deadOutput dead g) {n : N}
    (hMem : n ∈ (removeIdentityNodes info g).1.nodes) (hSink : info.isSink n = false)
    (hAlive : dead n = false) (input : Nat) :
    NoInput info deadOutput dead (removeIdentityNodes info g).1 n input ↔
      NoInput info deadOutput dead g n input := by
  obtain ⟨-, hKept⟩ := (mem_nodes_after hWell.acyclic).mp hMem
  constructor
  · intro h e he output hSlots
    obtain ⟨hIn, rfl⟩ := GraphState.mem_inEdges.mp he
    obtain ⟨output', hSlots'⟩ := (resolved_leads info g e).input hSlots
    rw [← hSafe.gone hWell hBranches hMarks hIn hSink hAlive hSlots hSlots']
    exact h _ ((mem_inEdges_after hWell.acyclic hKept).mpr ⟨e, he, rfl⟩) output' hSlots'
  · intro h e' he' output' hSlots'
    obtain ⟨e, he, rfl⟩ := (mem_inEdges_after hWell.acyclic hKept).mp he'
    obtain ⟨hIn, rfl⟩ := GraphState.mem_inEdges.mp he
    obtain ⟨output, hSlots⟩ := resolved_input hSlots'
    rw [hSafe.gone hWell hBranches hMarks hIn hSink hAlive hSlots hSlots']
    exact h e he output hSlots

variable {V : Type v} {compute : N → (Nat → Option V) → Nat → V} (hHands : HandsOn info compute)
include hHands

variable {y : Run N V}

/-- A match that is alive has the output that it hands on. -/
theorem Runs.handed (hRuns : Runs info deadOutput dead compute g y) {i s : N}
    {output : Nat} (hPasses : Passes info g i s output) (hAlive : dead i = false) :
    y.out i 0 = y.out s output := by
  have hStep : ∀ i, i ∈ matching info g → dead i = false → ∀ output input value,
      (inEdgeOf info g i).slots = some (output, input) →
      y.out (inEdgeOf info g i).src output = some value → y.out i 0 = some value := by
    intro i hMatch hAlive output input value hSlots hValue
    obtain ⟨hMem, hIdentity, -⟩ := mem_matching.mp hMatch
    obtain ⟨hEdge, hDst⟩ := inEdgeOf_mem hMatch
    have hClass : info.opClass i = .identity := by simpa [OpInfo.isIdentity] using hIdentity
    have hVisit := hRuns.visits i hMem (by simp [OpInfo.isSink, hClass]) hAlive
    obtain rfl : input = 0 :=
      hWell.oneInput _ hEdge (by rw [hDst]; exact hIdentity) _ _ hSlots
    have hArrived := hVisit.arrived _ (GraphState.mem_inEdges.mpr ⟨hEdge, hDst⟩) _ _ hSlots
    have hSeen := hVisit.other (by simp [OpInfo.isMerge, hClass])
    rw [hRuns.out i hMem, gone_identity hBranches hIdentity, hAlive]
    simp only [Bool.false_eq_true, if_false]
    rw [hHands i hIdentity _ value (by rw [hSeen, hArrived, hValue])]
  have hHere : ∀ s output, s ∈ g.nodes → gone info deadOutput dead s output = false →
      ∃ value, y.out s output = some value := by
    intro s output hMem hGone
    exact ⟨_, by rw [hRuns.out s hMem, hGone]; rfl⟩
  induction hPasses with
  | @direct i output input hMatch hKept hSlots =>
    have hDead := dead_of_match hMarks hMatch
    rw [hAlive] at hDead
    simp only [carriesDeath, hSlots] at hDead
    have hGone := (Bool.or_eq_false_iff.mp hDead.symm).2
    obtain ⟨value, hValue⟩ := hHere _ output (g.src_mem _ (inEdgeOf_mem hMatch).1) hGone
    rw [hValue]
    exact hStep i hMatch hAlive output input value hSlots hValue
  | @chain i s output hMatch hNext ih =>
    obtain ⟨-, -, -, output', input, hSlots, -⟩ := mem_matching.mp hMatch
    obtain ⟨hEdge, -⟩ := inEdgeOf_mem hMatch
    obtain ⟨hNextMem, hNextIdentity, -⟩ := mem_matching.mp hNext.mem
    have hDead := dead_of_match hMarks hMatch
    rw [hAlive] at hDead
    simp only [carriesDeath, hSlots, gone_identity hBranches hNextIdentity, Bool.or_self] at hDead
    obtain rfl : output' = 0 := hWell.oneOutput _ hEdge hNextIdentity _ _ hSlots
    have hGone : gone info deadOutput dead (inEdgeOf info g i).src 0 = false := by
      rw [gone_identity hBranches hNextIdentity, ← hDead]
    obtain ⟨value, hValue⟩ := hHere _ 0 hNextMem hGone
    rw [← ih hDead.symm, hValue]
    exact hStep i hMatch hAlive 0 input value hSlots hValue

theorem Runs.out_resolved (hRuns : Runs info deadOutput dead compute g y)
    (hSafe : Safe info deadOutput dead g) (hMem : e ∈ g.edges) (hSink : info.isSink e.dst = false)
    (hAlive : dead e.dst = false) (hSlots : e.slots = some (output, input))
    (hSlots' : (resolved info g e).slots = some (output', input)) :
    y.out (resolved info g e).src output' = y.out e.src output := by
  by_cases hMatch : e.src ∈ matching info g
  · obtain ⟨k, hPasses, -, hOutput⟩ := resolved_spec hWell.acyclic hMatch
    obtain rfl := hOutput _ _ hSlots'
    obtain ⟨hNode, hIdentity, -⟩ := mem_matching.mp hMatch
    obtain rfl : output = 0 := hWell.oneOutput e hMem hIdentity _ _ hSlots
    cases hDead : dead e.src with
    | false => exact (Runs.handed hWell hBranches hMarks hHands hRuns hPasses hDead).symm
    | true =>
      have hSame := hSafe.gone hWell hBranches hMarks hMem hSink hAlive hSlots hSlots'
      have hEmpty : gone info deadOutput dead e.src 0 := by
        rw [gone_identity hBranches hIdentity, hDead]
      have hRoot : (resolved info g e).src ∈ g.nodes := resolved_src_mem hNode
      rw [hRuns.out _ hRoot, hRuns.out _ hNode, hSame, hEmpty]
      rfl
  · have hEq := resolved_of_kept info hMatch
    rw [hEq] at hSlots' ⊢
    rw [hSlots] at hSlots'
    obtain rfl : output = output' := congrArg Prod.fst (Option.some.inj hSlots')
    rfl

def handedOn (info : OpInfo N) (g : GraphState N) (x : Run N V) (i : N) : Option V :=
  match (resolved info g ⟨i, i, some (0, 0)⟩).slots with
  | some (output, _) => x.out (resolved info g ⟨i, i, some (0, 0)⟩).src output
  | none => none

omit hHands hBranches hMarks in
theorem handedOn_eq (x : Run N V) {i s : N} {output : Nat} (hPasses : Passes info g i s output) :
    handedOn info g x i = x.out s output := by
  have hMatch : (⟨i, i, some (0, 0)⟩ : Link N).src ∈ matching info g := hPasses.mem
  obtain ⟨k, hPasses', hSome, hOutput⟩ := resolved_spec hWell.acyclic hMatch
  obtain ⟨slots, hSlots⟩ := Option.isSome_iff_exists.mp hSome
  obtain ⟨hSrc, hk⟩ := hPasses.unique hPasses'
  rw [handedOn, hSlots, hSrc, hk, ← hOutput slots.1 slots.2 hSlots]

def onlyInput (info : OpInfo N) (g : GraphState N) (x : Run N V) (i : N) (input : Nat) : Option V :=
  if input = 0 then handedOn info g x i else none

def extend (info : OpInfo N) (deadOutput : N → Nat → Bool) (dead : N → Bool)
    (compute : N → (Nat → Option V) → Nat → V) (g : GraphState N) (x : Run N V) : Run N V where
  arrived n := if n ∈ matching info g then onlyInput info g x n else x.arrived n
  seen n := if n ∈ matching info g then onlyInput info g x n else x.seen n
  out n := if n ∈ matching info g then fun output =>
      if gone info deadOutput dead n output then none
      else some (compute n (onlyInput info g x n) output)
    else x.out n

variable {x : Run N V}

theorem extend_out
    (hRuns : Runs info deadOutput dead compute (removeIdentityNodes info g).1 x)
    (hSafe : Safe info deadOutput dead g) (hMem : e ∈ g.edges) (hSink : info.isSink e.dst = false)
    (hAlive : dead e.dst = false) (hSlots : e.slots = some (output, input))
    (hSlots' : (resolved info g e).slots = some (output', input)) :
    (extend info deadOutput dead compute g x).out e.src output =
      x.out (resolved info g e).src output' := by
  by_cases hMatch : e.src ∈ matching info g
  · obtain ⟨k, hPasses, -, hOutput⟩ := resolved_spec hWell.acyclic hMatch
    obtain rfl := hOutput _ _ hSlots'
    obtain ⟨-, hIdentity, -⟩ := mem_matching.mp hMatch
    obtain rfl : output = 0 := hWell.oneOutput e hMem hIdentity _ _ hSlots
    have hRoot : (resolved info g e).src ∈ (removeIdentityNodes info g).1.nodes :=
      (mem_nodes_after hWell.acyclic).mpr
        ⟨resolved_src_mem (g.src_mem e hMem), resolved_src hWell.acyclic e⟩
    have hSame := hSafe.gone hWell hBranches hMarks hMem hSink hAlive hSlots hSlots'
    simp only [extend, if_pos hMatch]
    rw [hRuns.out _ hRoot, hSame]
    cases hGone : gone info deadOutput dead e.src 0 with
    | true => rfl
    | false =>
      rw [hHands e.src hIdentity]
      rw [onlyInput, handedOn_eq hWell x hPasses, hRuns.out _ hRoot, hSame, hGone]
      rfl
  · have hEq := resolved_of_kept info hMatch
    rw [hEq] at hSlots' ⊢
    rw [hSlots] at hSlots'
    obtain rfl : output = output' := congrArg Prod.fst (Option.some.inj hSlots')
    simp only [extend, if_neg hMatch]

theorem extend_runs
    (hRuns : Runs info deadOutput dead compute (removeIdentityNodes info g).1 x)
    (hSafe : Safe info deadOutput dead g) :
    Runs info deadOutput dead compute g (extend info deadOutput dead compute g x) := by
  constructor
  · intro n hMem hSink hAlive
    by_cases hMatch : n ∈ matching info g
    · obtain ⟨-, hIdentity, hIn, output, input, hSlots, -⟩ := mem_matching.mp hMatch
      obtain ⟨hEdge, hDst⟩ := inEdgeOf_mem hMatch
      have hClass : info.opClass n = .identity := by simpa [OpInfo.isIdentity] using hIdentity
      obtain rfl : input = 0 :=
        hWell.oneInput _ hEdge (by rw [hDst]; exact hIdentity) _ _ hSlots
      refine ⟨?_, ?_, ?_, ?_⟩
      · intro e he output' input' hSlots'
        rw [hIn, mem_singleton] at he
        subst he
        rw [hSlots] at hSlots'
        obtain ⟨rfl, rfl⟩ := Prod.mk.inj (Option.some.inj hSlots')
        obtain ⟨k, hResolved⟩ := (resolved_leads info g _).input hSlots
        rw [extend_out hWell hBranches hMarks hHands hRuns hSafe hEdge (by rw [hDst]; exact hSink)
          (by rw [hDst]; exact hAlive) hSlots hResolved]
        simp only [extend, if_pos hMatch, onlyInput, if_true]
        by_cases hNext : (inEdgeOf info g n).src ∈ matching info g
        · obtain ⟨k', hPasses, -, hOutput⟩ := resolved_spec hWell.acyclic hNext
          rw [handedOn_eq hWell x (.chain hMatch hPasses), hOutput _ _ hResolved]
        · rw [resolved_of_kept info hNext] at hResolved ⊢
          rw [hSlots] at hResolved
          obtain rfl : output = k := congrArg Prod.fst (Option.some.inj hResolved)
          exact handedOn_eq hWell x (.direct hMatch hNext hSlots)
      · intro input' hNone
        have hNe : input' ≠ 0 := by
          rintro rfl
          exact hNone _ (by rw [hIn]; exact mem_singleton.mpr rfl) _ hSlots
        simp only [extend, if_pos hMatch, onlyInput, if_neg hNe]
      · intro hMerge
        simp [OpInfo.isMerge, hClass] at hMerge
      · intro _
        simp only [extend, if_pos hMatch]
    · have hMem' := (mem_nodes_after hWell.acyclic).mpr ⟨hMem, hMatch⟩
      have hVisit := hRuns.visits n hMem' hSink hAlive
      have hArrived : (extend info deadOutput dead compute g x).arrived n = x.arrived n := by
        simp only [extend, if_neg hMatch]
      have hSeen : (extend info deadOutput dead compute g x).seen n = x.seen n := by
        simp only [extend, if_neg hMatch]
      refine ⟨?_, ?_, by rw [hArrived, hSeen]; exact hVisit.merge,
        by rw [hArrived, hSeen]; exact hVisit.other⟩
      · intro e he output input hSlots
        obtain ⟨hIn, rfl⟩ := GraphState.mem_inEdges.mp he
        obtain ⟨output', hSlots'⟩ := (resolved_leads info g e).input hSlots
        rw [hArrived, extend_out hWell hBranches hMarks hHands hRuns hSafe hIn hSink hAlive hSlots
          hSlots']
        exact hVisit.arrived _ ((mem_inEdges_after hWell.acyclic hMatch).mpr ⟨e, he, rfl⟩) _ _
          hSlots'
      · intro input hNone
        rw [hArrived]
        refine hVisit.unfed input fun e' he' output hSlots => ?_
        obtain ⟨e, he, output', hSlots'⟩ :=
          (mem_input_after hWell hMatch).mp ⟨e', he', output, hSlots⟩
        exact hNone e he output' hSlots'
  · intro n hMem output
    by_cases hMatch : n ∈ matching info g
    · simp only [extend, if_pos hMatch]
    · simp only [extend, if_neg hMatch]
      exact hRuns.out n ((mem_nodes_after hWell.acyclic).mpr ⟨hMem, hMatch⟩) output

theorem runs_after (hRuns : Runs info deadOutput dead compute g y)
    (hSafe : Safe info deadOutput dead g)
    (hSame : ∀ n ∈ (removeIdentityNodes info g).1.nodes, SameAt x y n) :
    Runs info deadOutput dead compute (removeIdentityNodes info g).1 x := by
  constructor
  · intro n hMem hSink hAlive
    obtain ⟨hNode, hKept⟩ := (mem_nodes_after hWell.acyclic).mp hMem
    obtain ⟨hArrived, hSeen, -⟩ := hSame n hMem
    have hVisit := hRuns.visits n hNode hSink hAlive
    refine ⟨?_, ?_, by rw [hArrived, hSeen]; exact hVisit.merge,
      by rw [hArrived, hSeen]; exact hVisit.other⟩
    · intro e' he' output' input hSlots'
      obtain ⟨e, he, rfl⟩ := (mem_inEdges_after hWell.acyclic hKept).mp he'
      obtain ⟨hIn, rfl⟩ := GraphState.mem_inEdges.mp he
      obtain ⟨output, hSlots⟩ := resolved_input hSlots'
      have hSrc := (removeIdentityNodes info g).1.src_mem _ (GraphState.mem_inEdges.mp he').1
      rw [hArrived, (hSame _ hSrc).2.2, Runs.out_resolved hWell hBranches hMarks hHands hRuns hSafe
        hIn hSink hAlive hSlots hSlots']
      exact hVisit.arrived e he _ _ hSlots
    · intro input hNone
      rw [hArrived]
      refine hVisit.unfed input fun e he output hSlots => ?_
      obtain ⟨e', he', output', hSlots'⟩ :=
        (mem_input_after hWell hKept).mpr ⟨e, he, output, hSlots⟩
      exact hNone e' he' output' hSlots'
  · intro n hMem output
    obtain ⟨-, hSeen, hOut⟩ := hSame n hMem
    rw [hOut, hSeen]
    exact hRuns.out n ((mem_nodes_after hWell.acyclic).mp hMem).1 output

end Executions

section Exactly

variable {deadOutput : N → Nat → Bool} {dead : N → Bool} (hWell : WellFormed info g)
  (hBranches : OnlyBranches info deadOutput) (hMarks : MarksDead info deadOutput dead g)
include hWell hBranches hMarks

section

variable (h : Preserves.{u, v} info deadOutput dead g (removeIdentityNodes info g).1)

include h

theorem Preserves.death
    {n : N} (hMem : n ∈ g.nodes) (hKept : n ∉ matching info g) (hMerge : info.isMerge n = false)
    (hDead : dead n) : ∃ e ∈ g.inEdges n, carriesDeath info deadOutput dead e ∧
      (e.isControlEdge → ∀ s output, Passes info g e.src s output → dead s) := by
  have hMark := h.marks n ((mem_nodes_after hWell.acyclic).mpr ⟨hMem, hKept⟩)
  rw [hDead, isDead, hMerge] at hMark
  cases hQuiet : info.isSink n || info.isControlTrigger n with
  | true => simp [hQuiet] at hMark
  | false =>
    simp only [hQuiet] at hMark
    obtain ⟨e', he', hCarries⟩ := any_eq_true.mp hMark.symm
    obtain ⟨e, he, rfl⟩ := (mem_inEdges_after hWell.acyclic hKept).mp he'
    exact ⟨e, he, (carriesDeath_resolved hBranches hMarks hWell.acyclic e).mp hCarries⟩

theorem Preserves.value
    (hMem : e ∈ g.edges) (hData : e.isControlEdge = false) (hMerge : info.isMerge e.dst) {s : N}
    {output : Nat} (hPasses : Passes info g e.src s output) (hDead : dead s) :
    gone info deadOutput dead s output := by
  have hClass : info.opClass e.dst = .merge := by simpa [OpInfo.isMerge] using hMerge
  have hKept : e.dst ∉ matching info g := by
    intro hMatch
    obtain ⟨-, hIdentity, -⟩ := mem_matching.mp hMatch
    simp [OpInfo.isIdentity, hClass] at hIdentity
  have hNode := (mem_nodes_after hWell.acyclic).mpr ⟨g.dst_mem e hMem, hKept⟩
  have hIs : e.slots.isSome := by simpa [Link.isControlEdge] using hData
  obtain ⟨⟨output₀, input⟩, hSlots⟩ := Option.isSome_iff_exists.mp hIs
  obtain ⟨output', hPasses', -, hOutput⟩ := resolved_spec hWell.acyclic hPasses.mem
  obtain ⟨rfl, rfl⟩ := hPasses.unique hPasses'
  obtain ⟨k, hSlots'⟩ := (resolved_leads info g e).input hSlots
  obtain rfl := hOutput _ _ hSlots'
  have hHere := (mem_inEdges_after hWell.acyclic hKept).mpr
    ⟨e, GraphState.mem_inEdges.mpr ⟨hMem, rfl⟩, rfl⟩
  cases hAlive : dead e.dst with
  | true =>
    have hMark := h.marks e.dst hNode
    rw [hAlive, isDead] at hMark
    simp only [OpInfo.isSink, OpInfo.isControlTrigger, OpInfo.isMerge, hClass] at hMark
    have hAll := all_eq_true.mp hMark.symm _ hHere
    simpa only [bringsNothing, hSlots'] using hAll
  | false =>
    have hNothing : NoInput info deadOutput dead g e.dst input := by
      intro e₁ he₁ output₁ hSlots₁
      obtain ⟨hIn, hDst⟩ := GraphState.mem_inEdges.mp he₁
      obtain rfl := hWell.oneEdge e₁ hIn e hMem hDst _ _ _ hSlots₁ hSlots
      obtain ⟨-, hIdentity, -⟩ := mem_matching.mp hPasses.mem
      rw [gone_identity hBranches hIdentity, hPasses.dead_eq hBranches hMarks hWell.acyclic, hDead,
        Bool.true_or]
    exact (h.live e.dst hNode (by simp [OpInfo.isSink, hClass]) hAlive input).mpr hNothing _ hHere k
      hSlots'

end

theorem removeIdentityNodes_preserves_iff :
    Preserves.{u, v} info deadOutput dead g (removeIdentityNodes info g).1 ↔
      Safe info deadOutput dead g := by
  constructor
  · intro h
    constructor
    · intro n hMem hKept hMerge hDead
      exact h.death hWell hBranches hMarks hMem hKept hMerge hDead
    · intro e hMem hData hMerge s output hPasses hDead
      exact h.value hWell hBranches hMarks hMem hData hMerge hPasses hDead
  · intro hSafe
    constructor
    · exact hSafe.marks hWell hBranches hMarks
    · intro n hMem hSink hAlive input
      exact hSafe.live hWell hBranches hMarks hMem hSink hAlive input
    · intro V compute hHands x
      constructor
      · intro hRuns
        refine ⟨_, extend_runs hWell hBranches hMarks hHands hRuns hSafe, fun n hMem => ?_⟩
        have hKept := ((mem_nodes_after hWell.acyclic).mp hMem).2
        simp only [SameAt, extend, if_neg hKept, and_self]
      · rintro ⟨y, hRuns, hSame⟩
        exact runs_after hWell hBranches hMarks hHands hRuns hSafe hSame
    · intro n hn m hm hPath
      exact (path_after hWell.acyclic ((mem_nodes_after hWell.acyclic).mp hn).2 hPath).1
        ((mem_nodes_after hWell.acyclic).mp hm).2

end Exactly

/-- An input, a `Switch`, an identity after its first output, and a node that waits for it. -/
def branchInfo : OpInfo (Fin 4) :=
  ⟨fun n => if n = 1 then .switch else if n = 2 then .identity else .other, fun _ _ => false⟩

def branchGraph : GraphState (Fin 4) where
  nodes := [0, 1, 2, 3]
  edges := [⟨0, 1, some (0, 0)⟩, ⟨1, 2, some (0, 0)⟩, ⟨2, 3, none⟩]
  nodes_nodup := by decide
  src_mem := by decide
  dst_mem := by decide

theorem branchGraph_wellFormed : WellFormed branchInfo branchGraph where
  acyclic := by
    refine Dependency.acyclic_of_rank Fin.val ?_
    rintro n m ⟨e, hMem, rfl, rfl⟩
    revert e
    decide
  oneEdge := by
    have h : ∀ e ∈ branchGraph.edges, ∀ e' ∈ branchGraph.edges, e.dst = e'.dst → e = e' := by decide
    intro e he e' he' hDst _ _ _ _ _
    exact h e he e' he' hDst
  oneOutput := by
    have h : ∀ e ∈ branchGraph.edges, ∀ slots ∈ e.slots, slots.1 = 0 := by decide
    intro e he _ output input hSlots
    exact h e he (output, input) hSlots
  oneInput := by
    have h : ∀ e ∈ branchGraph.edges, ∀ slots ∈ e.slots, slots.2 = 0 := by decide
    intro e he _ output input hSlots
    exact h e he (output, input) hSlots
  noInput := by decide

/-- With both branches alive nothing changes. -/
theorem branchGraph_alive : Preserves.{0, 0} branchInfo (fun _ _ => false) (fun _ => false)
    branchGraph (removeIdentityNodes branchInfo branchGraph).1 :=
  (removeIdentityNodes_preserves_iff branchGraph_wellFormed (fun _ _ h => by cases h)
    (by unfold MarksDead; decide)).mpr
    ⟨fun _ _ _ _ h => (by cases h), fun _ _ _ _ _ _ _ h => (by cases h)⟩

/-- The node is dead with its branch, and waits for the `Switch` itself after the pass. -/
theorem branchGraph_revived : WellFormed branchInfo branchGraph ∧
    OnlyBranches branchInfo (fun n output => n = 1 && output = 0) ∧
    MarksDead branchInfo (fun n output => n = 1 && output = 0) (fun n => 2 ≤ n) branchGraph ∧
    ¬Preserves.{0, 0} branchInfo (fun n output => n = 1 && output = 0) (fun n => 2 ≤ n) branchGraph
      (removeIdentityNodes branchInfo branchGraph).1 := by
  refine ⟨branchGraph_wellFormed, ?_, by unfold MarksDead; decide, ?_⟩
  · intro n output h
    have hSwitch : n = 1 := by simpa using (Bool.and_eq_true_iff.mp h).1
    exact Or.inl (by rw [hSwitch]; decide)
  · intro h
    have hMark := h.marks
    unfold MarksDead at hMark
    revert hMark
    decide

end TensorFlowOnSpark.CommonRuntime
