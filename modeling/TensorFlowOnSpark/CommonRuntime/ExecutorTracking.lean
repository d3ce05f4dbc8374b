import TensorFlowOnSpark.CommonRuntime.ExecutorTokens

/-!
# The log and the state of an iteration

What the log says about the inputs of a node is what the state of the iteration has stored
for it, and the node was put into the ready list when these inputs made it ready, once.
-/

namespace TensorFlowOnSpark.CommonRuntime

open Function

universe u v

open List IterationState

variable {N : Type u} {V : Type v}

def Event.tag : Event N V → Option (TaggedNode N)
  | .readied t => some t
  | _ => none

def Event.isActivation : Event N V → Bool
  | .delivered _ _ _ _ _ => true
  | .readied _ => true
  | _ => false

def readiedIn (log : List (Event N V)) : List (TaggedNode N) := log.filterMap Event.tag

theorem readiedIn_append (log events : List (Event N V)) :
    readiedIn (log ++ events) = readiedIn log ++ readiedIn events := filterMap_append

/-- What the inputs leave in a slot of `input_tensors`. -/
def storedAt (g : Graph N) (n : N) (ks : List (Token N V)) (slot : Nat) : Option V :=
  if g.isMerge n then
    (ks.find? Token.isLive).bind fun k => if k.edge.dstInput = some slot then k.entry else none
  else (ks.find? fun k => k.edge.dstInput = some slot).bind Token.entry

section Store

variable {g : Graph N} {n : N} {ks : List (Token N V)} {k : Token N V}

theorem Fits.mem (h : Fits g n (ks ++ [k])) {k' : Token N V} (hMem : k' ∈ ks ++ [k]) :
    k'.edge ∈ g.inEdges n := Subperm.subset h (mem_map_of_mem hMem)

theorem Fits.nodup (h : Fits g n ks) : (ks.map Token.edge).Nodup := by
  obtain ⟨edges, hPerm, hSub⟩ := h
  exact hPerm.nodup_iff.mp (hSub.nodup (g.inEdges_nodup n))

theorem Fits.fresh (h : Fits g n (ks ++ [k])) : ∀ k' ∈ ks, k'.edge ≠ k.edge := by
  have hNodup := h.nodup
  rw [map_append, nodup_append] at hNodup
  intro k' hMem
  exact hNodup.2.2 _ (mem_map_of_mem hMem) _ (mem_singleton_self _)

theorem storedAt_merge (hMerge : g.isMerge n) (slot : Nat) :
    storedAt g n (ks ++ [k]) slot =
      if (k.isLive ∧ ks.countP Token.isLive = 0) ∧ k.edge.dstInput = some slot then k.entry
      else storedAt g n ks slot := by
  cases hFind : ks.find? Token.isLive with
  | some k' =>
    have hPos : 0 < ks.countP Token.isLive :=
      countP_pos_iff.mpr ⟨k', mem_of_find?_eq_some hFind, find?_some hFind⟩
    rw [if_neg (by omega)]
    simp [storedAt, hMerge, hFind]
  | none =>
    have hZero : ks.countP Token.isLive = 0 := by
      rw [countP_eq_zero]
      exact find?_eq_none.mp hFind
    cases hLive : k.isLive with
    | true => simp [storedAt, hMerge, hFind, hLive, hZero]
    | false => simp [storedAt, hMerge, hLive]

theorem find?_fresh (hFits : Fits g n (ks ++ [k])) {slot : Nat}
    (hSlot : k.edge.dstInput = some slot) :
    ks.find? (fun k => k.edge.dstInput = some slot) = none := by
  rw [find?_eq_none]
  intro k' hMem hSlot'
  refine hFits.fresh k' hMem ?_
  exact g.eq_of_dstInput_eq (hFits.mem (mem_append_left _ hMem))
    (hFits.mem (mem_append_right _ (mem_singleton_self k)))
    (of_decide_eq_true hSlot') hSlot

theorem storedAt_other (hMerge : g.isMerge n = false) (hFits : Fits g n (ks ++ [k])) (slot : Nat) :
    storedAt g n (ks ++ [k]) slot =
      if k.edge.dstInput = some slot then k.entry else storedAt g n ks slot := by
  split
  · rename_i hSlot
    simp [storedAt, hMerge, find?_fresh hFits hSlot, hSlot]
  · rename_i hSlot
    simp [storedAt, hMerge, hSlot]

theorem storedAt_fresh (hMerge : g.isMerge n = false) (hFits : Fits g n (ks ++ [k])) {slot : Nat}
    (hSlot : k.edge.dstInput = some slot) : storedAt g n ks slot = none := by
  simp only [storedAt, hMerge, Bool.false_eq_true, if_false, find?_fresh hFits hSlot,
    Option.bind_none]

end Store

variable [DecidableEq N]

def Event.tokenAt (name : FrameName) (iter : Nat) (n : N) : Event N V → Option (Token N V)
  | .delivered name' iter' e isDead entry =>
    if name' = name ∧ iter' = iter ∧ e.dst = n then some ⟨e, isDead, entry⟩ else none
  | _ => none

/-- The inputs that iteration `iter` of a frame has delivered to `n`. -/
def tokensAt (log : List (Event N V)) (name : FrameName) (iter : Nat) (n : N) :
    List (Token N V) := log.filterMap (Event.tokenAt name iter n)

theorem tokensAt_append (log events : List (Event N V)) (name : FrameName) (iter : Nat) (n : N) :
    tokensAt (log ++ events) name iter n = tokensAt log name iter n ++
      tokensAt events name iter n :=
  filterMap_append

def TaggedNode.at (t : TaggedNode N) (name : FrameName) (iter : Nat) (n : N) : Bool :=
  t.inputFrame = name ∧ t.inputIter = iter ∧ t.node = n

/-- How often `n` was put into the ready list of an iteration. -/
def timesReadied (log : List (Event N V)) (name : FrameName) (iter : Nat) (n : N) : Nat :=
  (readiedIn log).countP fun t => t.at name iter n

theorem timesReadied_append (log events : List (Event N V)) (name : FrameName) (iter : Nat)
    (n : N) : timesReadied (log ++ events) name iter n =
      timesReadied log name iter n + timesReadied events name iter n := by
  rw [timesReadied, readiedIn_append, countP_append]
  rfl

def Allowed (g : Graph N) (log : List (Event N V)) : Event N V → Prop
  | .readied t =>
    readyWith g t.node (tokensAt log t.inputFrame t.inputIter t.node) ∧
      t.isDead = deadWith g t.node (tokensAt log t.inputFrame t.inputIter t.node)
  | _ => True

def Justified (g : Graph N) (log : List (Event N V)) : Prop :=
  ∀ before event after, log = before ++ event :: after → Allowed g before event

theorem Justified.concat {g : Graph N} {log : List (Event N V)} {event : Event N V}
    (h : Justified g log) (hLast : Allowed g log event) : Justified g (log ++ [event]) := by
  intro before event' after hEq
  rcases eq_nil_or_concat after with rfl | ⟨after', last, rfl⟩
  · obtain ⟨rfl, hEvent⟩ := append_inj' hEq rfl
    cases hEvent
    exact hLast
  · rw [concat_eq_append, ← cons_append, ← append_assoc] at hEq
    exact h before event' after' (append_inj_left' hEq rfl)

theorem Justified.append {g : Graph N} {log events : List (Event N V)} (h : Justified g log)
    (hEvents : ∀ event ∈ events, event.tag = none) : Justified g (log ++ events) := by
  induction events generalizing log with
  | nil => rwa [append_nil]
  | cons event events ih =>
    rw [← singleton_append, ← append_assoc]
    apply ih
    · apply h.concat
      have hTag := hEvents event mem_cons_self
      cases event with
      | readied t => cases hTag
      | delivered name iter e isDead entry => trivial
      | started t inputs => trivial
      | propagated t => trivial
      | finished => trivial
    · intro event' hMem
      exact hEvents event' (mem_cons_of_mem _ hMem)

structure Recorded (g : Graph N) (log : List (Event N V)) (name : FrameName) (iter : Nat)
    (n : N) : Prop where
  fits : Fits g n (tokensAt log name iter n)
  once : timesReadied log name iter n =
    if readyWith g n (tokensAt log name iter n) then 1 else 0

structure Reflects (g : Graph N) (ks : List (Token N V)) (it : IterationState N V) (n : N) :
    Prop where
  waits : readyWith g n ks = false → Waits g n ks (it.counts n)
  settled : readyWith g n ks → g.isMerge n → 0 < ks.countP Token.isLive →
    (it.counts n).Settled
  inputs : ∀ slot, it.inputTensors n slot = storedAt g n ks slot

namespace IterationState

variable (name : FrameName) (iter : Nat) (it : IterationState N V) (out : Output N V) (e : Edge N)
  (isDead : Bool) (entry : Option V) (a : Arrival)

def placed : List (Event N V) :=
  .delivered name iter e isDead entry ::
    if a.dstReady then [.readied ⟨e.dst, name, iter, a.dstDead⟩] else []

omit [DecidableEq N] in
theorem isActivation_placed {event : Event N V}
    (hMem : event ∈ placed name iter e isDead entry a) : event.isActivation = true := by
  unfold placed at hMem
  rw [mem_cons] at hMem
  rcases hMem with rfl | hMem
  · rfl
  · split at hMem
    · rw [mem_singleton] at hMem
      subst hMem
      rfl
    · cases hMem

omit [DecidableEq N] in
theorem readiedIn_placed : readiedIn (placed (V := V) name iter e isDead entry a) =
    if a.dstReady then [⟨e.dst, name, iter, a.dstDead⟩] else [] := by
  unfold placed
  cases a.dstReady <;> rfl

theorem place_snd : (it.place name iter out e isDead entry a).2 =
    ⟨out.ready ++ readiedIn (placed name iter e isDead entry a),
      out.log ++ placed name iter e isDead entry a⟩ := by
  rw [readiedIn_placed]
  unfold place placed
  cases a.dstReady <;> simp

theorem setInput_counts : (it.setInput e entry).counts = it.counts := by
  unfold setInput
  split <;> rfl

theorem place_counts : (it.place name iter out e isDead entry a).1.counts =
    update it.counts e.dst a.counts := by
  unfold place
  cases a.dstReady <;> cases a.dstNeedInput <;> simp [setInput_counts]

theorem place_inputs : (it.place name iter out e isDead entry a).1.inputTensors =
    if a.dstNeedInput then (it.setInput e entry).inputTensors else it.inputTensors := by
  unfold place setInput
  cases a.dstReady <;> cases a.dstNeedInput <;> cases e.slots <;> rfl

theorem place_rest : (it.place name iter out e isDead entry a).1.number = it.number ∧
    (it.place name iter out e isDead entry a).1.outstandingFrameCount = it.outstandingFrameCount ∧
    (it.place name iter out e isDead entry a).1.outstandingOps = it.outstandingOps +
      (readiedIn (placed name iter e isDead entry a)).length := by
  rw [readiedIn_placed]
  unfold place setInput
  cases a.dstReady <;> cases a.dstNeedInput <;> cases e.slots <;> simp

theorem setInput_inputs (n : N) (slot : Nat) : (it.setInput e entry).inputTensors n slot =
    if e.dst = n ∧ e.dstInput = some slot then entry else it.inputTensors n slot := by
  unfold setInput
  split
  · rename_i srcOutput dstInput hSlots
    simp only [Edge.dstInput, hSlots]
    by_cases hNode : n = e.dst
    · subst hNode
      by_cases hSlot : slot = dstInput
      · subst hSlot
        simp
      · simp [hSlot, Ne.symm hSlot]
    · simp [hNode, Ne.symm hNode]
  · rename_i hSlots
    simp [Edge.dstInput, hSlots]

theorem tokensAt_placed (name' : FrameName) (iter' : Nat) (n : N) :
    tokensAt (placed name iter e isDead entry a) name' iter' n =
      if name = name' ∧ iter = iter' ∧ e.dst = n then [⟨e, isDead, entry⟩] else [] := by
  unfold tokensAt placed
  rw [filterMap_cons]
  simp only [Event.tokenAt]
  split
  · rename_i hSame
    split at hSame
    · cases hSame
    · rename_i hNe
      rw [if_neg hNe]
      cases a.dstReady <;> rfl
  · rename_i k hSame
    split at hSame
    · rename_i hEq
      cases hSame
      rw [if_pos hEq]
      cases a.dstReady <;> rfl
    · cases hSame

theorem timesReadied_placed (name' : FrameName) (iter' : Nat) (n : N) :
    timesReadied (placed (V := V) name iter e isDead entry a) name' iter' n =
      if a.dstReady ∧ name = name' ∧ iter = iter' ∧ e.dst = n then 1 else 0 := by
  rw [timesReadied, readiedIn_placed]
  cases a.dstReady with
  | false => simp
  | true => simp [TaggedNode.at]

end IterationState

/-- `a` says what the input `k` does to a node with the inputs `ks`. -/
structure Accepts (g : Graph N) (n : N) (ks : List (Token N V)) (k : Token N V) (c : Counts)
    (a : Arrival) : Prop where
  spec : readyWith g n ks = false → ArriveSpec g n ks k a
  late : readyWith g n ks → a.counts = c ∧ a.dstReady = false ∧ a.dstNeedInput = false

section Delivery

variable {g : Graph N} {n node : N} {ks : List (Token N V)} {k : Token N V}
  {it : IterationState N V} {a : Arrival}

omit [DecidableEq N] in
theorem complete_of_ready (hReady : readyWith g n ks = true) (hOpen : enteredDead g n ks = false) :
    complete g n ks = true := by
  rwa [readyWith, hOpen, Bool.or_false] at hReady

omit [DecidableEq N] in
theorem readyWith_concat (hFits : Fits g n (ks ++ [k])) (hReady : readyWith g n ks = true)
    (hOpen : enteredDead g n ks = false) : readyWith g n (ks ++ [k]) = true := by
  rw [readyWith, complete_append_of_complete hFits (complete_of_ready hReady hOpen), Bool.true_or]

omit [DecidableEq N] in
theorem accepts_arrive (h : Reflects g ks it n) (hFits : Fits g n (ks ++ [k]))
    (hOpen : enteredDead g n ks = false) (hSrc : k.edge.src = node) (hDst : k.edge.dst = n)
    (hExit : k.isDead = true → g.isExit k.edge.src = false) :
    Accepts g n ks k (it.counts n) (arrive g node k.isDead k.edge k.entry (it.counts n)) := by
  constructor
  · intro hReady
    exact arrive_spec hSrc hDst hFits (h.waits hReady) hExit
  · intro hReady
    obtain ⟨hMerge, hLive, hControl⟩ := complete_append hFits (complete_of_ready hReady hOpen)
    rw [arrive_settled hMerge hDst hControl (h.settled hReady hMerge hLive)]
    exact ⟨rfl, rfl, rfl⟩

variable (name : FrameName) (iter : Nat) (out : Output N V)

theorem Reflects.place (h : Reflects g ks it n) (hFits : Fits g n (ks ++ [k]))
    (hOpen : enteredDead g n ks = false) (hDst : k.edge.dst = n)
    (hAccepts : Accepts g n ks k (it.counts n) a) :
    Reflects g (ks ++ [k]) (it.place name iter out k.edge k.isDead k.entry a).1 n := by
  have hCounts : (it.place name iter out k.edge k.isDead k.entry a).1.counts n = a.counts := by
    rw [place_counts, hDst, update_self]
  have hInputs : ∀ slot, (it.place name iter out k.edge k.isDead k.entry a).1.inputTensors n slot =
      if a.dstNeedInput ∧ k.edge.dstInput = some slot then k.entry
      else storedAt g n ks slot := by
    intro slot
    rw [place_inputs, ← h.inputs slot]
    cases a.dstNeedInput with
    | false => simp
    | true => simp [setInput_inputs, hDst]
  cases hReady : readyWith g n ks with
  | false =>
    have hSpec := hAccepts.spec hReady
    constructor
    · intro hWaiting
      rw [hCounts]
      apply hSpec.waits
      rwa [← Bool.not_eq_true, hSpec.ready, Bool.not_eq_true]
    · intro hNow hMerge hLive
      rw [hCounts]
      exact hSpec.settled (hSpec.ready.mpr hNow) hMerge hLive
    · intro slot
      rw [hInputs]
      cases hMerge : g.isMerge n with
      | true =>
        rw [storedAt_merge hMerge]
        simp only [hSpec.needInput hMerge]
      | false =>
        rw [storedAt_other hMerge hFits]
        by_cases hSlot : k.edge.dstInput = some slot
        · split
          · rfl
          · rename_i hNot
            have hControl : k.isControl = false := by
              cases hSlots : k.edge.slots with
              | none => simp [Edge.dstInput, hSlots] at hSlot
              | some slots => simp [Token.isControl, Edge.isControlEdge, hSlots]
            rcases hSpec.input hMerge hControl with hNeed | hNone
            · exact absurd ⟨hNeed, hSlot⟩ hNot
            · rw [hNone, storedAt_fresh hMerge hFits hSlot]
        · rw [if_neg hSlot, if_neg]
          exact fun hBoth => hSlot hBoth.2
  | true =>
    obtain ⟨hSame, hNotReady, hNoInput⟩ := hAccepts.late hReady
    have hComplete := complete_of_ready hReady hOpen
    obtain ⟨hMerge, hLive, hControl⟩ := complete_append hFits hComplete
    have hSettled := h.settled hReady hMerge hLive
    constructor
    · intro hWaiting
      rw [readyWith_concat hFits hReady hOpen] at hWaiting
      cases hWaiting
    · intro _ _ _
      rw [hCounts, hSame]
      exact hSettled
    · intro slot
      rw [hInputs, hNoInput, storedAt_merge hMerge, if_neg (by simp)]
      rw [if_neg]
      rintro ⟨⟨-, hZero⟩, -⟩
      omega

theorem Reflects.place_of_ne (h : Reflects g ks it n) (hNe : n ≠ k.edge.dst) :
    Reflects g ks (it.place name iter out k.edge k.isDead k.entry a).1 n := by
  have hCounts : (it.place name iter out k.edge k.isDead k.entry a).1.counts n = it.counts n := by
    rw [place_counts, update_of_ne hNe]
  refine ⟨?_, ?_, ?_⟩
  · rw [hCounts]
    exact h.waits
  · rw [hCounts]
    exact h.settled
  · intro slot
    rw [place_inputs, ← h.inputs slot]
    split
    · rw [setInput_inputs, if_neg]
      rintro ⟨hEq, -⟩
      exact hNe hEq.symm
    · rfl

end Delivery

structure Tracked (g : Graph N) (log : List (Event N V)) (name : FrameName) (iter : Nat)
    (it : IterationState N V) (n : N) : Prop where
  recorded : Recorded g log name iter n
  reflects : Reflects g (tokensAt log name iter n) it n

section Steps

variable {g : Graph N} {log : List (Event N V)} {name : FrameName} {iter : Nat} {n : N}

theorem Recorded.of_events {events : List (Event N V)} (h : Recorded g log name iter n)
    (hTokens : tokensAt events name iter n = []) (hTimes : timesReadied events name iter n = 0) :
    Recorded g (log ++ events) name iter n := by
  constructor
  · rw [tokensAt_append, hTokens, append_nil]
    exact h.fits
  · rw [timesReadied_append, hTimes, tokensAt_append, hTokens, append_nil]
    exact h.once

omit [DecidableEq N] in
theorem fits_concat {ks : List (Token N V)} {k : Token N V} (h : Fits g n ks)
    (hMem : k.edge ∈ g.inEdges n) (hFresh : ∀ k' ∈ ks, k'.edge ≠ k.edge) :
    Fits g n (ks ++ [k]) := by
  apply subperm_of_subset
  · rw [map_append, nodup_append]
    refine ⟨h.nodup, nodup_singleton _, ?_⟩
    intro e hEdge e' hEdge' hEq
    obtain ⟨k', hMem', rfl⟩ := mem_map.mp hEdge
    rw [map_singleton, mem_singleton] at hEdge'
    exact hFresh k' hMem' (hEq.trans hEdge')
  · intro e hEdge
    rw [map_append, mem_append, map_singleton, mem_singleton] at hEdge
    rcases hEdge with hOld | rfl
    · exact List.Subperm.subset h hOld
    · exact hMem

theorem Recorded.place {k : Token N V} {c : Counts} {a : Arrival} (h : Recorded g log name iter n)
    (hFits : Fits g n (tokensAt log name iter n ++ [k])) (hDst : k.edge.dst = n)
    (hOpen : enteredDead g n (tokensAt log name iter n) = false)
    (hAccepts : Accepts g n (tokensAt log name iter n) k c a) :
    Recorded g (log ++ placed name iter k.edge k.isDead k.entry a) name iter n := by
  have hTokens : tokensAt (log ++ placed name iter k.edge k.isDead k.entry a)
      name iter n = tokensAt log name iter n ++ [k] := by
    rw [tokensAt_append, tokensAt_placed, if_pos ⟨rfl, rfl, hDst⟩]
  constructor
  · rw [hTokens]
    exact hFits
  · rw [timesReadied_append, timesReadied_placed, hTokens, h.once]
    simp only [hDst, and_true]
    cases hReady : readyWith g n (tokensAt log name iter n) with
    | false =>
      have hSpec := (hAccepts.spec hReady).ready
      simp only [hSpec, Bool.false_eq_true, if_false, Nat.zero_add]
    | true =>
      simp [(hAccepts.late hReady).2.1, readyWith_concat hFits hReady hOpen]

theorem Justified.place {k : Token N V} {c : Counts} {a : Arrival} (h : Justified g log)
    (hDst : k.edge.dst = n) (hAccepts : Accepts g n (tokensAt log name iter n) k c a) :
    Justified g (log ++ placed name iter k.edge k.isDead k.entry a) := by
  have hDelivered : Justified g (log ++ [.delivered name iter k.edge k.isDead k.entry]) :=
    h.concat trivial
  unfold placed
  cases hReady : a.dstReady with
  | false => exact hDelivered
  | true =>
    rw [← singleton_append, ← append_assoc]
    apply hDelivered.concat
    have hTokens : tokensAt (log ++ [.delivered name iter k.edge k.isDead k.entry]) name iter
        k.edge.dst = tokensAt log name iter n ++ [k] := by
      simp [tokensAt, Event.tokenAt, hDst]
    have hWaiting : readyWith g n (tokensAt log name iter n) = false := by
      rw [← Bool.not_eq_true]
      intro hAlready
      rw [(hAccepts.late hAlready).2.1] at hReady
      cases hReady
    have hSpec := hAccepts.spec hWaiting
    simp only [Allowed, hTokens]
    rw [hDst]
    exact ⟨hSpec.ready.mp hReady, Bool.eq_iff_iff.mpr (hSpec.dead hReady)⟩

end Steps

/-- The state of an iteration and the output before and after the inputs `sent` came. -/
structure Grew (g : Graph N) (name : FrameName) (iter : Nat) (sent : List (Token N V))
    (s s' : IterationState N V × Output N V) (events : List (Event N V)) : Prop where
  log : s'.2.log = s.2.log ++ events
  kinds : ∀ event ∈ events, event.isActivation
  ready : s'.2.ready = s.2.ready ++ readiedIn events
  ops : s'.1.outstandingOps = s.1.outstandingOps + (readiedIn events).length
  number : s'.1.number = s.1.number
  frames : s'.1.outstandingFrameCount = s.1.outstandingFrameCount
  tags : ∀ t ∈ readiedIn events, t.inputFrame = name ∧ t.inputIter = iter ∧ t.node ≠ g.sink
  tokens : ∀ name' iter' n, n ≠ g.sink → tokensAt events name' iter' n =
    if name = name' ∧ iter = iter' then sent.filter fun k => k.edge.dst = n else []

variable {g : Graph N} {name : FrameName} {iter : Nat} {sent sent' : List (Token N V)}
  {s s' s'' : IterationState N V × Output N V} {events events' : List (Event N V)}

theorem Grew.refl (s : IterationState N V × Output N V) : Grew g name iter [] s s [] where
  log := (append_nil _).symm
  kinds := nofun
  ready := (append_nil _).symm
  ops := (Int.add_zero _).symm
  number := rfl
  frames := rfl
  tags := by
    intro t hMem
    cases hMem
  tokens := by
    intro name' iter' n _
    simp [tokensAt]

theorem Grew.trans (h : Grew g name iter sent s s' events)
    (h' : Grew g name iter sent' s' s'' events') :
    Grew g name iter (sent ++ sent') s s'' (events ++ events') where
  log := by rw [h'.log, h.log, append_assoc]
  kinds := by
    intro event hMem
    rw [mem_append] at hMem
    exact hMem.elim (h.kinds event) (h'.kinds event)
  ready := by rw [h'.ready, h.ready, readiedIn_append, append_assoc]
  ops := by
    rw [h'.ops, h.ops, readiedIn_append, length_append]
    omega
  number := h'.number.trans h.number
  frames := h'.frames.trans h.frames
  tags := by
    intro t hMem
    rw [readiedIn_append, mem_append] at hMem
    exact hMem.elim (h.tags t) (h'.tags t)
  tokens := by
    intro name' iter' n hNe
    rw [tokensAt_append, h.tokens name' iter' n hNe, h'.tokens name' iter' n hNe]
    split
    · rw [filter_append]
    · rfl

theorem Grew.place {e : Edge N} (it : IterationState N V) (out : Output N V) (isDead : Bool)
    (entry : Option V) (a : Arrival) (hNe : e.dst ≠ g.sink) :
    Grew g name iter [⟨e, isDead, entry⟩] (it, out) (it.place name iter out e isDead entry a)
      (placed name iter e isDead entry a) where
  log := by rw [place_snd]
  kinds := fun _ hMem => isActivation_placed _ _ _ _ _ _ hMem
  ready := by rw [place_snd]
  ops := (place_rest ..).2.2
  number := (place_rest ..).1
  frames := (place_rest ..).2.1
  tags := by
    intro t hMem
    rw [readiedIn_placed] at hMem
    split at hMem
    · rw [mem_singleton] at hMem
      subst hMem
      exact ⟨rfl, rfl, hNe⟩
    · cases hMem
  tokens := by
    intro name' iter' n _
    rw [tokensAt_placed]
    by_cases hPlace : name = name' ∧ iter = iter'
    · by_cases hDst : e.dst = n
      · simp [hDst]
      · simp [hDst]
    · rw [if_neg hPlace, if_neg]
      rintro ⟨hName, hIter, -⟩
      exact hPlace ⟨hName, hIter⟩

theorem Grew.skip {k : Token N V} (h : Grew g name iter sent s s' events)
    (hSink : k.edge.dst = g.sink) : Grew g name iter (k :: sent) s s' events :=
  { h with
    tokens := by
      intro name' iter' n hNe
      rw [h.tokens name' iter' n hNe, filter_cons_of_neg]
      simpa [hSink] using Ne.symm hNe }

theorem activateEdges_grew (x : ExecutorImpl N V) (name : FrameName) (node : N) (isDead : Bool)
    (iter : Nat) (outputs : List (Option V)) (edges : List (Edge N))
    (s : IterationState N V × Output N V) :
    ∃ events, Grew x.graph name iter (edges.map fun e => ⟨e, isDead, e.entry outputs⟩) s
      (FrameState.activateEdges x name node isDead iter outputs edges s) events := by
  induction edges generalizing s with
  | nil => exact ⟨[], .refl s⟩
  | cons e edges ih =>
    rw [FrameState.activateEdges]
    split
    · rename_i hSink
      obtain ⟨events, hGrew⟩ := ih s
      exact ⟨events, hGrew.skip hSink⟩
    · rename_i hNe
      obtain ⟨events, hGrew⟩ := ih _
      exact ⟨_, (Grew.place s.1 s.2 isDead (e.entry outputs) _ hNe).trans hGrew⟩

structure Sendable (g : Graph N) (log : List (Event N V)) (name : FrameName) (iter : Nat)
    (node : N) (edges : List (Edge N)) : Prop where
  out : ∀ e ∈ edges, e ∈ g.outEdges node
  nodup : edges.Nodup
  fresh : ∀ e ∈ edges, e.dst ≠ g.sink → ∀ k ∈ tokensAt log name iter e.dst, k.edge ≠ e
  opened : ∀ e ∈ edges, enteredDead g e.dst (tokensAt log name iter e.dst) = false
  single : g.isEnter node →
    edges.Pairwise fun e e' => g.isMerge e.dst → e'.dst ≠ e.dst

variable {log : List (Event N V)} {node : N} {e : Edge N} {edges : List (Edge N)}

theorem Sendable.tail (h : Sendable g log name iter node (e :: edges)) :
    Sendable g log name iter node edges where
  out := fun e' hMem => h.out e' (mem_cons_of_mem _ hMem)
  nodup := h.nodup.of_cons
  fresh := fun e' hMem => h.fresh e' (mem_cons_of_mem _ hMem)
  opened := fun e' hMem => h.opened e' (mem_cons_of_mem _ hMem)
  single := fun hEnter => (h.single hEnter).of_cons

theorem Sendable.after (h : Sendable g log name iter node (e :: edges)) (isDead : Bool)
    (entry : Option V) (a : Arrival) :
    Sendable g (log ++ placed name iter e isDead entry a) name iter node edges := by
  have hTokens : ∀ n, tokensAt (log ++ placed name iter e isDead entry a) name iter
      n = tokensAt log name iter n ++ if e.dst = n then [⟨e, isDead, entry⟩] else [] := by
    intro n
    rw [tokensAt_append, tokensAt_placed]
    simp
  have hTail := h.tail
  refine { hTail with fresh := ?_, opened := ?_ }
  · intro e' hMem hNe k hToken
    rw [hTokens, mem_append] at hToken
    rcases hToken with hOld | hNew
    · exact hTail.fresh e' hMem hNe k hOld
    · split at hNew
      · rw [mem_singleton] at hNew
        subst hNew
        rintro rfl
        exact (nodup_cons.mp h.nodup).1 hMem
      · cases hNew
  · intro e' hMem
    rw [hTokens]
    split
    · rename_i hSame
      have hSrc : e.src = node := ((g.mem_outEdges node e).mp (h.out e mem_cons_self)).1
      cases hEnter : g.isEnter node with
      | false => simp [enteredDead, hSrc, hEnter]
      | true =>
        have hDiffer := rel_of_pairwise_cons (h.single hEnter) hMem
        cases hMerge : g.isMerge e'.dst with
        | false => simp [enteredDead, hMerge]
        | true => exact absurd hSame.symm (hDiffer (hSame ▸ hMerge))
    · rw [append_nil]
      exact hTail.opened e' hMem

/-- What an activation keeps: the nodes stay tracked, and those that are ready keep their
counts. -/
structure Keeps (g : Graph N) (name : FrameName) (iter : Nat) (log log' : List (Event N V))
    (it it' : IterationState N V) : Prop where
  justified : Justified g log'
  tracked : ∀ n, n ≠ g.sink → Tracked g log' name iter it' n
  counts : ∀ n, n ≠ g.sink → readyWith g n (tokensAt log name iter n) →
    it'.counts n = it.counts n ∧ readyWith g n (tokensAt log' name iter n)

theorem Keeps.trans {log log' log'' : List (Event N V)} {it it' it'' : IterationState N V}
    (h : Keeps g name iter log log' it it') (h' : Keeps g name iter log' log'' it' it'') :
    Keeps g name iter log log'' it it'' where
  justified := h'.justified
  tracked := h'.tracked
  counts := by
    intro n hn hReady
    obtain ⟨hCounts, hStill⟩ := h.counts n hn hReady
    obtain ⟨hCounts', hStill'⟩ := h'.counts n hn hStill
    exact ⟨hCounts'.trans hCounts, hStill'⟩

theorem Keeps.place {k : Token N V} {a : Arrival} {it : IterationState N V} (out : Output N V)
    (hJust : Justified g log) (hTracked : ∀ n, n ≠ g.sink → Tracked g log name iter it n)
    (hNe : k.edge.dst ≠ g.sink) (hIn : k.edge ∈ g.inEdges k.edge.dst)
    (hFresh : ∀ k' ∈ tokensAt log name iter k.edge.dst, k'.edge ≠ k.edge)
    (hOpen : enteredDead g k.edge.dst (tokensAt log name iter k.edge.dst) = false)
    (hAccepts : Fits g k.edge.dst (tokensAt log name iter k.edge.dst ++ [k]) →
      Accepts g k.edge.dst (tokensAt log name iter k.edge.dst) k (it.counts k.edge.dst) a) :
    Keeps g name iter log (log ++ placed name iter k.edge k.isDead k.entry a) it
      (it.place name iter out k.edge k.isDead k.entry a).1 := by
  have hFirst := hTracked k.edge.dst hNe
  have hFits := fits_concat hFirst.recorded.fits hIn hFresh
  have hAccepts := hAccepts hFits
  have hTokens : ∀ n, tokensAt (log ++ placed name iter k.edge k.isDead k.entry a)
      name iter n = tokensAt log name iter n ++ if k.edge.dst = n then [k] else [] := by
    intro n
    rw [tokensAt_append, tokensAt_placed]
    simp
  constructor
  · exact hJust.place rfl hAccepts
  · intro n hn
    by_cases hSame : k.edge.dst = n
    · subst hSame
      refine ⟨hFirst.recorded.place hFits rfl hOpen hAccepts, ?_⟩
      rw [hTokens, if_pos rfl]
      exact hFirst.reflects.place name iter out hFits hOpen rfl hAccepts
    · have hOther := hTracked n hn
      refine ⟨hOther.recorded.of_events ?_ ?_, ?_⟩
      · rw [tokensAt_placed, if_neg fun hEq => hSame hEq.2.2]
      · rw [timesReadied_placed, if_neg fun hEq => hSame hEq.2.2.2]
      · rw [hTokens, if_neg hSame, append_nil]
        exact hOther.reflects.place_of_ne name iter out (Ne.symm hSame)
  · intro n _ hReady
    rw [hTokens, place_counts]
    by_cases hSame : k.edge.dst = n
    · subst hSame
      rw [Function.update_self, if_pos rfl]
      exact ⟨(hAccepts.late hReady).1, readyWith_concat hFits hReady hOpen⟩
    · rw [Function.update_of_ne (Ne.symm hSame), if_neg hSame, append_nil]
      exact ⟨rfl, hReady⟩

theorem activateEdges_keeps (x : ExecutorImpl N V) (isDead : Bool) (outputs : List (Option V))
    (before : List (Event N V)) (hExit : isDead → x.graph.isExit node = false)
    (hSend : Sendable x.graph (before ++ s.2.log) name iter node edges)
    (hJust : Justified x.graph (before ++ s.2.log))
    (hTracked : ∀ n, n ≠ x.graph.sink → Tracked x.graph (before ++ s.2.log) name iter s.1 n) :
    let r := FrameState.activateEdges x name node isDead iter outputs edges s
    Keeps x.graph name iter (before ++ s.2.log) (before ++ r.2.log) s.1 r.1 := by
  induction edges generalizing s with
  | nil => exact ⟨hJust, hTracked, fun n _ hReady => ⟨rfl, hReady⟩⟩
  | cons e edges ih =>
    simp only [FrameState.activateEdges]
    split
    · exact ih hSend.tail hJust hTracked
    · rename_i hNe
      obtain ⟨hSrc, hIn⟩ :=
        (x.graph.mem_outEdges node e).mp (hSend.out e mem_cons_self)
      have hOpen := hSend.opened e mem_cons_self
      let k : Token N V := ⟨e, isDead, e.entry outputs⟩
      have hLog : ∀ a, before ++ (s.1.place name iter s.2 e isDead (e.entry outputs) a).2.log =
          before ++ s.2.log ++ placed name iter e isDead (e.entry outputs) a := by
        intro a
        rw [place_snd, append_assoc]
      have hPlace := Keeps.place (k := k) s.2 hJust hTracked hNe hIn
        (hSend.fresh e mem_cons_self hNe) hOpen
        (fun hFits => accepts_arrive (hTracked e.dst hNe).reflects hFits hOpen hSrc rfl
          (by rw [hSrc]; exact hExit))
      refine hPlace.trans ?_
      rw [← hLog]
      apply ih
      · rw [hLog]
        exact hSend.after _ _ _
      · rw [hLog]
        exact hPlace.justified
      · rw [hLog]
        exact hPlace.tracked

open Nat

open List Function

variable {N : Type u} {V : Type v}

/-- What a dead input does to the counts of a node that is no `Merge`. -/
def Counts.deadInput (c : Counts) : Counts := c.incrementDeadCount.decrementPending 1

/-- The flags of a destination agree if it becomes ready by a dead input only when it is no
`ControlTrigger` and its dead count is not zero. -/
def WokenDead (g : Graph N) (n : N) (c : Counts) : Prop :=
  c.deadInput.stored = 0 → g.isControlTrigger n = false ∧ 0 < c.incrementDeadCount.deadCount

variable [DecidableEq N]

def WakesDead (g : Graph N) (edges : List (Edge N)) (counts : N → Counts) : Prop :=
  ∀ n, n ≠ g.sink → g.isMerge n = false → ∀ k < edges.countP (fun e => e.dst = n),
    WokenDead g n (Counts.deadInput^[k] (counts n))

section Arrivals

variable {g : Graph N} {node : N} {e : Edge N} {c : Counts}

omit [DecidableEq N]

theorem arriveDead_counts (hNode : g.isEnter node = false) :
    (arriveDead g e c).counts = (arrive g node true e (none : Option V) c).counts ∧
      (arriveDead g e c).dstReady = (arrive g node true e (none : Option V) c).dstReady := by
  unfold arriveDead arrive
  cases g.isMerge e.dst <;> cases e.isControlEdge <;> simp [hNode]

theorem arriveDead_merge (hNode : g.isEnter node = false) (hMerge : g.isMerge e.dst) :
    (arriveDead g e c).dstDead = (arrive g node true e (none : Option V) c).dstDead := by
  unfold arriveDead arrive
  rw [if_pos hMerge, if_pos hMerge]
  cases e.isControlEdge <;> simp [hNode]

theorem arriveDead_other (hMerge : g.isMerge e.dst = false) :
    arriveDead g e c = ⟨c.deadInput, true, c.deadInput.stored = 0, false⟩ := by
  rw [arriveDead, if_neg (by simp [hMerge])]
  rfl

theorem arrive_dead_other (hMerge : g.isMerge e.dst = false) :
    (arrive g node true e (none : Option V) c).dstDead =
      (decide (0 < c.incrementDeadCount.deadCount) && !g.isControlTrigger e.dst) := by
  rw [arrive, if_neg (by simp [hMerge])]
  rfl

end Arrivals

section Loops

variable {x : ExecutorImpl N V} {g : Graph N} {name : FrameName} {node : N} {iter : Nat}
  {outputs : List (Option V)} {e : Edge N} {edges : List (Edge N)} {counts : N → Counts}

theorem WakesDead.cons_sink (hSink : e.dst = g.sink) :
    WakesDead g (e :: edges) counts ↔ WakesDead g edges counts := by
  refine forall_congr' fun n => imp_congr_right fun hNe => ?_
  rw [countP_cons_of_neg (by simpa [hSink] using Ne.symm hNe)]

theorem WakesDead.cons_merge (hMerge : g.isMerge e.dst) (c : Counts) :
    WakesDead g (e :: edges) counts ↔ WakesDead g edges (update counts e.dst c) := by
  refine forall_congr' fun n => imp_congr_right fun _ => imp_congr_right fun hOther => ?_
  have hNe : e.dst ≠ n := by
    rintro rfl
    exact absurd hMerge (by simp [hOther])
  rw [countP_cons_of_neg (by simpa using hNe), update_of_ne (Ne.symm hNe)]

theorem WakesDead.cons_other (hSink : e.dst ≠ g.sink) (hMerge : g.isMerge e.dst = false) :
    WakesDead g (e :: edges) counts ↔ WokenDead g e.dst (counts e.dst) ∧
      WakesDead g edges (update counts e.dst (counts e.dst).deadInput) := by
  constructor
  · intro h
    have hSelf := h e.dst hSink hMerge
    rw [countP_cons_of_pos (by simp)] at hSelf
    refine ⟨hSelf 0 (succ_pos _), ?_⟩
    intro n hn hOther k hk
    by_cases hEq : n = e.dst
    · subst hEq
      rw [update_self]
      exact hSelf (k + 1) (succ_lt_succ hk)
    · rw [update_of_ne hEq]
      refine h n hn hOther k ?_
      rw [countP_cons_of_neg (by simpa using Ne.symm hEq)]
      exact hk
  · rintro ⟨hFirst, hRest⟩ n hn hOther k hk
    have hRest := hRest n hn hOther
    by_cases hEq : n = e.dst
    · subst hEq
      rw [update_self] at hRest
      rw [countP_cons_of_pos (by simp)] at hk
      cases k with
      | zero => exact hFirst
      | succ k => exact hRest k (lt_of_succ_lt_succ hk)
    · rw [update_of_ne hEq] at hRest
      rw [countP_cons_of_neg (by simpa using Ne.symm hEq)] at hk
      exact hRest k hk

theorem place_ready (it : IterationState N V) (out : Output N V) (isDead : Bool)
    (entry : Option V) (a : Arrival) : (it.place name iter out e isDead entry a).2.ready =
      if a.dstReady then out.ready ++ [⟨e.dst, name, iter, a.dstDead⟩] else out.ready := by
  unfold IterationState.place
  cases a.dstReady <;> rfl

/-- From the same counts the loops lead to the same counts; they lead to the same ready list if
they start with the same one and wake nobody otherwise. -/
theorem propagateDeadExits_iff (x : ExecutorImpl N V) (name : FrameName) (iter : Nat)
    (edges : List (Edge N)) (s s' : IterationState N V × Output N V)
    (hNode : x.graph.isEnter node = false)
    (hOutputs : ∀ o ∈ outputs, o = none)
    (hCounts : s.1.counts = s'.1.counts) :
    (Frames.propagateDeadExits x name iter edges s).1.counts =
        (FrameState.activateEdges x name node true iter outputs edges s').1.counts ∧
      ((Frames.propagateDeadExits x name iter edges s).2.ready =
          (FrameState.activateEdges x name node true iter outputs edges s').2.ready ↔
        s.2.ready = s'.2.ready ∧ WakesDead x.graph edges s.1.counts) := by
  induction edges generalizing s s' with
  | nil => exact ⟨hCounts, (and_iff_left fun n _ _ k hk => absurd hk (not_lt_zero k)).symm⟩
  | cons e edges ih =>
    obtain ⟨it, out⟩ := s
    obtain ⟨it', out'⟩ := s'
    rw [Frames.propagateDeadExits, FrameState.activateEdges]
    by_cases hSink : e.dst = x.graph.sink
    · rw [if_pos hSink, if_pos hSink, WakesDead.cons_sink hSink]
      exact ih _ _ hCounts
    · have hEntry : e.entry outputs = none := by
        rw [Edge.entry]
        cases e.slots with
        | none => rfl
        | some slots =>
          change (outputs[slots.1]?).join = none
          cases hOutput : outputs[slots.1]? with
          | none => rfl
          | some o => exact hOutputs o (mem_of_getElem? hOutput)
      rw [if_neg hSink, if_neg hSink, hEntry, ← hCounts]
      obtain ⟨hSame, hReady⟩ :=
        arriveDead_counts (V := V) (e := e) (c := it.counts e.dst) hNode
      have hNext : (it.place name iter out e true none
            (arriveDead x.graph e (it.counts e.dst))).1.counts =
          (it'.place name iter out' e true none
            (arrive x.graph node true e (none : Option V) (it.counts e.dst))).1.counts := by
        rw [IterationState.place_counts, IterationState.place_counts, hSame, hCounts]
      obtain ⟨hEnd, hIff⟩ := ih _ _ hNext
      refine ⟨hEnd, hIff.trans ?_⟩
      rw [place_ready, place_ready, IterationState.place_counts, hReady]
      cases hWake : (arrive x.graph node true e (none : Option V) (it.counts e.dst)).dstReady with
      | false =>
        refine and_congr_right fun _ => ?_
        cases hMerge : x.graph.isMerge e.dst with
        | true => exact (WakesDead.cons_merge hMerge _).symm
        | false =>
          rw [WakesDead.cons_other hSink hMerge, arriveDead_other hMerge]
          rw [← hReady, arriveDead_other hMerge] at hWake
          refine (and_iff_right fun hZero => ?_).symm
          exact absurd hZero (of_decide_eq_false hWake)
      | true =>
        rw [if_pos rfl, if_pos rfl, append_singleton_inj, and_assoc, TaggedNode.mk.injEq]
        refine and_congr_right fun _ => ?_
        cases hMerge : x.graph.isMerge e.dst with
        | true =>
          rw [WakesDead.cons_merge hMerge]
          exact and_iff_right ⟨rfl, rfl, rfl, arriveDead_merge hNode hMerge⟩
        | false =>
          rw [← hReady, arriveDead_other hMerge] at hWake
          rw [WakesDead.cons_other hSink hMerge, arriveDead_other hMerge, arrive_dead_other hMerge]
          refine and_congr_left fun _ => ?_
          have hZero : (it.counts e.dst).deadInput.stored = 0 := of_decide_eq_true hWake
          rw [WokenDead, forall_prop_of_true hZero]
          simp only [true_and]
          rw [eq_comm, Bool.and_eq_true, decide_eq_true_eq, Bool.not_eq_true', and_comm]

/-- `DeleteFrame` and `ActivateNodes` do the same with a dead exit: they leave the same counts, and
they append the same to the ready list. -/
def DeadExitAgrees (x : ExecutorImpl N V) (name : FrameName) (iter : Nat) (node : N)
    (outputs : List (Option V)) (it : IterationState N V) (out : Output N V) : Prop :=
  let deleted := Frames.propagateDeadExits x name iter (x.graph.outEdges node) (it, out)
  let activated := FrameState.activateEdges x name node true iter outputs (x.graph.outEdges node)
    (it, out)
  (∀ n, (deleted.1.counts n).pending = (activated.1.counts n).pending ∧
    (deleted.1.counts n).deadCount = (activated.1.counts n).deadCount) ∧
  deleted.2.ready = activated.2.ready

omit [DecidableEq N] in
theorem isEnter_of_isExit (hExit : g.isExit node = true) : g.isEnter node = false := by
  rw [Graph.isExit, decide_eq_true_eq] at hExit
  rw [Graph.isEnter, hExit]

/-- For every dead exit and every state of the iteration. -/
theorem dead_exit_agrees_iff (hExit : x.graph.isExit node)
    (hOutputs : ∀ o ∈ outputs, o = none) (it : IterationState N V) (out : Output N V) :
    DeadExitAgrees x name iter node outputs it out ↔
      WakesDead x.graph (x.graph.outEdges node) it.counts := by
  obtain ⟨hCounts, hReady⟩ := propagateDeadExits_iff x name iter (x.graph.outEdges node)
    (it, out) (it, out) (isEnter_of_isExit hExit) hOutputs rfl
  refine (and_iff_right fun n => ?_).trans (hReady.trans (and_iff_right rfl))
  rw [hCounts]
  exact ⟨rfl, rfl⟩

end Loops

/-- An `Enter` node, its `Exit` node, and what follows the exit by a control edge. -/
def exitTo (successor : NodeClass) : ExecutorImpl (Fin 5) Nat where
  graph := Graph.ofEdges
    (fun n => if n = 2 then .enter "loop" false 10 else if n = 3 then .exit
      else if n = 4 then successor else .other) 1
    (fun n => if n = 3 then 1 else 0) (fun n => if n = 2 ∨ n = 3 then 1 else 0)
    [⟨0, 0, 1, none⟩, ⟨1, 0, 2, none⟩, ⟨2, 2, 3, some (0, 0)⟩, ⟨3, 3, 4, none⟩]
    (by decide) (by decide) (by decide)
  emptyTensor := 0
  compute := fun _ inputs _ => .ok inputs
  vlog := false

theorem exit_to_other_agrees :
    DeadExitAgrees (exitTo .other) [] 0 3 [none] ((exitTo .other).newIterationState 0)
      ⟨[], []⟩ := by
  refine (dead_exit_agrees_iff (by decide) (by decide) _ _).mpr ?_
  unfold WakesDead WokenDead
  decide

/-- A `ControlTrigger` becomes ready as a dead node. -/
theorem exit_to_trigger_differs :
    ¬∀ (x : ExecutorImpl (Fin 5) Nat) (name : FrameName) (iter : Nat) (node : Fin 5)
      (outputs : List (Option Nat)) (it : IterationState (Fin 5) Nat) (out : Output (Fin 5) Nat),
      x.graph.isExit node → (∀ o ∈ outputs, o = none) →
      DeadExitAgrees x name iter node outputs it out := by
  intro hAlways
  have hAgrees := hAlways (exitTo .controlTrigger) [] 0 3 [none]
    ((exitTo .controlTrigger).newIterationState 0) ⟨[], []⟩ (by decide) (by decide)
  exact absurd hAgrees.2 (by decide)

end TensorFlowOnSpark.CommonRuntime
