import TensorFlowOnSpark.Kernels.FifoQueueOrder

/-!
# Histories of a FIFO queue

Calls come in any order, and a flush can come after any number of them.
-/

namespace TensorFlowOnSpark.Kernels.FifoQueue

open Framework Transition QueueBase List Nat

universe u

variable {k : Nat} {α : Type u} [Inhabited α] {env : Env k} {a : Attempt k α}
  {es ds : List (Attempt k α)} {q q' : QueueBase k α} {call : Call k α}

variable {id : Nat}

omit [Inhabited α] in
theorem getElem?_calls {calls : List (Call k α)} (h : id < calls.length) :
    (calls ++ [call])[id]? = calls[id]? := getElem?_append_left h

variable {accepted : List (Nat × Tuple k α)}

theorem Enqueues.calls {calls : List (Call k α)} (h : Enqueues calls accepted a)
    : Enqueues (calls ++ [call]) accepted a := by
  refine { h with operation := ?_ }
  rw [getElem?_calls h.known]
  exact h.operation

variable {held : List (Tuple k α)}

omit [Inhabited α] in
theorem Dequeues.calls {calls : List (Call k α)}
    (h : Dequeues calls a held) : Dequeues (calls ++ [call]) a held := by
  refine { h with operation := ?_ }
  have hOperation := h.operation
  split at hOperation
  · rw [getElem?_calls (lt_of_getElem?_eq_some hOperation.2.2)]
    exact hOperation
  · obtain ⟨hFills, n, hCall, hCount⟩ := hOperation
    refine ⟨hFills, n, ?_, hCount⟩
    rw [getElem?_calls (lt_of_getElem?_eq_some hCall)]
    exact hCall
  · exact hOperation

omit [Inhabited α] in
theorem Front.calls {calls : List (Call k α)}
    (h : Front calls held ds) : Front (calls ++ [call]) held ds := by
  cases ds with
  | nil => exact h
  | cons a rest => exact ⟨h.1.calls, fun b hb => (h.2 b hb).calls⟩

omit [Inhabited α] in
theorem Answered.calls {calls : List (Call k α)} {c : Completed k α} (h : Answered calls c) :
    Answered (calls ++ [call]) c := by
  refine ⟨?_, h.failed, ?_, ?_⟩
  · rw [length_append]
    exact Nat.lt_add_right _ h.known
  · rw [getElem?_calls h.known]
    exact h.one
  · rw [getElem?_calls h.known]
    exact h.many

omit [Inhabited α] in
theorem acceptedFrom_eq_nil {accepted : List (Nat × Tuple k α)}
    (h : ∀ e ∈ accepted, e.1 < id) : acceptedFrom accepted id = [] := by
  rw [acceptedFrom, filter_eq_nil_iff.mpr]
  · rfl
  · intro e he
    simp only [decide_eq_true_eq]
    exact (h e he).ne

theorem takesPrefix_of_eq_nil {calls : List (Call k α)}
    (h : acceptedFrom accepted id = []) : TakesPrefix calls accepted id := by
  rw [TakesPrefix]
  split
  · exact .inl h
  · intro _
    exact ⟨0, zero_le _, h⟩
  · exact h

theorem Ordered.calls (h : Ordered env es ds q) :
    Ordered env es ds { q with calls := q.calls ++ [call] } where
  copies := h.copies
  fifo := by
    obtain ⟨held, content, hStores, hFifo, hFront⟩ := h.fifo
    exact ⟨held, content, hStores, hFifo, hFront.calls⟩
  enqueues b hb := (h.enqueues b hb).calls
  inOrder := h.inOrder
  earlier := h.earlier
  known e he := by
    rw [length_append]
    exact Nat.lt_add_right _ (h.known e he)
  sorted := h.sorted
  prefixes id := by
    by_cases hLt : id < q.calls.length
    · have hPrefix := h.prefixes id
      rw [TakesPrefix] at hPrefix ⊢
      rw [getElem?_calls hLt]
      exact hPrefix
    · apply takesPrefix_of_eq_nil
      apply acceptedFrom_eq_nil
      intro e he
      exact lt_of_lt_of_le (h.known e he) (Nat.le_of_not_lt hLt)
  answered c hc := (h.answered c hc).calls

theorem Ordered.appendEnqueue (h : Ordered env es ds q)
    (hCopies : Succeeds env ∨ ¬Operation.Many a.operation) (ha : Enqueues q.calls q.accepted a)
    (hLast : ∀ b ∈ es, b.id < a.id) (hEarlier : ∀ e ∈ q.accepted, e.1 ≤ a.id) :
    Ordered env (es ++ [a]) ds q where
  copies := by
    rcases h.copies with hEnv | hRest
    · exact .inl hEnv
    · refine hCopies.imp_right fun hOne b hb => ?_
      simp only [mem_append, mem_singleton] at hb hRest
      rcases hb with (hb | rfl) | hb
      · exact hRest b (.inl hb)
      · exact hOne
      · exact hRest b (.inr hb)
  fifo := h.fifo
  enqueues b hb := by
    rcases mem_append.mp hb with hOld | hNew
    · exact h.enqueues b hOld
    · rw [mem_singleton.mp hNew]
      exact ha
  inOrder := by
    rw [pairwise_append]
    refine ⟨h.inOrder, pairwise_singleton _ _, ?_⟩
    intro b hb c hc
    rw [mem_singleton.mp hc]
    exact hLast b hb
  earlier e he b hb := by
    rcases mem_append.mp hb with hOld | hNew
    · exact h.earlier e he b hOld
    · rw [mem_singleton.mp hNew]
      exact hEarlier e he
  known := h.known
  sorted := h.sorted
  prefixes := h.prefixes
  answered := h.answered

theorem Ordered.appendDequeue (h : Ordered env es ds q)
    (hCopies : Succeeds env ∨ ¬Operation.Many a.operation) (ha : Dequeues q.calls a []) :
    Ordered env es (ds ++ [a]) q := by
  refine { h with copies := ?_, fifo := ?_ }
  · rcases h.copies with hEnv | hRest
    · exact .inl hEnv
    · refine hCopies.imp_right fun hOne b hb => ?_
      simp only [mem_append, mem_singleton] at hb hRest
      rcases hb with hb | hb | rfl
      · exact hRest b (.inl hb)
      · exact hRest b (.inr hb)
      · exact hOne
  · obtain ⟨held, content, hStores, hFifo, hFront⟩ := h.fifo
    refine ⟨held, content, hStores, hFifo, ?_⟩
    cases ds with
    | nil =>
      have hHeld : held = [] := hFront
      rw [hHeld]
      exact ⟨ha, by simp⟩
    | cons b rest =>
      refine ⟨hFront.1, ?_⟩
      intro c hc
      rcases mem_append.mp hc with hOld | hNew
      · exact hFront.2 c hOld
      · rw [mem_singleton.mp hNew]
        exact ha

theorem Enqueues.cancel {calls : List (Call k α)} (h : Enqueues calls accepted a)
    : Enqueues calls accepted a.cancelEnqueue := by
  have hOperation := h.operation
  have hCancelled : a.cancelEnqueue.isCancelled := by
    rw [Attempt.cancelEnqueue, Attempt.setStatus]
    split <;> rfl
  have hSame : a.cancelEnqueue.operation = a.operation ∧ a.cancelEnqueue.id = a.id := by
    rw [Attempt.cancelEnqueue, Attempt.setStatus]
    split <;> exact ⟨rfl, rfl⟩
  refine ⟨?_, ?_, ?_⟩
  · rw [Attempt.cancelEnqueue, setStatus_done]
    exact h.done
  · intro hActive
    exact absurd (hActive.symm.trans hCancelled) Bool.false_ne_true
  · rw [hSame.1, hSame.2]
    split at hOperation
    · refine ⟨hOperation.1, fun hActive => ?_⟩
      exact absurd (hActive.symm.trans hCancelled) Bool.false_ne_true
    · refine ⟨hOperation.1, fun hActive => ?_⟩
      exact absurd (hActive.symm.trans hCancelled) Bool.false_ne_true
    · exact hOperation
    · exact hOperation.elim

theorem Sound.closeAndCancel (h : Sound env q) : Sound env q.closeAndCancel := by
  have hSame (a : Attempt k α) : (if a.isCancelled then a else a.cancelEnqueue).id = a.id ∧
      (if a.isCancelled then a else a.cancelEnqueue).operation = a.operation := by
    split
    · exact ⟨rfl, rfl⟩
    · rw [Attempt.cancelEnqueue, Attempt.setStatus]
      split <;> exact ⟨rfl, rfl⟩
  have hNone : ∀ c ∈ ((q.enqueueAttempts.filter fun a => !a.isCancelled).map
      Attempt.cancelEnqueue).map fun a => Completed.mk a.id a.status a.done true q.size,
      c.done = .finished ∧ Answered q.calls c := by
    intro c hc
    rw [map_map] at hc
    obtain ⟨b, hb, rfl⟩ := mem_map.mp hc
    have hEnqueues := (h.enqueues b (mem_filter.mp hb).1).cancel
    have hCall := hEnqueues.not_dequeue
    refine ⟨hEnqueues.done, hEnqueues.known, fun _ => hEnqueues.done, ?_, ?_⟩
    · exact fun hOne => absurd hOne hCall.1
    · exact fun n small hMany => absurd hMany (hCall.2 n small)
  refine ⟨?_, ?_, ?_, ?_, ?_, h.known, h.sorted, h.prefixes, ?_⟩
  · refine h.copies.imp_right fun hRest b hb => ?_
    rcases mem_append.mp hb with hE | hD
    · obtain ⟨c, hc, rfl⟩ := mem_map.mp hE
      rw [(hSame c).2]
      exact hRest c (mem_append_left _ hc)
    · exact hRest b (mem_append_right _ hD)
  · obtain ⟨held, content, hStores, hFifo, hFront⟩ := h.fifo
    refine ⟨held, content, hStores, ?_, hFront⟩
    have hDelivered : delivered q.closeAndCancel = delivered q := by
      rw [delivered, QueueBase.closeAndCancel, flatMap_append]
      rw [flatMap_eq_nil_iff.mpr fun c hc => deliveredBy_finished (hNone c hc).1]
      exact append_nil _
    rw [hDelivered]
    exact hFifo
  · intro b hb
    obtain ⟨c, hc, rfl⟩ := mem_map.mp hb
    split
    · exact h.enqueues c hc
    · exact (h.enqueues c hc).cancel
  · refine pairwise_map.mpr (h.inOrder.imp ?_)
    intro b c hLt
    rw [(hSame b).1, (hSame c).1]
    exact hLt
  · intro e he b hb
    obtain ⟨c, hc, rfl⟩ := mem_map.mp hb
    rw [(hSame c).1]
    exact h.earlier e he c hc
  · intro c hc
    rcases mem_append.mp hc with hOld | hNew
    · exact h.answered c hOld
    · exact (hNone c hNew).2

def Copies : Call k α → Prop
  | .tryEnqueueMany t => (t 0).length ≠ 0
  | .tryDequeueMany n _ => n ≠ 0
  | _ => False

theorem toInt32_of_lt {n : Nat} (h : n < 2 ^ 31) : toInt32 n = n :=
  Int.bmod_eq_of_le (by omega) (by omega)

theorem Sound.enter (h : Sound env q) (call : Call k α) (hCopies : Succeeds env ∨ ¬Copies call) :
    Sound env { enter q call with calls := q.calls ++ [call] } := by
  have hCalls : Ordered env q.enqueueAttempts q.dequeueAttempts
      { q with calls := q.calls ++ [call] } := Ordered.calls h
  have hNew : (q.calls ++ [call])[q.calls.length]? = some call := by simp
  have hFresh : acceptedFrom q.accepted q.calls.length = [] := acceptedFrom_eq_nil h.known
  have hLast : ∀ b ∈ q.enqueueAttempts, b.id < q.calls.length := fun b hb =>
    (h.enqueues b hb).known
  have hEarlier : ∀ e ∈ q.accepted, e.1 ≤ q.calls.length := fun e he => (h.known e he).le
  cases call with
  | tryEnqueue x =>
    exact { hCalls.appendEnqueue (a := newAttempt q (.enqueue x) 1) (.inr id)
      ⟨rfl, fun _ => rfl, hNew, fun _ => hFresh⟩ hLast hEarlier with }
  | tryEnqueueMany t =>
    rw [FifoQueue.enter]
    split
    · rename_i hZero
      refine hCalls.complete (c := ⟨q.calls.length, .ok, .finished, q.closed, q.size⟩) rfl rfl
        ⟨?_, fun hNot => absurd rfl hNot, ?_, ?_⟩ rfl
      · simp
      · intro hOne
        cases hNew.symm.trans hOne
      · intro n small hMany
        cases hNew.symm.trans hMany
    · rename_i hSome
      refine { hCalls.appendEnqueue
        (a := newAttempt q (.enqueueMany t) (toInt32 (t 0).length)) ?_ ?_ hLast hEarlier with }
      · exact .inl (hCopies.resolve_right fun hNot => hNot hSome)
      · refine ⟨rfl, fun _ => rfl, hNew, fun _ hShort => ⟨0, zero_le _, ?_, hFresh⟩⟩
        rw [newAttempt, toInt32_of_lt hShort]
        simp
  | tryDequeue =>
    exact { hCalls.appendDequeue (a := newAttempt q .dequeue 1) (.inr id)
      ⟨rfl, rfl, rfl, rfl, rfl, hNew⟩ with }
  | tryDequeueMany n small =>
    rw [FifoQueue.enter]
    split
    · refine hCalls.complete (c := ⟨q.calls.length, _, .finished, q.closed, q.size⟩) rfl
        (deliveredBy_finished rfl) ⟨?_, fun _ => rfl, ?_, ?_⟩ rfl
      · simp
      · intro hOne
        cases hNew.symm.trans hOne
      · intro n small _ hOk
        cases hOk
    · split
      · rename_i hZero
        refine hCalls.complete (c := ⟨q.calls.length, .ok, .batch fun _ => [], q.closed, q.size⟩)
          rfl rfl ⟨?_, fun hNot => absurd rfl hNot, ?_, ?_⟩ rfl
        · simp
        · intro hOne
          cases hNew.symm.trans hOne
        · intro n' small' hMany _
          cases hNew.symm.trans hMany
          exact ⟨_, [], rfl, fun i => rfl, .inl hZero.symm⟩
      · rename_i hSome
        refine { hCalls.appendDequeue (a := newAttempt q (.dequeueMany small) n) ?_ ?_ with }
        · exact .inl (hCopies.resolve_right fun hNot => hNot hSome)
        · refine ⟨rfl, rfl, rfl, ⟨rfl, ?_, rfl⟩, n, hNew, ?_⟩
          · change (0 : Int) < n
            omega
          · simp [newAttempt]
  | close cancel =>
    cases cancel with
    | false =>
      exact { hCalls.appendEnqueue (a := newAttempt q .close 0) (.inr id)
        ⟨rfl, fun _ => rfl, hNew⟩ hLast hEarlier with }
    | true =>
      have hClosed : Sound env { q with calls := q.calls ++ [Call.close true] }.closeAndCancel :=
        Sound.closeAndCancel hCalls
      refine hClosed.complete (c := ⟨q.calls.length, .ok, .finished, true, q.size⟩) rfl rfl
        ⟨?_, fun hNot => absurd rfl hNot, ?_, ?_⟩ rfl
      · simp [QueueBase.closeAndCancel]
      · intro hOne
        cases hNew.symm.trans hOne
      · intro n small hMany
        cases hNew.symm.trans hMany

theorem sound_init (capacity : Nat) (name : String) (specifiedShapes : Bool) :
    Sound env (init capacity name specifiedShapes : QueueBase k α) where
  copies := .inr (by simp [init])
  fifo := ⟨[], [], fun i => rfl, rfl, rfl⟩
  enqueues := by simp [init]
  inOrder := Pairwise.nil
  earlier := by simp [init]
  known := by simp [init]
  sorted := Pairwise.nil
  prefixes id := takesPrefix_of_eq_nil rfl
  answered := by simp [init]

def Copyable (componentDtypes : Fin (k + 1) → DataType) (_ : QueueBase k α) : Action k α → Prop
  | .call call => (∀ i, handled (componentDtypes i)) ∨ ¬Copies call
  | .flush => True

theorem succeeds_ofTypes {componentDtypes : Fin (k + 1) → DataType}
    (h : ∀ i, handled (componentDtypes i)) : Succeeds (ofTypes componentDtypes) := by
  intro n i
  simp [ofTypes, h i]

variable {componentDtypes : Fin (k + 1) → DataType} {capacity : Nat} {name : String}
  {specifiedShapes : Bool}

theorem sound_of_reach (hRun : Reach (step (ofTypes componentDtypes)) (Copyable componentDtypes)
    (init capacity name specifiedShapes) q) : Sound (ofTypes componentDtypes) q := by
  refine hRun.invariant (Sound _) (sound_init capacity name specifiedShapes) ?_
  intro q action q' hSound hCopyable hNext
  cases action with
  | call call =>
    cases hNext
    exact hSound.enter call (hCopyable.imp_left succeeds_ofTypes)
  | flush =>
    rw [step] at hNext
    rcases hSound.flush with ⟨q'', hFlush, hSound'⟩ | ⟨fault, hFault⟩
    · rw [hFlush] at hNext
      cases hNext
      exact hSound'
    · rw [hFault] at hNext
      cases hNext

variable {held : List (Tuple k α)}

theorem Fills.heldBy (h : Fills a held) : heldBy a = held := by
  have hTuple := h.tuple
  rw [FifoQueue.heldBy]
  split
  · rename_i hNone
    simp only [hNone] at hTuple
    exact hTuple.symm
  · rename_i t hSome
    simp only [hSome] at hTuple
    exact slices_held hTuple

theorem Front.heldByFront {calls : List (Call k α)} (h : Front calls held q.dequeueAttempts)
    : heldByFront q = held := by
  rw [FifoQueue.heldByFront]
  split
  · rename_i hNone
    rw [hNone] at h
    exact h.symm
  · rename_i a rest hSome
    rw [hSome] at h
    have hOperation := h.1.operation
    split at hOperation
    · rw [heldBy, hOperation.2.1, hOperation.1]
    · exact hOperation.1.heldBy
    · exact hOperation.elim

structure Fifo (env : Env k) (q : QueueBase k α) : Prop where
  order : delivered q ++ heldByFront q ++ content q = q.accepted.map Prod.snd
  inAttemptOrder : (q.accepted.map Prod.fst).Pairwise (· ≤ ·)
  fromAttempts : ∀ id, TakesPrefix q.calls q.accepted id
  answered : ∀ c ∈ q.completed, Answered q.calls c
  flushes : step env q .flush ≠ .failed .endlessFlush

/-- Delivered, held and stored elements are the accepted ones, in their order. -/
theorem history_is_fifo (hRun : Reach (step (ofTypes componentDtypes)) (Copyable componentDtypes)
    (init capacity name specifiedShapes) q) : Fifo (ofTypes componentDtypes) q := by
  have hSound := sound_of_reach hRun
  obtain ⟨held, elements, hStores, hFifo, hFront⟩ := hSound.fifo
  refine ⟨?_, hSound.sorted, hSound.prefixes, hSound.answered, ?_⟩
  · have hContent : content q = elements := hStores.slices
    rw [hFront.heldByFront, hContent]
    exact hFifo
  · rw [step]
    rcases hSound.flush with ⟨q', hFlush, _⟩ | ⟨fault, hFault⟩
    · rw [hFlush]
      nofun
    · rw [hFault]
      nofun

def cutShort : List (Action 0 Nat) :=
  [.call (.tryEnqueueMany fun _ => [1, 2, 3]), .flush, .call (.tryDequeueMany 4 true), .flush,
    .call (.close false), .flush]

theorem small_batch_delivered :
    ∃ q, Reach (step (ofTypes fun _ : Fin 1 => .int32)) (Copyable fun _ => .int32)
        (init 2 "q" true) q ∧ (delivered q).map (· 0) = [1, 2, 3] ∧
      Fifo (ofTypes fun _ => .int32) q := by
  have hCopyable : ∀ (q : QueueBase 0 Nat) (action : Action 0 Nat), always q action →
      Copyable (fun _ => .int32) q action := by
    rintro q (call | _) _
    · exact .inl fun _ => rfl
    · trivial
  obtain ⟨q, hRun, hTest⟩ := exists_reach_of_exec (step (ofTypes fun _ : Fin 1 => .int32))
    (init 2 "q" true) always hCopyable cutShort (fun q => (delivered q).map (· 0) = [1, 2, 3])
    (by decide)
  exact ⟨q, hRun, of_decide_eq_true hTest, history_is_fifo hRun⟩

/-- An element of a type that `CopyElementToSlice` does not handle is lost. -/
theorem uint16_element_lost :
    ¬∀ (k : Nat) (componentDtypes : Fin (k + 1) → DataType) (capacity : Nat) (name : String)
      (specifiedShapes : Bool) (q : QueueBase k Nat), 1 ≤ capacity →
      Reach (step (ofTypes componentDtypes)) anyStep (init capacity name specifiedShapes) q →
      delivered q ++ heldByFront q ++ content q = q.accepted.map Prod.snd := by
  intro hFifo
  obtain ⟨q, hRun, hTest⟩ := exists_reach_of_exec (step (ofTypes fun _ : Fin 1 => .uint16))
    (init 1 "q" true) always anyStep_of_always
    [.call (.tryEnqueue fun _ => 7), .flush, .call (.tryDequeueMany 1 false), .flush]
    (fun q => (delivered q ++ heldByFront q ++ content q).length ≠ q.accepted.length) (by decide)
  have hEq := congrArg length (hFifo 0 _ 1 "q" true q (le_refl _) hRun)
  rw [length_map] at hEq
  exact of_decide_eq_true hTest hEq

end TensorFlowOnSpark.Kernels.FifoQueue
