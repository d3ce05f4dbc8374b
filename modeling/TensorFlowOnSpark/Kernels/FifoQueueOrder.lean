import TensorFlowOnSpark.Kernels.FifoQueueRuns

/-!
# A FIFO queue keeps the order of its elements

What was delivered, what the front `DequeueMany` has already taken and what is in the
queue are together the accepted elements.
-/

namespace TensorFlowOnSpark.Kernels.FifoQueue

open Framework Transition QueueBase List Bool Nat

universe u

variable {k : Nat} {α : Type u} [Inhabited α]

def elementsOf : Done k α → List (Tuple k α)
  | .finished => []
  | .element x => [x]
  | .batch t => slices t (t 0).length

def deliveredBy (c : Completed k α) : List (Tuple k α) :=
  if c.status = .ok then elementsOf c.done else []

/-- The elements delivered with status `OK`, in the order of completion. -/
def delivered (q : QueueBase k α) : List (Tuple k α) := q.completed.flatMap deliveredBy

def heldBy (a : Attempt k α) : List (Tuple k α) :=
  match a.tuple with
  | none => []
  | some t => slices t ((t 0).length - a.elementsRequested).toNat

def heldByFront (q : QueueBase k α) : List (Tuple k α) :=
  match q.dequeueAttempts with
  | [] => []
  | a :: _ => heldBy a

def content (q : QueueBase k α) : List (Tuple k α) := slices q.queues q.size

def acceptedFrom (accepted : List (Nat × Tuple k α)) (id : Nat) : List (Tuple k α) :=
  (accepted.filter (·.1 = id)).map Prod.snd

def TakesPrefix (calls : List (Call k α)) (accepted : List (Nat × Tuple k α)) (id : Nat) : Prop :=
  match calls[id]? with
  | some (.tryEnqueue x) => acceptedFrom accepted id = [] ∨ acceptedFrom accepted id = [x]
  | some (.tryEnqueueMany t) => (t 0).length < 2 ^ 31 →
    ∃ count, count ≤ (t 0).length ∧ acceptedFrom accepted id = slices t count
  | _ => acceptedFrom accepted id = []

structure Answered (calls : List (Call k α)) (c : Completed k α) : Prop where
  known : c.id < calls.length
  failed : c.status ≠ .ok → c.done = .finished
  one : calls[c.id]? = some .tryDequeue → c.status = .ok → ∃ x, c.done = .element x
  many : ∀ n allowSmallBatch, calls[c.id]? = some (.tryDequeueMany n allowSmallBatch) →
    c.status = .ok → ∃ t elements, c.done = .batch t ∧ Stores t elements ∧
      (elements.length = n ∨ allowSmallBatch ∧ c.closed ∧ c.size = 0 ∧
        0 < elements.length ∧ elements.length < n)

def Operation.Many : Operation k α → Prop
  | .enqueueMany _ => True
  | .dequeueMany _ => True
  | _ => False

structure Enqueues (calls : List (Call k α)) (accepted : List (Nat × Tuple k α))
    (a : Attempt k α) : Prop where
  done : a.done = .finished
  status : a.isCancelled = false → a.status = .ok
  operation : match a.operation with
    | .enqueue x => calls[a.id]? = some (.tryEnqueue x) ∧
        (a.isCancelled = false → acceptedFrom accepted a.id = [])
    | .enqueueMany t => calls[a.id]? = some (.tryEnqueueMany t) ∧
        (a.isCancelled = false → (t 0).length < 2 ^ 31 →
          ∃ p : Nat, p ≤ (t 0).length ∧ (p : Int) = (t 0).length - a.elementsRequested ∧
            acceptedFrom accepted a.id = slices t p)
    | .close => calls[a.id]? = some (.close false)
    | _ => False

structure Dequeues (calls : List (Call k α)) (a : Attempt k α) (held : List (Tuple k α)) :
    Prop where
  done : a.done = .finished
  status : a.status = .ok
  active : a.isCancelled = false
  operation : match a.operation with
    | .dequeue => held = [] ∧ a.tuple = none ∧ calls[a.id]? = some .tryDequeue
    | .dequeueMany allowSmallBatch => Fills a held ∧
        ∃ n : Nat, calls[a.id]? = some (.tryDequeueMany n allowSmallBatch) ∧
          held.length + a.elementsRequested = n
    | _ => False

def Front (calls : List (Call k α)) (held : List (Tuple k α)) : List (Attempt k α) → Prop
  | [] => held = []
  | a :: rest => Dequeues calls a held ∧ ∀ b ∈ rest, Dequeues calls b []

/-- The invariant of a queue with the given enqueue and dequeue attempts. -/
structure Ordered (env : Env k) (es ds : List (Attempt k α)) (q : QueueBase k α) : Prop where
  copies : Succeeds env ∨ ∀ a ∈ es ++ ds, ¬Operation.Many a.operation
  fifo : ∃ held content, Stores q.queues content ∧
    delivered q ++ held ++ content = q.accepted.map Prod.snd ∧ Front q.calls held ds
  enqueues : ∀ a ∈ es, Enqueues q.calls q.accepted a
  inOrder : es.Pairwise fun a b => a.id < b.id
  earlier : ∀ e ∈ q.accepted, ∀ a ∈ es, e.1 ≤ a.id
  known : ∀ e ∈ q.accepted, e.1 < q.calls.length
  sorted : (q.accepted.map Prod.fst).Pairwise (· ≤ ·)
  prefixes : ∀ id, TakesPrefix q.calls q.accepted id
  answered : ∀ c ∈ q.completed, Answered q.calls c

variable {env : Env k} {a : Attempt k α} {rest es ds : List (Attempt k α)}
  {q q' : QueueBase k α} {r : Run k α}

variable {id : Nat}

omit [Inhabited α] in
theorem lt_of_getElem?_eq_some {calls : List (Call k α)} {c : Call k α}
    (h : calls[id]? = some c) : id < calls.length :=
  (List.getElem?_eq_some_iff.mp h).1

theorem Enqueues.known {calls : List (Call k α)} {accepted : List (Nat × Tuple k α)}
    (h : Enqueues calls accepted a) : a.id < calls.length := by
  have hOperation := h.operation
  split at hOperation
  · exact lt_of_getElem?_eq_some hOperation.1
  · exact lt_of_getElem?_eq_some hOperation.1
  · exact lt_of_getElem?_eq_some hOperation
  · exact hOperation.elim

omit [Inhabited α] in
theorem acceptedFrom_append (accepted : List (Nat × Tuple k α)) (elements : List (Tuple k α))
    (id id' : Nat) :
    acceptedFrom (accepted ++ elements.map fun x => (id, x)) id' =
      acceptedFrom accepted id' ++ if id' = id then elements else [] := by
  rw [acceptedFrom, filter_append, map_append]
  congr 1
  split
  · rename_i hEq
    rw [filter_eq_self.mpr]
    · simp
    · simp [hEq]
  · rename_i hNe
    rw [filter_eq_nil_iff.mpr]
    · rfl
    · intro e he
      obtain ⟨x, _, rfl⟩ := mem_map.mp he
      simp only [decide_eq_true_eq]
      exact fun h => hNe h.symm

variable {calls : List (Call k α)} {accepted : List (Nat × Tuple k α)}

theorem Enqueues.append (h : Enqueues calls accepted a) (elements : List (Tuple k α))
    (hNe : a.id ≠ id) : Enqueues calls (accepted ++ elements.map fun x => (id, x)) a := by
  refine { h with operation := ?_ }
  rw [acceptedFrom_append, if_neg hNe, append_nil]
  exact h.operation

theorem TakesPrefix.append
    {id' : Nat} (h : TakesPrefix calls accepted id') (elements : List (Tuple k α))
    (hNe : id' ≠ id) : TakesPrefix calls (accepted ++ elements.map fun x => (id, x)) id' := by
  rw [TakesPrefix, acceptedFrom_append, if_neg hNe, append_nil]
  exact h

theorem delivered_append (q : QueueBase k α) (c : Completed k α) :
    delivered { q with completed := q.completed ++ [c] } = delivered q ++ deliveredBy c := by
  simp [delivered]

theorem Ordered.tail (h : Ordered env (a :: rest) ds q) : Ordered env rest ds q where
  copies := h.copies.imp_right fun hNone b hb => hNone b (mem_cons_of_mem _ hb)
  fifo := h.fifo
  enqueues b hb := h.enqueues b (mem_cons_of_mem _ hb)
  inOrder := (pairwise_cons.mp h.inOrder).2
  earlier e he b hb := h.earlier e he b (mem_cons_of_mem _ hb)
  known := h.known
  sorted := h.sorted
  prefixes := h.prefixes
  answered := h.answered

/-- The front enqueue attempt gives elements to the queue and leaves its deque. -/
theorem Ordered.accept (h : Ordered env (a :: rest) ds q) (elements : List (Tuple k α))
    (hQueues : ∀ i, q'.queues i = q.queues i ++ elements.map (· i))
    (hAccepted : q'.accepted = q.accepted ++ elements.map fun x => (a.id, x))
    (hCalls : q'.calls = q.calls) (hCompleted : q'.completed = q.completed)
    (hPrefix : TakesPrefix q.calls q'.accepted a.id) : Ordered env rest ds q' := by
  obtain ⟨hFirst, hOrder⟩ := pairwise_cons.mp h.inOrder
  obtain ⟨held, content, hStores, hFifo, hFront⟩ := h.fifo
  have hKnown := (h.enqueues a mem_cons_self).known
  have hMem {e : Nat × Tuple k α} (he : e ∈ q'.accepted) : e ∈ q.accepted ∨ e.1 = a.id := by
    rw [hAccepted] at he
    refine (mem_append.mp he).imp_right ?_
    intro hNew
    obtain ⟨x, _, rfl⟩ := mem_map.mp hNew
    rfl
  refine ⟨h.tail.copies, ⟨held, content ++ elements, ?_, ?_, ?_⟩, ?_, hOrder, ?_, ?_, ?_, ?_, ?_⟩
  · intro i
    rw [hQueues i, hStores i, map_append]
  · have hSame : delivered q' = delivered q := by rw [delivered, hCompleted]; rfl
    rw [hSame, hAccepted, map_append, ← hFifo]
    simp
  · rw [hCalls]
    exact hFront
  · intro b hb
    rw [hCalls, hAccepted]
    exact (h.enqueues b (mem_cons_of_mem _ hb)).append elements (hFirst b hb).ne'
  · intro e he b hb
    rcases hMem he with hOld | hNew
    · exact h.earlier e hOld b (mem_cons_of_mem _ hb)
    · rw [hNew]
      exact (hFirst b hb).le
  · intro e he
    rw [hCalls]
    rcases hMem he with hOld | hNew
    · exact h.known e hOld
    · rw [hNew]
      exact hKnown
  · rw [hAccepted, map_append, pairwise_append]
    refine ⟨h.sorted, ?_, ?_⟩
    · rw [map_map]
      exact pairwise_map.mpr (pairwise_of_forall fun _ _ => le_refl _)
    · intro x hx y hy
      obtain ⟨e, he, rfl⟩ := mem_map.mp hx
      rw [map_map] at hy
      obtain ⟨z, _, rfl⟩ := mem_map.mp hy
      exact h.earlier e he a mem_cons_self
  · intro id
    rw [hCalls]
    by_cases hId : id = a.id
    · rw [hId]
      exact hPrefix
    · rw [hAccepted]
      exact (h.prefixes id).append elements hId
  · rw [hCalls, hCompleted]
    exact h.answered

theorem Ordered.cons (h : Ordered env rest ds q)
    (hCopies : Succeeds env ∨ ¬Operation.Many a.operation) (ha : Enqueues q.calls q.accepted a)
    (hFirst : ∀ b ∈ rest, a.id < b.id) (hEarlier : ∀ e ∈ q.accepted, e.1 ≤ a.id) :
    Ordered env (a :: rest) ds q where
  copies := by
    rcases h.copies with hEnv | hRest
    · exact .inl hEnv
    · refine hCopies.imp_right fun hOne b hb => ?_
      rcases mem_cons.mp hb with rfl | hb
      · exact hOne
      · exact hRest b hb
  fifo := h.fifo
  enqueues b hb := by
    rcases mem_cons.mp hb with rfl | hb
    · exact ha
    · exact h.enqueues b hb
  inOrder := pairwise_cons.mpr ⟨hFirst, h.inOrder⟩
  earlier e he b hb := by
    rcases mem_cons.mp hb with rfl | hb
    · exact hEarlier e he
    · exact h.earlier e he b hb
  known := h.known
  sorted := h.sorted
  prefixes := h.prefixes
  answered := h.answered

variable {c : Completed k α}

theorem Ordered.complete (h : Ordered env es ds q)
    (hCompleted : q'.completed = q.completed ++ [c]) (hNone : deliveredBy c = [])
    (hAnswered : Answered q.calls c)
    (hSame : q' = { q with completed := q'.completed }) : Ordered env es ds q' := by
  rw [hSame, hCompleted]
  refine { h with fifo := ?_, answered := ?_ }
  · obtain ⟨held, content, hStores, hFifo, hFront⟩ := h.fifo
    refine ⟨held, content, hStores, ?_, hFront⟩
    rw [delivered_append, hNone, append_nil]
    exact hFifo
  · intro c' hc'
    rcases mem_append.mp hc' with hOld | hNew
    · exact h.answered c' hOld
    · rw [mem_singleton.mp hNew]
      exact hAnswered

theorem deliveredBy_finished (h : c.done = .finished) : deliveredBy c = [] := by
  rw [deliveredBy, h]
  split <;> rfl

def Keeps (q q' : QueueBase k α) : Prop :=
  q'.enqueueAttempts = q.enqueueAttempts ∧ q'.dequeueAttempts = q.dequeueAttempts ∧
    q'.calls = q.calls

def Stays (a : Attempt k α) (r : Run k α) : Prop :=
  r.result ≠ .complete → r.queue.closed = false ∧ Advances a r

theorem Enqueues.not_dequeue (h : Enqueues calls accepted a) :
    calls[a.id]? ≠ some .tryDequeue ∧ ∀ n small, calls[a.id]? ≠ some (.tryDequeueMany n small) := by
  have hOperation := h.operation
  split at hOperation
  · simp [hOperation.1]
  · simp [hOperation.1]
  · simp [hOperation]
  · exact hOperation.elim

variable {b : Attempt k α}

theorem Ordered.finishEnqueue (h : Ordered env es ds q) (ha : Enqueues q.calls accepted a)
    (hId : b.id = a.id) (hDone : b.done = .finished) : Ordered env es ds (q.finish b) := by
  have hCall := ha.not_dequeue
  rw [← hId] at hCall
  refine h.complete (c := ⟨b.id, b.status, b.done, q.closed, q.size⟩) rfl
    (deliveredBy_finished hDone) ⟨?_, fun _ => hDone, ?_, ?_⟩ rfl
  · rw [hId]
    exact ha.known
  · intro hOne
    exact absurd hOne hCall.1
  · intro n small hMany
    exact absurd hMany (hCall.2 n small)

omit [Inhabited α] in
@[simp]
theorem setStatus_id (status : Status) : (a.setStatus status).id = a.id := by
  rw [Attempt.setStatus]
  split <;> rfl

omit [Inhabited α] in
@[simp]
theorem setStatus_done (status : Status) : (a.setStatus status).done = a.done := by
  rw [Attempt.setStatus]
  split <;> rfl

section

variable (h : Ordered env (a :: rest) ds q)
include h

theorem Ordered.refuse (status : Status) : Ordered env rest ds (q.finish (a.setStatus status)) := by
  have ha := h.enqueues a mem_cons_self
  refine h.tail.finishEnqueue ha (setStatus_id status) ?_
  rw [setStatus_done, ha.done]

theorem Ordered.runEnqueue (hActive : a.isCancelled = false)
    {x : Tuple k α} (hOperation : a.operation = .enqueue x) :
    Leaves (Ordered env · ds ·) rest (FifoQueue.runEnqueue x q a) ∧
      Stays a (FifoQueue.runEnqueue x q a) ∧ Keeps q (FifoQueue.runEnqueue x q a).queue := by
  have ha := h.enqueues a mem_cons_self
  have hCase := ha.operation
  rw [hOperation] at hCase
  rw [FifoQueue.runEnqueue]
  split
  · exact ⟨⟨fun _ => h.refuse _, fun hNot => absurd rfl hNot⟩, fun hNot => absurd rfl hNot, rfl,
      rfl, rfl⟩
  · rename_i hOpen
    split
    · refine ⟨⟨fun _ => ?_, fun hNot => absurd rfl hNot⟩, fun hNot => absurd rfl hNot, rfl, rfl,
        rfl⟩
      have hPrefix : TakesPrefix q.calls (q.accepted ++ [(a.id, x)]) a.id := by
        rw [TakesPrefix, hCase.1]
        right
        exact (acceptedFrom_append q.accepted [x] a.id a.id).trans
          (by rw [hCase.2 hActive, if_pos rfl, nil_append])
      have hAccept : Ordered env rest ds { q with
          queues := fun i => q.queues i ++ [x i], accepted := q.accepted ++ [(a.id, x)] } :=
        h.accept [x] (fun i => rfl) rfl rfl rfl hPrefix
      exact hAccept.finishEnqueue ha rfl ha.done
    · refine ⟨⟨nofun, fun _ => h⟩, fun _ => ⟨?_, le_refl _, nofun⟩, rfl, rfl, rfl⟩
      exact not_eq_true _ ▸ hOpen

theorem Ordered.runClose :
    Leaves (Ordered env · ds ·) rest (QueueBase.runClose q a) ∧
      Stays a (QueueBase.runClose q a) ∧ Keeps q (QueueBase.runClose q a).queue := by
  have ha := h.enqueues a mem_cons_self
  rw [QueueBase.runClose]
  split
  · exact ⟨⟨fun _ => h.refuse _, fun hNot => absurd rfl hNot⟩, fun hNot => absurd rfl hNot, rfl,
      rfl, rfl⟩
  · refine ⟨⟨fun _ => ?_, fun hNot => absurd rfl hNot⟩, fun hNot => absurd rfl hNot, rfl, rfl, rfl⟩
    have hClosed : Ordered env rest ds { q with closed := true } := { h.tail with }
    exact hClosed.finishEnqueue ha rfl ha.done

theorem Ordered.runEnqueueMany
    (hActive : a.isCancelled = false) {t : Batch k α} (hOperation : a.operation = .enqueueMany t)
    (hRun : FifoQueue.runEnqueueMany env t q a = .ok r) :
    Leaves (Ordered env · ds ·) rest r ∧ Stays a r ∧ Keeps q r.queue := by
  have ha := h.enqueues a mem_cons_self
  have hCase := ha.operation
  rw [hOperation] at hCase
  have hEnv : Succeeds env := by
    refine h.copies.resolve_right fun hNone => hNone a mem_cons_self ?_
    rw [hOperation]
    trivial
  rw [FifoQueue.runEnqueueMany] at hRun
  split at hRun
  · cases hRun
    exact ⟨⟨fun _ => h.refuse _, fun hNot => absurd rfl hNot⟩, fun hNot => absurd rfl hNot, rfl,
      rfl, rfl⟩
  · rename_i hOpen
    obtain ⟨elements, hPut, hResult⟩ :=
      enqueueManyLoop_ok hEnv t _ _ (ha.status hActive) hRun
    obtain ⟨⟨copies, hQueue⟩, hAttempt, hFollows, hWanted⟩ := hPut
    have hTaken : (t 0).length < 2 ^ 31 → ∃ p : Nat, p ≤ (t 0).length ∧
        (p : Int) = (t 0).length - r.attempt.elementsRequested ∧
          acceptedFrom r.queue.accepted a.id = slices t p := by
      intro hShort
      obtain ⟨p, hLe, hp, hSlices⟩ := hCase.2 hActive hShort
      refine ⟨p + elements.length, ?_, ?_, ?_⟩
      · by_cases hNone : elements = []
        · rw [hNone]
          exact hLe
        · have hBound := hWanted hNone
          omega
      · rw [hAttempt]
        simp only
        omega
      · rw [hQueue, hFollows p hp]
        rw [acceptedFrom_append, if_pos rfl, hSlices]
    have hAccept : Ordered env rest ds r.queue := by
      refine h.accept elements ?_ ?_ ?_ ?_ ?_
      · rw [hQueue]
        exact fun i => rfl
      · rw [hQueue]
      · rw [hQueue]
      · rw [hQueue]
      · rw [TakesPrefix, hCase.1]
        intro hShort
        obtain ⟨p, hLe, _, hSlices⟩ := hTaken hShort
        exact ⟨p, hLe, hSlices⟩
    have hSame : r.attempt.id = a.id ∧ r.attempt.done = .finished := by
      rw [hAttempt]
      exact ⟨rfl, ha.done⟩
    have hCalls : r.queue.calls = q.calls := by rw [hQueue]
    refine ⟨⟨fun _ => ?_, fun _ => ?_⟩, fun hNot => ⟨?_, ?_⟩, ?_⟩
    · rw [← hCalls] at ha
      exact hAccept.finishEnqueue ha hSame.1 hSame.2
    · refine hAccept.cons (.inl hEnv) ⟨hSame.2, ?_, ?_⟩ ?_ ?_
      · rw [hAttempt]
        exact ha.status
      · rw [hCalls, hAttempt, hOperation]
        rw [hAttempt] at hTaken
        exact ⟨hCase.1, fun _ => hTaken⟩
      · rw [hSame.1]
        exact (pairwise_cons.mp h.inOrder).1
      · intro e he
        rw [hSame.1]
        rw [hQueue] at he
        rcases mem_append.mp he with hOld | hNew
        · exact h.earlier e hOld a mem_cons_self
        · obtain ⟨x, _, rfl⟩ := mem_map.mp hNew
          exact le_refl _
    · rw [hQueue]
      exact not_eq_true _ ▸ hOpen
    · have hRequested : r.attempt.elementsRequested = a.elementsRequested - elements.length := by
        rw [hAttempt]
      constructor
      · omega
      · intro hProgress
        obtain ⟨hComplete, _⟩ | ⟨hStep, hCount⟩ := hResult
        · exact absurd hComplete hNot
        · rw [hStep] at hProgress
          split at hProgress
          · cases hProgress
          · have hNonempty : elements ≠ [] := by
              apply ne_nil_of_length_pos
              omega
            have hBound := hWanted hNonempty
            omega
    · rw [hQueue]
      exact ⟨rfl, rfl, rfl⟩

end

variable {allowSmallBatch : Bool}

section

variable (h : Ordered env es (a :: rest) q)
include h

theorem Ordered.hold (hMoves : Moves q q') (hOperation : b.operation = a.operation)
    {held content : List (Tuple k α)} (hStores : Stores q'.queues content)
    (hFifo : delivered q ++ held ++ content = q.accepted.map Prod.snd)
    (hb : Dequeues q.calls b held) (hRest : ∀ c ∈ rest, Dequeues q.calls c []) :
    Ordered env es (b :: rest) q' := by
  obtain ⟨copies, queues, rfl⟩ := hMoves
  refine { h with copies := ?_, fifo := ⟨held, content, hStores, hFifo, hb, hRest⟩ }
  refine h.copies.imp_right fun hNone c hc => ?_
  rcases mem_append.mp hc with hE | hD
  · exact hNone c (mem_append_left _ hE)
  · rcases mem_cons.mp hD with rfl | hD
    · rw [hOperation]
      exact hNone a (mem_append_right _ mem_cons_self)
    · exact hNone c (mem_append_right _ (mem_cons_of_mem _ hD))

theorem Ordered.deliver (hMoves : Moves q q') {content : List (Tuple k α)}
    (hStores : Stores q'.queues content)
    (hFifo : delivered q ++ deliveredBy ⟨b.id, b.status, b.done, q'.closed, q'.size⟩ ++ content =
      q.accepted.map Prod.snd)
    (hAnswered : Answered q.calls ⟨b.id, b.status, b.done, q'.closed, q'.size⟩)
    (hRest : ∀ c ∈ rest, Dequeues q.calls c []) :
    Ordered env es rest (q'.finish b) := by
  obtain ⟨copies, queues, rfl⟩ := hMoves
  refine { h with copies := ?_, fifo := ⟨[], content, hStores, ?_, ?_⟩, answered := ?_ }
  · refine h.copies.imp_right fun hNone c hc => ?_
    rcases mem_append.mp hc with hE | hD
    · exact hNone c (mem_append_left _ hE)
    · exact hNone c (mem_append_right _ (mem_cons_of_mem _ hD))
  · rw [finish, delivered_append, append_nil]
    exact hFifo
  · cases rest with
    | nil => rfl
    | cons c rest =>
      exact ⟨hRest c mem_cons_self, fun d hd => hRest d (mem_cons_of_mem _ hd)⟩
  · intro c hc
    rcases mem_append.mp hc with hOld | hNew
    · exact h.answered c hOld
    · rw [mem_singleton.mp hNew]
      exact hAnswered

theorem Ordered.runDequeue (hOperation : a.operation = .dequeue) :
    ∃ r, runDequeue q a = .ok r ∧ Leaves (Ordered env es · ·) rest r ∧ Stays a r ∧
      Moves q r.queue := by
  obtain ⟨held, content, hStores, hFifo, ha, hRest⟩ := h.fifo
  have hCase := ha.operation
  rw [hOperation] at hCase
  obtain ⟨rfl, hTuple, hCall⟩ := hCase
  have hKnown := lt_of_getElem?_eq_some hCall
  rw [append_nil] at hFifo
  obtain ⟨r, hRun, hMoves, hCases⟩ := runDequeue_ok ha.status hStores
  have hStays : Stays a r := by
    intro hNot
    obtain ⟨hResult, _⟩ | ⟨hResult, _⟩ | ⟨hResult, _, hOpen, hQueue, hAttempt⟩ := hCases
    · exact absurd hResult hNot
    · exact absurd hResult hNot
    · rw [hQueue]
      refine ⟨hOpen, ?_⟩
      rw [Advances, hAttempt, hResult]
      exact ⟨le_refl _, nofun⟩
  refine ⟨r, hRun, ?_, hStays, hMoves⟩
  obtain ⟨hResult, x, tail, rfl, hStores', hAttempt⟩ | ⟨hResult, rfl, hClosed, hQueue, hAttempt⟩ |
    ⟨hResult, rfl, hOpen, hQueue, hAttempt⟩ := hCases
  · refine ⟨fun _ => ?_, fun hNot => absurd hResult hNot⟩
    refine h.deliver hMoves hStores' ?_ ⟨?_, ?_, ?_, ?_⟩ hRest
    · rw [hAttempt]
      simp only [ha.status]
      rw [← hFifo, append_assoc]
      rfl
    · rw [hAttempt]
      exact hKnown
    · rw [hAttempt]
      exact fun hNot => absurd ha.status hNot
    · rw [hAttempt]
      exact fun _ _ => ⟨x, rfl⟩
    · rw [hAttempt]
      intro n small hMany
      cases hCall.symm.trans hMany
  · refine ⟨fun _ => ?_, fun hNot => absurd hResult hNot⟩
    have hDone : r.attempt.done = .finished := by
      rw [hAttempt]
      exact ha.done
    have hStatus : r.attempt.status ≠ .ok := by
      rw [hAttempt]
      exact nofun
    rw [← hQueue] at hStores
    refine h.deliver hMoves hStores ?_ ⟨?_, fun _ => hDone, ?_, ?_⟩ hRest
    · rw [deliveredBy_finished hDone, append_nil]
      exact hFifo
    · rw [hAttempt]
      exact hKnown
    · exact fun _ hOk => absurd hOk hStatus
    · exact fun _ _ _ hOk => absurd hOk hStatus
  · refine ⟨fun hComplete => ?_, fun _ => ?_⟩
    · cases hResult.symm.trans hComplete
    · rw [hQueue, hAttempt]
      exact h

theorem Ordered.deliverBatch (hMoves : Moves q r.queue) {n : Nat}
    (hCall : q.calls[a.id]? = some (.tryDequeueMany n allowSmallBatch)) {t : Batch k α}
    (hAttempt : r.attempt.id = a.id ∧ r.attempt.status = .ok ∧ r.attempt.done = .batch t)
    {elements content : List (Tuple k α)} (hBatch : Stores t elements)
    (hStores : Stores r.queue.queues content)
    (hFifo : delivered q ++ elements ++ content = q.accepted.map Prod.snd)
    (hCount : elements.length = n ∨ allowSmallBatch = true ∧ q.closed = true ∧ content = [] ∧
      0 < elements.length ∧ elements.length < n) (hRest : ∀ c ∈ rest, Dequeues q.calls c []) :
    Ordered env es rest (r.queue.finish r.attempt) := by
  obtain ⟨hId, hStatus, hDone⟩ := hAttempt
  refine h.deliver hMoves hStores ?_ ⟨?_, ?_, ?_, ?_⟩ hRest
  · simp only [deliveredBy, hStatus, hDone, elementsOf, hBatch.slices]
    exact hFifo
  · simp only [hId]
    exact lt_of_getElem?_eq_some hCall
  · exact fun hNot => absurd hStatus hNot
  · simp only [hId]
    intro hOne
    cases hCall.symm.trans hOne
  · simp only [hId]
    intro n' small hMany _
    cases hCall.symm.trans hMany
    refine ⟨t, elements, hDone, hBatch, hCount.imp_right ?_⟩
    rintro ⟨hSmall, hClosed, hEmpty, hBounds⟩
    refine ⟨hSmall, ?_, ?_, hBounds⟩
    · obtain ⟨copies, queues, hEq⟩ := hMoves
      rw [hEq]
      exact hClosed
    · rw [QueueBase.size, hStores.length, hEmpty]
      rfl

end

omit [Inhabited α] in
theorem Taken.stays {held content : List (Tuple k α)} {allowSmallBatch : Bool}
    (h : Taken q a held content allowSmallBatch r) (hMoves : Moves q r.queue)
    (hNone : q.closed = true → q.enqueueAttempts = []) : Stays a r := by
  intro hNot
  obtain ⟨copies, queues, hQueue⟩ := hMoves
  cases h with
  | full _ _ _ completes _ _ => exact absurd completes hNot
  | small _ _ _ _ _ _ completes _ _ => exact absurd completes hNot
  | fails _ _ completes _ => exact absurd completes hNot
  | yields closed pending _ _ _ => exact absurd (hNone closed) pending
  | waits opened short attempt continues _ _ =>
    have hRequested : r.attempt.elementsRequested = a.elementsRequested - content.length := by
      rw [attempt]
    rw [hQueue]
    refine ⟨opened, ?_, ?_⟩
    · omega
    · intro hProgress
      rw [continues] at hProgress
      split at hProgress
      · cases hProgress
      · rename_i hSome
        have hPos := length_pos_iff.mpr hSome
        omega

def Settled (q : QueueBase k α) : Prop := q.closed → q.enqueueAttempts = []

theorem Ordered.runDequeueMany (h : Ordered env es (a :: rest) q)
    (hOperation : a.operation = .dequeueMany allowSmallBatch) (hSettled : Settled q) :
    ∃ r, runDequeueMany env allowSmallBatch q a = .ok r ∧
      Leaves (Ordered env es · ·) rest r ∧ Stays a r ∧ Moves q r.queue := by
  obtain ⟨held, content, hStores, hFifo, ha, hRest⟩ := h.fifo
  have hCase := ha.operation
  rw [hOperation] at hCase
  obtain ⟨hFills, n, hCall, hCount⟩ := hCase
  have hWants := hFills.wants
  have hEnv : Succeeds env := by
    refine h.copies.resolve_right fun hNone =>
      hNone a (mem_append_right _ mem_cons_self) ?_
    rw [hOperation]
    trivial
  obtain ⟨r, hRun, hMoves, hTaken⟩ := runDequeueMany_ok hEnv allowSmallBatch hFills hStores
  refine ⟨r, hRun, ?_, hTaken.stays hMoves hSettled, hMoves⟩
  cases hTaken with
  | full enough t attempt completes batch rest' =>
    refine ⟨fun _ => ?_, fun hNot => absurd completes hNot⟩
    refine h.deliverBatch hMoves hCall attempt batch rest' ?_ (.inl ?_) hRest
    · rw [← hFifo]
      simp
    · rw [length_append, length_take]
      omega
  | small closed allowed short some t attempt completes batch rest' =>
    refine ⟨fun _ => ?_, fun hNot => absurd completes hNot⟩
    refine h.deliverBatch hMoves hCall attempt batch rest' ?_ (.inr ⟨allowed, closed, rfl, ?_, ?_⟩)
      hRest
    · rw [← hFifo]
      simp
    · exact length_pos_iff.mpr some
    · rw [length_append]
      omega
  | fails closed attempt completes rest' =>
    refine ⟨fun _ => ?_, fun hNot => absurd completes hNot⟩
    have hDone : r.attempt.done = .finished := by
      rw [attempt]
      exact ha.done
    have hStatus : r.attempt.status ≠ .ok := by
      rw [attempt]
      exact nofun
    refine h.deliver hMoves rest' ?_ ⟨?_, fun _ => hDone, ?_, ?_⟩ hRest
    · rw [deliveredBy_finished hDone, ← hFifo]
      simp
    · rw [attempt]
      exact lt_of_getElem?_eq_some hCall
    · exact fun _ hOk => absurd hOk hStatus
    · exact fun _ _ _ hOk => absurd hOk hStatus
  | yields closed pending attempt continues rest' =>
    refine ⟨fun hComplete => ?_, fun _ => ?_⟩
    · cases continues.symm.trans hComplete
    · obtain ⟨rfl, rfl, hStores'⟩ := rest'
      rw [attempt]
      exact h.hold hMoves rfl hStores' hFifo ha hRest
  | waits opened short attempt continues fills rest' =>
    refine ⟨fun hComplete => ?_, fun _ => ?_⟩
    · rw [continues] at hComplete
      split at hComplete <;> cases hComplete
    · have hSame : r.attempt.operation = a.operation ∧ r.attempt.done = a.done ∧
          r.attempt.status = a.status ∧ r.attempt.isCancelled = a.isCancelled ∧
          r.attempt.id = a.id ∧
          r.attempt.elementsRequested = a.elementsRequested - content.length := by
        rw [attempt]
        exact ⟨rfl, rfl, rfl, rfl, rfl, rfl⟩
      obtain ⟨hOp, hDone, hStatus, hActive, hId, hRequested⟩ := hSame
      have hHeld : delivered q ++ (held ++ content) ++ [] = q.accepted.map Prod.snd := by
        rw [← hFifo]
        simp
      refine h.hold hMoves hOp rest' hHeld ⟨?_, ?_, ?_, ?_⟩ hRest
      · rw [hDone, ha.done]
      · rw [hStatus, ha.status]
      · rw [hActive, ha.active]
      · rw [hOp, hOperation, hId]
        refine ⟨fills, n, hCall, ?_⟩
        rw [length_append]
        omega

theorem Ordered.enqueueRun (h : Ordered env (a :: rest) ds q) (hActive : a.isCancelled = false)
    (hRun : runCallback env q a = .ok r) :
    Leaves (Ordered env · ds ·) rest r ∧ Stays a r ∧ Keeps q r.queue := by
  have hCase := (h.enqueues a mem_cons_self).operation
  rw [runCallback] at hRun
  split at hRun
  · rename_i hOperation
    cases hRun
    exact h.runEnqueue hActive hOperation
  · rename_i hOperation
    exact h.runEnqueueMany hActive hOperation hRun
  · cases hRun
    exact h.runClose
  · rename_i hOperation
    rw [hOperation] at hCase
    exact hCase.elim
  · rename_i hOperation
    rw [hOperation] at hCase
    exact hCase.elim

theorem Ordered.dequeueRun (h : Ordered env es (a :: rest) q) (hSettled : Settled q)
    (hRun : runCallback env q a = .ok r) :
    Leaves (Ordered env es · ·) rest r ∧ Stays a r ∧ Moves q r.queue := by
  obtain ⟨held, content, _, _, ha, _⟩ := h.fifo
  have hCase := ha.operation
  rw [runCallback] at hRun
  split at hRun
  · rename_i hOperation
    rw [hOperation] at hCase
    exact hCase.elim
  · rename_i hOperation
    rw [hOperation] at hCase
    exact hCase.elim
  · rename_i hOperation
    rw [hOperation] at hCase
    exact hCase.elim
  · rename_i hOperation
    obtain ⟨r', hRun', hResult⟩ := h.runDequeue hOperation
    cases hRun'.symm.trans hRun
    exact hResult
  · rename_i hOperation
    obtain ⟨r', hRun', hResult⟩ := h.runDequeueMany hOperation hSettled
    cases hRun'.symm.trans hRun
    exact hResult

def Sound (env : Env k) (q : QueueBase k α) : Prop :=
  Ordered env q.enqueueAttempts q.dequeueAttempts q

theorem Sound.tryEnqueues (h : Sound env q) {progress : Bool}
    (hPass : QueueBase.tryEnqueues (runCallback env) q = .ok (progress, q')) :
    (Sound env q' ∧ Settled q') ∧ Decreases q q' progress := by
  rw [QueueBase.tryEnqueues] at hPass
  split at hPass
  · cases hPass
  · rename_i pass hAttempts
    cases hPass
    obtain ⟨⟨hInv, hKept⟩, hStop, hLe, hLt⟩ := tryAttempts_spec
      (fun attempts q' =>
        Ordered env attempts q.dequeueAttempts q' ∧ q'.dequeueAttempts = q.dequeueAttempts)
      (fun q' => q'.closed = false)
      (fun a rest q' _ hInv => ⟨hInv.1.tail, hInv.2⟩)
      (by
        rintro a rest q₁ r ⟨hInv, hKept⟩ hActive hRun
        obtain ⟨hLeaves, hStays, hKeeps⟩ := hInv.enqueueRun hActive hRun
        have hKept' := hKeeps.2.1.trans hKept
        exact ⟨⟨fun hDone => ⟨hLeaves.1 hDone, hKept'⟩, fun hNot => ⟨hLeaves.2 hNot, hKept'⟩⟩,
          hStays⟩)
      ⟨h, rfl⟩ hAttempts
    refine ⟨⟨?_, ?_⟩, ?_, ?_⟩
    · rw [← hKept] at hInv
      exact { hInv with }
    · intro hClosed
      refine hStop.resolve_right fun hOpen => ?_
      exact absurd (hOpen.symm.trans hClosed) false_ne_true
    · rw [work_eq, work_eq]
      simp only [hKept]
      omega
    · intro hProgress
      have hLess := hLt hProgress
      rw [work_eq, work_eq]
      simp only [hKept]
      omega

theorem Sound.tryDequeues (h : Sound env q) (hSettled : Settled q) {progress : Bool}
    (hPass : QueueBase.tryDequeues (runCallback env) q = .ok (progress, q')) :
    Sound env q' ∧ Decreases q q' progress := by
  rw [QueueBase.tryDequeues] at hPass
  split at hPass
  · cases hPass
  · rename_i pass hAttempts
    cases hPass
    obtain ⟨⟨hInv, hKept, _⟩, _, hLe, hLt⟩ := tryAttempts_spec
      (fun attempts q' =>
        Ordered env q.enqueueAttempts attempts q' ∧ q'.enqueueAttempts = q.enqueueAttempts ∧
          Settled q')
      (fun _ => True)
      (by
        rintro a rest q₁ hCancelled ⟨hInv, _⟩
        obtain ⟨held, content, _, _, ha, _⟩ := hInv.fifo
        exact absurd (ha.active.symm.trans hCancelled) false_ne_true)
      (by
        rintro a rest q₁ r ⟨hInv, hKept, hSettled⟩ hActive hRun
        obtain ⟨hLeaves, hStays, ⟨copies, queues, hMoves⟩⟩ := hInv.dequeueRun hSettled hRun
        have hKept' : r.queue.enqueueAttempts = q.enqueueAttempts := by
          rw [hMoves]
          exact hKept
        have hSettled' : Settled r.queue := by
          rw [hMoves]
          exact hSettled
        exact ⟨⟨fun hDone => ⟨hLeaves.1 hDone, hKept', hSettled'⟩,
          fun hNot => ⟨hLeaves.2 hNot, hKept', hSettled'⟩⟩, fun hNot => ⟨trivial, (hStays hNot).2⟩⟩)
      ⟨h, rfl, hSettled⟩ hAttempts
    refine ⟨?_, ?_, ?_⟩
    · rw [← hKept] at hInv
      exact { hInv with }
    · rw [work_eq, work_eq]
      simp only [hKept]
      omega
    · intro hProgress
      have hLess := hLt hProgress
      rw [work_eq, work_eq]
      simp only [hKept]
      omega

theorem Sound.flush (h : Sound env q) :
    (∃ q', flushUnlocked (runCallback env) q = .ok (some q') ∧ Sound env q') ∨
      ∃ fault, flushUnlocked (runCallback env) q = .error fault :=
  flushUnlocked_spec (Sound env) (fun q => Sound env q ∧ Settled q)
    (fun _ _ _ hSound hPass => hSound.tryEnqueues hPass)
    (fun _ _ _ hMid hPass => hMid.1.tryDequeues hMid.2 hPass) h

end TensorFlowOnSpark.Kernels.FifoQueue
