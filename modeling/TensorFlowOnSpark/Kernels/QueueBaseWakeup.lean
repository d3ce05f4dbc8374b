import TensorFlowOnSpark.Kernels.QueueBase

/-!
# What is left after a flush

The rule of `tryAttempts` for a cost of any kind, and what a flush does to a queue whose
runs behave well: a flush ends, it calls no callback twice, and an attempt that it
leaves at the front has a reason to wait.
-/

namespace TensorFlowOnSpark.Kernels.QueueBase

open List Bool

universe u

variable {k : Nat} {α : Type u} {run : QueueBase k α → Attempt k α → Except Fault (Run k α)}
  {q : QueueBase k α}

structure Passes (Inv : List (Attempt k α) → QueueBase k α → Prop)
    (Idle : QueueBase k α → Attempt k α → Prop)
    (Stop : QueueBase k α → Prop) (cost : List (Attempt k α) → QueueBase k α → Nat)
    (a : Attempt k α) (rest : List (Attempt k α))
    (q : QueueBase k α) (r : Run k α) : Prop where
  complete : r.result = .complete →
    Inv rest (r.queue.finish r.attempt) ∧ cost rest (r.queue.finish r.attempt) < cost (a :: rest) q
  progress : r.result = .progress →
    Inv (r.attempt :: rest) r.queue ∧ Stop r.queue ∧
      cost (r.attempt :: rest) r.queue < cost (a :: rest) q
  idle : r.result = .noProgress → r.queue = q ∧ r.attempt = a ∧ Stop q ∧ Idle q a

variable {Inv : List (Attempt k α) → QueueBase k α → Prop}
variable {attempts : List (Attempt k α)}

theorem tryAttempts_rule {Idle : QueueBase k α → Attempt k α → Prop} {Stop : QueueBase k α → Prop}
    {cost : List (Attempt k α) → QueueBase k α → Nat}
    (hSkip : ∀ a rest q, a.isCancelled → Inv (a :: rest) q →
      Inv rest q ∧ cost rest q ≤ cost (a :: rest) q)
    (hRun : ∀ a rest q r, Inv (a :: rest) q → a.isCancelled = false → run q a = .ok r →
      Passes Inv Idle Stop cost a rest q r) (h : Inv attempts q) {pass : Pass k α}
    (hPass : tryAttempts run attempts q = .ok pass) :
    Inv pass.attempts pass.queue ∧ (pass.attempts = [] ∨ Stop pass.queue) ∧
      cost pass.attempts pass.queue ≤ cost attempts q ∧
      (pass.progress → cost pass.attempts pass.queue < cost attempts q) ∧
      (pass.progress = false → pass.queue = q ∧
        (pass.attempts = [] ∨ ∃ a rest, pass.attempts = a :: rest ∧ Idle q a)) := by
  induction attempts generalizing q pass with
  | nil =>
    cases hPass
    exact ⟨h, .inl rfl, Nat.le_refl _, by simp, fun _ => ⟨rfl, .inl rfl⟩⟩
  | cons a rest ih =>
    rw [tryAttempts] at hPass
    split at hPass
    · rename_i hCancelled
      obtain ⟨hInv, hCost⟩ := hSkip a rest q hCancelled h
      obtain ⟨hInv', hStop, hLe, hLt, hIdle⟩ := ih hInv hPass
      exact ⟨hInv', hStop, hLe.trans hCost, fun hProgress => (hLt hProgress).trans_le hCost, hIdle⟩
    · rename_i hActive
      rw [not_eq_true] at hActive
      split at hPass
      · cases hPass
      · rename_i a' q' hEq
        cases hPass
        obtain ⟨rfl, rfl, hStop, hIdle⟩ := (hRun a rest q _ h hActive hEq).idle rfl
        exact ⟨h, .inr hStop, Nat.le_refl _, by simp, fun _ => ⟨rfl, .inr ⟨_, _, rfl, hIdle⟩⟩⟩
      · rename_i a' q' hEq
        cases hPass
        obtain ⟨hInv, hStop, hLt⟩ := (hRun a rest q _ h hActive hEq).progress rfl
        exact ⟨hInv, .inr hStop, hLt.le, fun _ => hLt, by simp⟩
      · rename_i a' q' hEq
        split at hPass
        · cases hPass
        · rename_i pass' hRest
          cases hPass
          obtain ⟨hInv, hLt⟩ := (hRun a rest q _ h hActive hEq).complete rfl
          obtain ⟨hInv', hStop, hLe, -, -⟩ := ih hInv hRest
          exact ⟨hInv', hStop, hLe.trans hLt.le, fun _ => hLe.trans_lt hLt, by simp⟩

theorem tryAttempts_defined (hSkip : ∀ a rest q, a.isCancelled → Inv (a :: rest) q → Inv rest q)
    (hRun : ∀ a rest q, Inv (a :: rest) q → a.isCancelled = false →
      ∃ r, run q a = .ok r ∧ (r.result = .complete → Inv rest (r.queue.finish r.attempt)))
    (h : Inv attempts q) :
    ∃ pass, tryAttempts run attempts q = .ok pass := by
  induction attempts generalizing q with
  | nil => exact ⟨_, rfl⟩
  | cons a rest ih =>
    rw [tryAttempts]
    split
    · rename_i hCancelled
      exact ih (hSkip a rest q hCancelled h)
    · rename_i hActive
      rw [not_eq_true] at hActive
      obtain ⟨⟨result, a', q'⟩, hEq, hCompletes⟩ := hRun a rest q h hActive
      rw [hEq]
      cases result with
      | noProgress => exact ⟨_, rfl⟩
      | progress => exact ⟨_, rfl⟩
      | complete =>
        obtain ⟨pass, hPass⟩ := ih (hCompletes rfl)
        refine ⟨{ pass with progress := true }, ?_⟩
        simp only [hPass]

theorem flushLoop_defined {Inv Mid : QueueBase k α → Prop}
    (hEnqueues : ∀ q, Inv q → ∃ progress q', tryEnqueues run q = .ok (progress, q') ∧ Mid q')
    (hDequeues : ∀ q, Mid q → ∃ progress q', tryDequeues run q = .ok (progress, q') ∧ Inv q')
    (turns : Nat) (h : Inv q) (fault : Fault) : flushLoop run turns q ≠ .error fault := by
  induction turns generalizing q with
  | zero => rintro ⟨⟩
  | succ turns ih =>
    obtain ⟨changed, q₁, hFirst, hMid⟩ := hEnqueues q h
    obtain ⟨changed', q₂, hSecond, hInv⟩ := hDequeues q₁ hMid
    simp only [flushLoop, hFirst, hSecond]
    split
    · exact ih hInv
    · simp

def room (q : QueueBase k α) : Nat := q.capacity - q.size

/-- Every run that makes progress lowers it: an element that is enqueued takes room, and one
that is dequeued gives less room than it lowers the request. -/
def effort (q : QueueBase k α) : Nat :=
  q.enqueueAttempts.length + 2 * workOf q.dequeueAttempts + q.room

end TensorFlowOnSpark.Kernels.QueueBase

namespace TensorFlowOnSpark.Kernels

universe u

variable {k : Nat} {α : Type u}

theorem setStatus_eq (a : Attempt k α) (status : Framework.Status) :
    ∃ status', a.setStatus status = { a with status := status' } := by
  rw [Attempt.setStatus]
  split
  · exact ⟨status, rfl⟩
  · exact ⟨a.status, rfl⟩

def Operation.isDequeue : Operation k α → Bool
  | .dequeue => true
  | .dequeueMany _ => true
  | _ => false

namespace QueueBase

def Open (q : QueueBase k α) : Prop := q.closed → q.enqueueAttempts = []

structure Frame (q : QueueBase k α) (a : Attempt k α) (r : Run k α) : Prop where
  id : r.attempt.id = a.id
  operation : r.attempt.operation = a.operation
  isCancelled : r.attempt.isCancelled = a.isCancelled
  enqueueAttempts : r.queue.enqueueAttempts = q.enqueueAttempts
  dequeueAttempts : r.queue.dequeueAttempts = q.dequeueAttempts
  completed : r.queue.completed = q.completed
  calls : r.queue.calls = q.calls
  capacity : r.queue.capacity = q.capacity

structure EnqueueRun (q : QueueBase k α) (a : Attempt k α) (r : Run k α) : Prop where
  frame : Frame q a r
  closed : q.closed → r.queue.closed
  closes : r.queue.closed → q.closed ∨ a.operation = .close
  opened : r.result ≠ .complete → r.queue.closed = false
  idle : r.result = .noProgress → r.queue = q ∧ r.attempt = a ∧ q.capacity ≤ q.size
  room : r.queue.room ≤ q.room
  progress : r.result = .progress → r.queue.room < q.room

structure DequeueRun (Waits : Nat → Attempt k α → Prop) (q : QueueBase k α) (a : Attempt k α)
    (r : Run k α) : Prop where
  frame : Frame q a r
  closed : r.queue.closed = q.closed
  wants : r.result ≠ .complete → 0 < r.attempt.elementsRequested
  idle : r.result = .noProgress →
    r.queue = q ∧ r.attempt = a ∧ q.closed = false ∧ Waits q.size a
  room : r.queue.room ≤ q.room + a.elementsRequested.toNat
  progress : r.result = .progress →
    r.queue.room + r.attempt.elementsRequested.toNat ≤ q.room + a.elementsRequested.toNat ∧
      r.attempt.elementsRequested.toNat < a.elementsRequested.toNat

structure BehavesWell (Waits : Nat → Attempt k α → Prop)
    (run : QueueBase k α → Attempt k α → Except Fault (Run k α)) : Prop where
  enqueue : ∀ q a r, a.operation.isDequeue = false → run q a = .ok r → EnqueueRun q a r
  dequeue : ∀ q a r, a.operation.isDequeue → 0 < a.elementsRequested → Open q →
    run q a = .ok r → DequeueRun Waits q a r
  close : ∀ q a r, a.operation = .close → run q a = .ok r →
    r.result = .complete ∧ r.queue.closed

def Level (q : QueueBase k α) : Prop := ∀ i, (q.queues i).length = q.size

/-- An `EnqueueMany` whose batch has as many slices of each component, and still so many to give. -/
def Ready : Operation k α → Int → Prop
  | .enqueueMany t, elementsRequested => (∀ i, (t i).length = (t 0).length) ∧
      (t 0).length < 2 ^ 31 ∧ 0 < elementsRequested ∧ elementsRequested ≤ (t 0).length
  | _, _ => True

def StaysDefined (Fit : Operation k α → Int → Prop)
    (run : QueueBase k α → Attempt k α → Except Fault (Run k α)) : Prop :=
  ∀ q a, Level q → Fit a.operation a.elementsRequested →
    ∃ r, run q a = .ok r ∧ Level r.queue ∧
      (r.result ≠ .complete → Fit a.operation r.attempt.elementsRequested)

def waiting (attempts : List (Attempt k α)) : List Nat :=
  (attempts.filter fun a => !a.isCancelled).map fun a => a.id

/-- Every call has either been answered once or waits. `Regular` is what excludes undefined
accesses of the attempts that are `Fit`. -/
structure Kept (Regular : Prop) (Fit : Operation k α → Int → Prop) (es ds : List (Attempt k α))
    (q : QueueBase k α) : Prop where
  enqueues : ∀ a ∈ es, a.operation.isDequeue = false
  dequeues : ∀ a ∈ ds, a.operation.isDequeue ∧ 0 < a.elementsRequested
  answers : ((q.completed.map fun c => c.id) ++ (waiting es ++ waiting ds)).Perm
    (List.range q.calls.length)
  level : Regular → Level q
  ready : Regular → ∀ a ∈ es ++ ds, Fit a.operation a.elementsRequested

/-- The queue is closed, or a `Close` waits for its turn. -/
def Closing (es : List (Attempt k α)) (q : QueueBase k α) : Prop :=
  q.closed ∨ ∃ a ∈ es, a.operation = .close ∧ a.isCancelled = false

structure Settled (Waits : Nat → Attempt k α → Prop) (q : QueueBase k α) : Prop where
  enqueue : ∀ a rest, q.enqueueAttempts = a :: rest →
    q.closed = false ∧ q.capacity ≤ q.size ∧ a.operation ≠ .close
  dequeue : ∀ a rest, q.dequeueAttempts = a :: rest → q.closed = false ∧ Waits q.size a

section Passes

variable {Regular : Prop} {Fit : Operation k α → Int → Prop} {a : Attempt k α}
    {es ds : List (Attempt k α)}
  {run : QueueBase k α → Attempt k α → Except Fault (Run k α)} {q : QueueBase k α} {r : Run k α}

theorem waiting_cancelled (es : List (Attempt k α)) (h : a.isCancelled) :
    waiting (a :: es) = waiting es := by
  simp [waiting, h]

theorem waiting_active (es : List (Attempt k α)) (h : a.isCancelled = false) :
    waiting (a :: es) = a.id :: waiting es := by
  simp [waiting, h]

theorem StaysDefined.level (h : StaysDefined Fit run) (hRun : run q a = .ok r) (hLevel : Level q)
    (hReady : Fit a.operation a.elementsRequested) : Level r.queue ∧
      (r.result ≠ .complete → Fit a.operation r.attempt.elementsRequested) := by
  obtain ⟨r', hEq, hLevel', hReady'⟩ := h q a hLevel hReady
  rw [hRun] at hEq
  cases hEq
  exact ⟨hLevel', hReady'⟩

theorem answers_finish (before : List Nat) {after : List Nat} (hFrame : Frame q a r)
    {calls : List Nat}
    (h : ((q.completed.map fun c => c.id) ++ (before ++ a.id :: after)).Perm calls) :
    (((r.queue.finish r.attempt).completed.map fun c => c.id) ++ (before ++ after)).Perm calls := by
  rw [finish, hFrame.completed, List.map_append, List.append_assoc]
  refine List.Perm.trans (List.Perm.append_left _ ?_) h
  simp only [List.map_cons, List.map_nil, List.singleton_append, hFrame.id]
  exact List.perm_middle.symm

theorem Kept.skipEnqueue (h : Kept Regular Fit (a :: es) ds q) (hCancelled : a.isCancelled) :
    Kept Regular Fit es ds q where
  enqueues b hb := h.enqueues b (List.mem_cons_of_mem _ hb)
  dequeues := h.dequeues
  answers := by
    rw [← waiting_cancelled es hCancelled]
    exact h.answers
  level := h.level
  ready hRegular b hb := h.ready hRegular b (List.mem_cons_of_mem _ hb)

theorem Kept.skipDequeue (h : Kept Regular Fit es (a :: ds) q) (hCancelled : a.isCancelled) :
    Kept Regular Fit es ds q where
  enqueues := h.enqueues
  dequeues b hb := h.dequeues b (List.mem_cons_of_mem _ hb)
  answers := by
    rw [← waiting_cancelled ds hCancelled]
    exact h.answers
  level := h.level
  ready hRegular b hb := h.ready hRegular b (by
    simp only [List.mem_append, List.mem_cons] at hb ⊢
    exact hb.imp_right .inr)

theorem Kept.enqueueCompletes (h : Kept Regular Fit (a :: es) ds q)
    (hActive : a.isCancelled = false)
    (hFrame : Frame q a r) (hLevel : Regular → Level r.queue) :
    Kept Regular Fit es ds (r.queue.finish r.attempt) where
  enqueues b hb := h.enqueues b (List.mem_cons_of_mem _ hb)
  dequeues := h.dequeues
  answers := by
    have hAnswers := h.answers
    rw [waiting_active _ hActive] at hAnswers
    have hCalls : (r.queue.finish r.attempt).calls = q.calls := hFrame.calls
    rw [hCalls]
    exact answers_finish [] hFrame hAnswers
  level := hLevel
  ready hRegular b hb := h.ready hRegular b (List.mem_cons_of_mem _ hb)

theorem Kept.dequeueCompletes (h : Kept Regular Fit es (a :: ds) q)
    (hActive : a.isCancelled = false)
    (hFrame : Frame q a r) (hLevel : Regular → Level r.queue) :
    Kept Regular Fit es ds (r.queue.finish r.attempt) where
  enqueues := h.enqueues
  dequeues b hb := h.dequeues b (List.mem_cons_of_mem _ hb)
  answers := by
    have hAnswers := h.answers
    rw [waiting_active _ hActive] at hAnswers
    have hCalls : (r.queue.finish r.attempt).calls = q.calls := hFrame.calls
    rw [hCalls]
    exact answers_finish _ hFrame hAnswers
  level := hLevel
  ready hRegular b hb := h.ready hRegular b (by
    simp only [List.mem_append, List.mem_cons] at hb ⊢
    exact hb.imp_right .inr)

theorem Frame.waiting (hFrame : Frame q a r) : waiting (r.attempt :: es) = waiting (a :: es) := by
  simp only [QueueBase.waiting, List.filter_cons, hFrame.isCancelled]
  split
  · rw [List.map_cons, List.map_cons, hFrame.id]
  · rfl

theorem Kept.enqueueStays (h : Kept Regular Fit (a :: es) ds q) (hFrame : Frame q a r)
    (hLevel : Regular → Level r.queue ∧ Fit a.operation r.attempt.elementsRequested) :
    Kept Regular Fit (r.attempt :: es) ds r.queue where
  enqueues := by
    simp only [List.forall_mem_cons]
    refine ⟨?_, fun b hb => h.enqueues b (List.mem_cons_of_mem _ hb)⟩
    rw [hFrame.operation]
    exact h.enqueues a (List.mem_cons_self ..)
  dequeues := h.dequeues
  answers := by
    rw [hFrame.waiting, hFrame.completed, hFrame.calls]
    exact h.answers
  level hRegular := (hLevel hRegular).1
  ready hRegular := by
    have hReady := h.ready hRegular
    simp only [List.cons_append, List.forall_mem_cons] at hReady ⊢
    rw [hFrame.operation]
    exact ⟨(hLevel hRegular).2, hReady.2⟩

theorem Kept.dequeueStays (h : Kept Regular Fit es (a :: ds) q) (hFrame : Frame q a r)
    (hWants : 0 < r.attempt.elementsRequested)
    (hLevel : Regular → Level r.queue ∧ Fit a.operation r.attempt.elementsRequested) :
    Kept Regular Fit es (r.attempt :: ds) r.queue where
  enqueues := h.enqueues
  dequeues := by
    simp only [List.forall_mem_cons]
    refine ⟨⟨?_, hWants⟩, fun b hb => h.dequeues b (List.mem_cons_of_mem _ hb)⟩
    rw [hFrame.operation]
    exact (h.dequeues a (List.mem_cons_self ..)).1
  answers := by
    rw [hFrame.waiting, hFrame.completed, hFrame.calls]
    exact h.answers
  level hRegular := (hLevel hRegular).1
  ready hRegular b hb := by
    simp only [List.mem_append, List.mem_cons] at hb
    rcases hb with hb | rfl | hb
    · exact h.ready hRegular b (List.mem_append_left _ hb)
    · rw [hFrame.operation]
      exact (hLevel hRegular).2
    · exact h.ready hRegular b (List.mem_append_right _ (List.mem_cons_of_mem _ hb))

end Passes

end QueueBase

end TensorFlowOnSpark.Kernels
