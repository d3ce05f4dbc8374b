import TensorFlowOnSpark.Framework.Status
import Mathlib.Algebra.Group.Int.Defs
import Mathlib.Algebra.GroupWithZero.Nat
import Mathlib.Data.List.FinRange

/-!
# Attempts of a queue

`QueueBase` of `kernels/queue_base.cc`: operations wait as attempts in two deques, and
`FlushUnlocked` runs the front attempts as long as one of them makes progress. Tensors are
values without shapes, so that a batch is always one whose shape `ManyOutShape` can make: the
`CHECK` of `AddDim` on more than `2 ^ 40` elements is left out.
-/

namespace TensorFlowOnSpark.Kernels

open Framework

universe u

-- Ahead of the instance for sums, so that every numeral of `Fin (k + 1)` carries one proof.
attribute [scoped instance (default + 1)] Nat.instNeZeroSucc

/-- One tensor for each of the `k + 1` components. -/
abbrev Tuple (k : Nat) (α : Type u) := Fin (k + 1) → α

abbrev Batch (k : Nat) (α : Type u) := Fin (k + 1) → List α

inductive RunResult where
  | noProgress | progress | complete
deriving DecidableEq, Repr

inductive Fault where
  | sliceIndex | emptyComponent
deriving DecidableEq, Repr

inductive Operation (k : Nat) (α : Type u) where
  | enqueue (tuple : Tuple k α)
  | enqueueMany (tuple : Batch k α)
  | close
  | dequeue
  | dequeueMany (allowSmallBatch : Bool)

/-- What `done_callback` calls back with; `finished` is `callback()` or `callback(Tuple())`. -/
inductive Done (k : Nat) (α : Type u) where
  | finished
  | element (tuple : Tuple k α)
  | batch (tuple : Batch k α)

/-- `QueueBase::Attempt`, with the number of the call that made it. -/
structure Attempt (k : Nat) (α : Type u) where
  id : Nat
  operation : Operation k α
  elementsRequested : Int
  status : Status
  isCancelled : Bool
  tuple : Option (Batch k α)
  done : Done k α

structure Completed (k : Nat) (α : Type u) where
  id : Nat
  status : Status
  done : Done k α
  closed : Bool
  size : Nat

inductive Call (k : Nat) (α : Type u) where
  | tryEnqueue (tuple : Tuple k α)
  | tryEnqueueMany (tuple : Batch k α)
  | tryDequeue
  | tryDequeueMany (numElements : Nat) (allowSmallBatch : Bool)
  | close (cancelPendingEnqueues : Bool)

structure QueueBase (k : Nat) (α : Type u) where
  capacity : Nat
  name : String
  specifiedShapes : Bool
  closed : Bool
  queues : Batch k α
  enqueueAttempts : List (Attempt k α)
  dequeueAttempts : List (Attempt k α)
  copies : Nat
  calls : List (Call k α)
  accepted : List (Nat × Tuple k α)
  completed : List (Completed k α)

variable {k : Nat} {α : Type u}

/-- `OpKernelContext::SetStatus`: the first error stays. -/
def Attempt.setStatus (a : Attempt k α) (status : Status) : Attempt k α :=
  if a.status = .ok then { a with status := status } else a

def Attempt.cancelEnqueue (a : Attempt k α) : Attempt k α :=
  { a with isCancelled := true }.setStatus (Errors.cancelled "Enqueue operation was cancelled")

namespace QueueBase

def size (q : QueueBase k α) : Nat := (q.queues 0).length

def finish (q : QueueBase k α) (a : Attempt k α) : QueueBase k α :=
  { q with completed := q.completed ++ [⟨a.id, a.status, a.done, q.closed, q.size⟩] }

structure Pass (k : Nat) (α : Type u) where
  progress : Bool
  attempts : List (Attempt k α)
  queue : QueueBase k α

structure Run (k : Nat) (α : Type u) where
  result : RunResult
  attempt : Attempt k α
  queue : QueueBase k α

variable (run : QueueBase k α → Attempt k α → Except Fault (Run k α))

/-- The loop of `TryAttemptLocked` over the attempts of one deque. -/
def tryAttempts : List (Attempt k α) → QueueBase k α → Except Fault (Pass k α)
  | [], q => .ok ⟨false, [], q⟩
  | a :: rest, q =>
    if a.isCancelled then tryAttempts rest q
    else
      match run q a with
      | .error fault => .error fault
      | .ok ⟨.noProgress, a', q'⟩ => .ok ⟨false, a' :: rest, q'⟩
      | .ok ⟨.progress, a', q'⟩ => .ok ⟨true, a' :: rest, q'⟩
      | .ok ⟨.complete, a', q'⟩ =>
        match tryAttempts rest (q'.finish a') with
        | .error fault => .error fault
        | .ok pass => .ok { pass with progress := true }

def tryEnqueues (q : QueueBase k α) : Except Fault (Bool × QueueBase k α) :=
  match tryAttempts run q.enqueueAttempts q with
  | .error fault => .error fault
  | .ok pass => .ok (pass.progress, { pass.queue with enqueueAttempts := pass.attempts })

def tryDequeues (q : QueueBase k α) : Except Fault (Bool × QueueBase k α) :=
  match tryAttempts run q.dequeueAttempts q with
  | .error fault => .error fault
  | .ok pass => .ok (pass.progress, { pass.queue with dequeueAttempts := pass.attempts })

/-- The loop of `FlushUnlocked`; `none` when the given number of turns does not suffice. -/
def flushLoop : Nat → QueueBase k α → Except Fault (Option (QueueBase k α))
  | 0, _ => .ok none
  | turns + 1, q =>
    match tryEnqueues run q with
    | .error fault => .error fault
    | .ok (changed, q') =>
      match tryDequeues run q' with
      | .error fault => .error fault
      | .ok (changed', q'') =>
        if changed' || changed then flushLoop turns q'' else .ok (some q'')

def work (q : QueueBase k α) : Nat :=
  ((q.enqueueAttempts ++ q.dequeueAttempts).map fun a => a.elementsRequested.toNat + 1).sum

def flushUnlocked (q : QueueBase k α) : Except Fault (Option (QueueBase k α)) :=
  flushLoop run (q.work + 1) q

/-- The run callback of `Close` without `cancel_pending_enqueues`. -/
def runClose (q : QueueBase k α) (a : Attempt k α) : Run k α :=
  if q.closed then
    let message := "Queue '" ++ q.name ++ "' is already closed."
    ⟨.complete, a.setStatus (Errors.cancelled message), q⟩
  else ⟨.complete, a, { q with closed := true }⟩

/-- `CloseAndCancel` up to its flush. -/
def closeAndCancel (q : QueueBase k α) : QueueBase k α :=
  let pending := (q.enqueueAttempts.filter fun a => !a.isCancelled).map Attempt.cancelEnqueue
  { q with
    closed := true
    enqueueAttempts := q.enqueueAttempts.map fun a =>
      if a.isCancelled then a else a.cancelEnqueue
    completed := q.completed ++ pending.map fun a => ⟨a.id, a.status, a.done, true, q.size⟩ }

end QueueBase

end TensorFlowOnSpark.Kernels

namespace TensorFlowOnSpark.Kernels.QueueBase

universe u

variable {k : Nat} {α : Type u} {run : QueueBase k α → Attempt k α → Except Fault (Run k α)}
  {q : QueueBase k α}

def workOf (attempts : List (Attempt k α)) : Nat :=
  (attempts.map fun a => a.elementsRequested.toNat + 1).sum

theorem workOf_cons (a : Attempt k α) (rest : List (Attempt k α)) :
    workOf (a :: rest) = a.elementsRequested.toNat + 1 + workOf rest := by
  simp [workOf]

theorem work_eq (q : QueueBase k α) :
    q.work = workOf q.enqueueAttempts + workOf q.dequeueAttempts := by
  rw [work, List.map_append, List.sum_append]
  rfl

def Leaves (Inv : List (Attempt k α) → QueueBase k α → Prop) (rest : List (Attempt k α))
    (r : Run k α) : Prop :=
  (r.result = .complete → Inv rest (r.queue.finish r.attempt)) ∧
    (r.result ≠ .complete → Inv (r.attempt :: rest) r.queue)

def Advances (a : Attempt k α) (r : Run k α) : Prop :=
  r.attempt.elementsRequested.toNat ≤ a.elementsRequested.toNat ∧
    (r.result = .progress → r.attempt.elementsRequested.toNat < a.elementsRequested.toNat)

theorem tryAttempts_spec (Inv : List (Attempt k α) → QueueBase k α → Prop)
    (Stuck : QueueBase k α → Prop)
    (hSkip : ∀ a rest q, a.isCancelled → Inv (a :: rest) q → Inv rest q)
    (hRun : ∀ a rest q r, Inv (a :: rest) q → a.isCancelled = false → run q a = .ok r →
      Leaves Inv rest r ∧ (r.result ≠ .complete → Stuck r.queue ∧ Advances a r))
    {attempts : List (Attempt k α)} (h : Inv attempts q) {pass : Pass k α}
    (hPass : tryAttempts run attempts q = .ok pass) :
    Inv pass.attempts pass.queue ∧ (pass.attempts = [] ∨ Stuck pass.queue) ∧
      workOf pass.attempts ≤ workOf attempts ∧
      (pass.progress → workOf pass.attempts < workOf attempts) := by
  induction attempts generalizing q pass with
  | nil =>
    cases hPass
    exact ⟨h, .inl rfl, Nat.le_refl _, nofun⟩
  | cons a rest ih =>
    rw [workOf_cons]
    rw [tryAttempts] at hPass
    split at hPass
    · rename_i hCancelled
      obtain ⟨hInv, hStop, hLe, hLt⟩ := ih (hSkip a rest q hCancelled h) hPass
      exact ⟨hInv, hStop, by omega, fun hProgress => by have := hLt hProgress; omega⟩
    · rename_i hActive
      rw [Bool.not_eq_true] at hActive
      split at hPass
      · cases hPass
      · rename_i a' q' hEq
        cases hPass
        obtain ⟨hLeaves, hStays⟩ := hRun a rest q _ h hActive hEq
        obtain ⟨hStuck, hLe, _⟩ := hStays nofun
        simp only at hLe
        refine ⟨hLeaves.2 nofun, .inr hStuck, ?_, nofun⟩
        rw [workOf_cons]
        omega
      · rename_i a' q' hEq
        cases hPass
        obtain ⟨hLeaves, hStays⟩ := hRun a rest q _ h hActive hEq
        obtain ⟨hStuck, _, hLt⟩ := hStays nofun
        have hLess := hLt rfl
        simp only at hLess
        refine ⟨hLeaves.2 nofun, .inr hStuck, ?_, fun _ => ?_⟩
        · rw [workOf_cons]
          omega
        · rw [workOf_cons]
          omega
      · rename_i a' q' hEq
        split at hPass
        · cases hPass
        · rename_i pass' hRest
          cases hPass
          obtain ⟨hLeaves, _⟩ := hRun a rest q _ h hActive hEq
          obtain ⟨hInv, hStop, hLe, _⟩ := ih (hLeaves.1 rfl) hRest
          refine ⟨hInv, hStop, Nat.le_trans hLe (by omega), fun _ => ?_⟩
          exact Nat.lt_of_le_of_lt hLe (by omega)

def Decreases (before after : QueueBase k α) (progress : Bool) : Prop :=
  after.work ≤ before.work ∧ (progress → after.work < before.work)

theorem flushLoop_rule {Inv Mid Done : QueueBase k α → Prop} {cost : QueueBase k α → Nat}
    (hEnqueues : ∀ q progress q', Inv q → tryEnqueues run q = .ok (progress, q') →
      Mid q' ∧ cost q' ≤ cost q ∧ (progress → cost q' < cost q))
    (hDequeues : ∀ q progress q', Mid q → tryDequeues run q = .ok (progress, q') →
      Inv q' ∧ cost q' ≤ cost q ∧ (progress → cost q' < cost q))
    (hDone : ∀ q q' q'', Inv q → tryEnqueues run q = .ok (false, q') → Mid q' →
      tryDequeues run q' = .ok (false, q'') → Done q'')
    {turns : Nat} (h : Inv q) (hTurns : cost q < turns) :
    (∃ q', flushLoop run turns q = .ok (some q') ∧ Inv q' ∧ Done q') ∨
      ∃ fault, flushLoop run turns q = .error fault := by
  induction turns generalizing q with
  | zero => exact absurd hTurns (Nat.not_lt_zero _)
  | succ turns ih =>
    rw [flushLoop]
    split
    · exact .inr ⟨_, rfl⟩
    · rename_i changed q₁ hFirst
      obtain ⟨hMid, hLe, hLt⟩ := hEnqueues q changed q₁ h hFirst
      split
      · exact .inr ⟨_, rfl⟩
      · rename_i changed' q₂ hSecond
        obtain ⟨hInv, hLe', hLt'⟩ := hDequeues q₁ changed' q₂ hMid hSecond
        split
        · rename_i hChanged
          apply ih hInv
          rcases Bool.or_eq_true_iff.mp hChanged with hChanged' | hChanged'
          · have hLess := hLt' hChanged'
            omega
          · have hLess := hLt hChanged'
            omega
        · rename_i hSame
          rw [Bool.not_eq_true, Bool.or_eq_false_iff] at hSame
          obtain ⟨rfl, rfl⟩ := hSame
          exact .inl ⟨q₂, rfl, hInv, hDone q q₁ q₂ h hFirst hMid hSecond⟩

theorem flushUnlocked_spec (Inv Mid : QueueBase k α → Prop)
    (hEnqueues : ∀ q progress q', Inv q → tryEnqueues run q = .ok (progress, q') →
      Mid q' ∧ Decreases q q' progress)
    (hDequeues : ∀ q progress q', Mid q → tryDequeues run q = .ok (progress, q') →
      Inv q' ∧ Decreases q q' progress)
    (h : Inv q) :
    (∃ q', flushUnlocked run q = .ok (some q') ∧ Inv q') ∨
      ∃ fault, flushUnlocked run q = .error fault := by
  rw [flushUnlocked]
  simpa only [and_true] using flushLoop_rule hEnqueues hDequeues
    (fun _ _ _ _ _ _ _ => trivial) h (Nat.lt_succ_self q.work)

end TensorFlowOnSpark.Kernels.QueueBase
