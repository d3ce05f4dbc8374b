import TensorFlowOnSpark.Kernels.QueueBase

/-!
# What every run of a flush does

A flush runs attempts one after the other.
-/

namespace TensorFlowOnSpark.Kernels.QueueBase

universe u

variable {k : Nat} {α : Type u} (run : QueueBase k α → Attempt k α → Except Fault (Run k α))
  (P : QueueBase k α → Attempt k α → Run k α → Prop)

def PassVisits : List (Attempt k α) → QueueBase k α → Prop
  | [], _ => True
  | a :: rest, q =>
    if a.isCancelled then PassVisits rest q
    else
      match run q a with
      | .error _ => True
      | .ok r => P q a r ∧ (r.result = .complete → PassVisits rest (r.queue.finish r.attempt))

/-- Every run of so many turns of a flush has the property. -/
def FlushVisits : Nat → QueueBase k α → Prop
  | 0, _ => True
  | turns + 1, q =>
    PassVisits run P q.enqueueAttempts q ∧
      match tryEnqueues run q with
      | .error _ => True
      | .ok (changed, q') =>
        PassVisits run P q'.dequeueAttempts q' ∧
          match tryDequeues run q' with
          | .error _ => True
          | .ok (changed', q'') => changed' || changed → FlushVisits turns q''

variable {run P} {q : QueueBase k α}
variable {attempts : List (Attempt k α)}

theorem tryAttempts_keeps {Inv : List (Attempt k α) → QueueBase k α → Prop}
    (hSkip : ∀ a rest q, a.isCancelled → Inv (a :: rest) q → Inv rest q)
    (hRun : ∀ a rest q r, Inv (a :: rest) q → a.isCancelled = false → run q a = .ok r →
      Leaves Inv rest r ∧ P q a r) (h : Inv attempts q) :
    PassVisits run P attempts q ∧
      ∀ pass, tryAttempts run attempts q = .ok pass → Inv pass.attempts pass.queue := by
  induction attempts generalizing q with
  | nil =>
    refine ⟨trivial, ?_⟩
    rintro _ hPass
    cases hPass
    exact h
  | cons a rest ih =>
    rw [PassVisits, tryAttempts]
    split
    · rename_i hCancelled
      exact ih (hSkip a rest q hCancelled h)
    · rename_i hActive
      rw [Bool.not_eq_true] at hActive
      rcases hEq : run q a with fault | r
      · exact ⟨trivial, by simp⟩
      · obtain ⟨⟨hComplete, hStays⟩, hHolds⟩ := hRun a rest q r h hActive hEq
        obtain ⟨result, a', q'⟩ := r
        cases result with
        | noProgress =>
          refine ⟨⟨hHolds, by simp⟩, ?_⟩
          rintro _ hPass
          cases hPass
          exact hStays (by simp)
        | progress =>
          refine ⟨⟨hHolds, by simp⟩, ?_⟩
          rintro _ hPass
          cases hPass
          exact hStays (by simp)
        | complete =>
          obtain ⟨hVisits, hKeeps⟩ := ih (hComplete rfl)
          refine ⟨⟨hHolds, fun _ => hVisits⟩, ?_⟩
          intro pass hPass
          simp only at hPass
          split at hPass
          · cases hPass
          · rename_i pass' hRest
            cases hPass
            exact hKeeps pass' hRest

theorem flushLoop_keeps {Inv : QueueBase k α → Prop}
    (hEnqueues : ∀ q, Inv q → PassVisits run P q.enqueueAttempts q ∧
      ∀ progress q', tryEnqueues run q = .ok (progress, q') → Inv q')
    (hDequeues : ∀ q, Inv q → PassVisits run P q.dequeueAttempts q ∧
      ∀ progress q', tryDequeues run q = .ok (progress, q') → Inv q')
    (turns : Nat) (h : Inv q) :
    FlushVisits run P turns q ∧ ∀ q', flushLoop run turns q = .ok (some q') → Inv q' := by
  induction turns generalizing q with
  | zero => exact ⟨trivial, by rintro _ ⟨⟩⟩
  | succ turns ih =>
    obtain ⟨hVisits, hFirst⟩ := hEnqueues q h
    rw [FlushVisits, flushLoop]
    rcases hEq : tryEnqueues run q with fault | ⟨changed, q₁⟩
    · exact ⟨⟨hVisits, trivial⟩, by simp⟩
    · have hInv₁ := hFirst changed q₁ hEq
      obtain ⟨hVisits₁, hSecond⟩ := hDequeues q₁ hInv₁
      simp only
      rcases hEq' : tryDequeues run q₁ with fault | ⟨changed', q₂⟩
      · exact ⟨⟨hVisits, hVisits₁, trivial⟩, by simp⟩
      · have hInv₂ := hSecond changed' q₂ hEq'
        obtain ⟨hVisits₂, hRest⟩ := ih hInv₂
        refine ⟨⟨hVisits, hVisits₁, fun _ => hVisits₂⟩, ?_⟩
        intro q' hFlush
        simp only at hFlush
        split at hFlush
        · exact hRest q' hFlush
        · cases hFlush
          exact hInv₂

/-- An invariant of the attempts to enqueue, of those to dequeue and of the queue: what a run
keeps of it when its attempt is the front one of its deque. -/
structure Follows (run : QueueBase k α → Attempt k α → Except Fault (Run k α))
    (P : QueueBase k α → Attempt k α → Run k α → Prop)
    (Inv : List (Attempt k α) → List (Attempt k α) → QueueBase k α → Prop) : Prop where
  deques : ∀ es ds q es' ds', Inv es ds q →
    Inv es ds { q with enqueueAttempts := es', dequeueAttempts := ds' }
  skipEnqueue : ∀ a es ds q, a.isCancelled → Inv (a :: es) ds q → Inv es ds q
  skipDequeue : ∀ a es ds q, a.isCancelled → Inv es (a :: ds) q → Inv es ds q
  enqueue : ∀ a es ds q r, Inv (a :: es) ds q → a.isCancelled = false → run q a = .ok r →
    Leaves (Inv · ds ·) es r ∧ r.queue.dequeueAttempts = q.dequeueAttempts ∧ P q a r
  dequeue : ∀ a es ds q r, Inv es (a :: ds) q → a.isCancelled = false → run q a = .ok r →
    Leaves (Inv es · ·) ds r ∧ r.queue.enqueueAttempts = q.enqueueAttempts ∧ P q a r

namespace Follows

variable {Inv : List (Attempt k α) → List (Attempt k α) → QueueBase k α → Prop}

def Enqueuing (Inv : List (Attempt k α) → List (Attempt k α) → QueueBase k α → Prop)
    (ds es : List (Attempt k α)) (q : QueueBase k α) : Prop :=
  Inv es ds q ∧ q.dequeueAttempts = ds

def Dequeuing (Inv : List (Attempt k α) → List (Attempt k α) → QueueBase k α → Prop)
    (es ds : List (Attempt k α)) (q : QueueBase k α) : Prop :=
  Inv es ds q ∧ q.enqueueAttempts = es

theorem tryEnqueues (h : Follows run P Inv) (hInv : Inv q.enqueueAttempts q.dequeueAttempts q) :
    PassVisits run P q.enqueueAttempts q ∧ ∀ progress q',
      QueueBase.tryEnqueues run q = .ok (progress, q') →
        Inv q'.enqueueAttempts q'.dequeueAttempts q' := by
  have hSkip : ∀ a es q', a.isCancelled → Enqueuing Inv q.dequeueAttempts (a :: es) q' →
      Enqueuing Inv q.dequeueAttempts es q' :=
    fun a es q' hCancelled hInv' => ⟨h.skipEnqueue a es _ q' hCancelled hInv'.1, hInv'.2⟩
  have hRun : ∀ a es q' r, Enqueuing Inv q.dequeueAttempts (a :: es) q' →
      a.isCancelled = false → run q' a = .ok r →
        Leaves (Enqueuing Inv q.dequeueAttempts) es r ∧ P q' a r := by
    rintro a es q' r ⟨hInv', hSame⟩ hActive hRun
    obtain ⟨⟨hComplete, hStays⟩, hKeeps, hHolds⟩ := h.enqueue a es _ q' r hInv' hActive hRun
    exact ⟨⟨fun hDone => ⟨hComplete hDone, hKeeps.trans hSame⟩,
      fun hNot => ⟨hStays hNot, hKeeps.trans hSame⟩⟩, hHolds⟩
  have hStart : Enqueuing Inv q.dequeueAttempts q.enqueueAttempts q := ⟨hInv, rfl⟩
  obtain ⟨hVisits, hKeeps⟩ := tryAttempts_keeps hSkip hRun hStart
  refine ⟨hVisits, fun progress q' hPass => ?_⟩
  rw [QueueBase.tryEnqueues] at hPass
  split at hPass
  · exact nomatch hPass
  · next pass hEq =>
    cases hPass
    obtain ⟨hInv', hSame⟩ := hKeeps pass hEq
    simp only [hSame]
    exact h.deques _ _ _ _ _ hInv'

theorem tryDequeues (h : Follows run P Inv) (hInv : Inv q.enqueueAttempts q.dequeueAttempts q) :
    PassVisits run P q.dequeueAttempts q ∧ ∀ progress q',
      QueueBase.tryDequeues run q = .ok (progress, q') →
        Inv q'.enqueueAttempts q'.dequeueAttempts q' := by
  have hSkip : ∀ a ds q', a.isCancelled → Dequeuing Inv q.enqueueAttempts (a :: ds) q' →
      Dequeuing Inv q.enqueueAttempts ds q' :=
    fun a ds q' hCancelled hInv' => ⟨h.skipDequeue a _ ds q' hCancelled hInv'.1, hInv'.2⟩
  have hRun : ∀ a ds q' r, Dequeuing Inv q.enqueueAttempts (a :: ds) q' →
      a.isCancelled = false → run q' a = .ok r →
        Leaves (Dequeuing Inv q.enqueueAttempts) ds r ∧ P q' a r := by
    rintro a ds q' r ⟨hInv', hSame⟩ hActive hRun
    obtain ⟨⟨hComplete, hStays⟩, hKeeps, hHolds⟩ := h.dequeue a _ ds q' r hInv' hActive hRun
    exact ⟨⟨fun hDone => ⟨hComplete hDone, hKeeps.trans hSame⟩,
      fun hNot => ⟨hStays hNot, hKeeps.trans hSame⟩⟩, hHolds⟩
  have hStart : Dequeuing Inv q.enqueueAttempts q.dequeueAttempts q := ⟨hInv, rfl⟩
  obtain ⟨hVisits, hKeeps⟩ := tryAttempts_keeps hSkip hRun hStart
  refine ⟨hVisits, fun progress q' hPass => ?_⟩
  rw [QueueBase.tryDequeues] at hPass
  split at hPass
  · exact nomatch hPass
  · next pass hEq =>
    cases hPass
    obtain ⟨hInv', hSame⟩ := hKeeps pass hEq
    simp only [hSame]
    exact h.deques _ _ _ _ _ hInv'

theorem flush (h : Follows run P Inv) (turns : Nat)
    (hInv : Inv q.enqueueAttempts q.dequeueAttempts q) :
    FlushVisits run P turns q ∧ ∀ q', flushLoop run turns q = .ok (some q') →
      Inv q'.enqueueAttempts q'.dequeueAttempts q' :=
  flushLoop_keeps (fun _ => h.tryEnqueues) (fun _ => h.tryDequeues) turns hInv

end Follows

def guarded (run : QueueBase k α → Attempt k α → Except Fault (Run k α))
    (test : QueueBase k α → Attempt k α → Bool) (q : QueueBase k α) (a : Attempt k α) :
    Except Fault (Run k α) :=
  match run q a with
  | .error fault => .error fault
  | .ok r => if test q a then .ok r else .error .emptyComponent

variable {test : QueueBase k α → Attempt k α → Bool}

theorem guarded_ok {a : Attempt k α} {r : Run k α} (h : guarded run test q a = .ok r) :
    run q a = .ok r ∧ test q a := by
  rw [guarded] at h
  split at h
  · exact nomatch h
  · next r' hRun =>
    split at h
    · next hTest => exact ⟨hRun.trans h, hTest⟩
    · exact nomatch h

theorem tryAttempts_guarded (h : PassVisits run (fun q a _ => test q a) attempts q) :
    tryAttempts (guarded run test) attempts q = tryAttempts run attempts q := by
  induction attempts generalizing q with
  | nil => rfl
  | cons a rest ih =>
    rw [PassVisits] at h
    rw [tryAttempts, tryAttempts]
    split at h
    · next hCancelled =>
      rw [if_pos hCancelled, if_pos hCancelled]
      exact ih h
    · next hActive =>
      rw [if_neg hActive, if_neg hActive, guarded]
      cases hRun : run q a with
      | error fault => rfl
      | ok r =>
        rw [hRun] at h
        obtain ⟨hTest, hRest⟩ := h
        simp only [hTest, if_true]
        obtain ⟨result, a', q'⟩ := r
        cases result with
        | noProgress => rfl
        | progress => rfl
        | complete => simp only [ih (hRest rfl)]

theorem tryEnqueues_guarded (h : PassVisits run (fun q a _ => test q a) q.enqueueAttempts q) :
    tryEnqueues (guarded run test) q = tryEnqueues run q := by
  rw [tryEnqueues, tryAttempts_guarded h, tryEnqueues]

theorem tryDequeues_guarded (h : PassVisits run (fun q a _ => test q a) q.dequeueAttempts q) :
    tryDequeues (guarded run test) q = tryDequeues run q := by
  rw [tryDequeues, tryAttempts_guarded h, tryDequeues]

theorem flushLoop_guarded {turns : Nat}
    (h : FlushVisits run (fun q a _ => test q a) turns q) :
    flushLoop (guarded run test) turns q = flushLoop run turns q := by
  induction turns generalizing q with
  | zero => rfl
  | succ turns ih =>
    obtain ⟨hEnqueues, hRest⟩ := h
    rw [flushLoop, flushLoop, tryEnqueues_guarded hEnqueues]
    cases hFirst : tryEnqueues run q with
    | error fault => rfl
    | ok first =>
      obtain ⟨changed, q₁⟩ := first
      rw [hFirst] at hRest
      obtain ⟨hDequeues, hRest⟩ := hRest
      simp only [tryDequeues_guarded hDequeues]
      cases hSecond : tryDequeues run q₁ with
      | error fault => rfl
      | ok second =>
        rw [hSecond] at hRest
        simp only
        split
        · next hMore => exact ih (hRest hMore)
        · rfl

theorem passVisits_of_guarded {pass : Pass k α}
    (h : tryAttempts (guarded run test) attempts q = .ok pass) :
    PassVisits run (fun q a _ => test q a) attempts q := by
  induction attempts generalizing q pass with
  | nil => trivial
  | cons a rest ih =>
    rw [tryAttempts] at h
    rw [PassVisits]
    split at h
    · next hCancelled =>
      rw [if_pos hCancelled]
      exact ih h
    · next hActive =>
      rw [if_neg hActive]
      cases hRun : guarded run test q a with
      | error fault =>
        rw [hRun] at h
        exact (by cases h)
      | ok r =>
        obtain ⟨hEq, hTest⟩ := guarded_ok hRun
        rw [hEq]
        refine ⟨hTest, fun hComplete => ?_⟩
        rw [hRun] at h
        obtain ⟨result, a', q'⟩ := r
        obtain rfl : result = .complete := hComplete
        simp only at h
        cases hRest : tryAttempts (guarded run test) rest (q'.finish a') with
        | error fault =>
          rw [hRest] at h
          exact (by cases h)
        | ok pass => exact ih hRest

/-- Where the guard stops no run of a flush, all of its runs pass the test. -/
theorem flushVisits_of_guarded {turns : Nat} {result : Option (QueueBase k α)}
    (h : flushLoop (guarded run test) turns q = .ok result) :
    FlushVisits run (fun q a _ => test q a) turns q := by
  induction turns generalizing q result with
  | zero => trivial
  | succ turns ih =>
    rw [flushLoop] at h
    cases hFirst : tryEnqueues (guarded run test) q with
    | error fault =>
      rw [hFirst] at h
      exact (by cases h)
    | ok first =>
      obtain ⟨changed, q₁⟩ := first
      rw [hFirst] at h
      have hEnqueues : PassVisits run (fun q a _ => test q a) q.enqueueAttempts q := by
        rw [tryEnqueues] at hFirst
        split at hFirst
        · exact (by cases hFirst)
        · next hPass => exact passVisits_of_guarded hPass
      rw [tryEnqueues_guarded hEnqueues] at hFirst
      rw [FlushVisits, hFirst]
      refine ⟨hEnqueues, ?_⟩
      simp only at h ⊢
      cases hSecond : tryDequeues (guarded run test) q₁ with
      | error fault =>
        rw [hSecond] at h
        exact (by cases h)
      | ok second =>
        rw [hSecond] at h
        have hDequeues : PassVisits run (fun q a _ => test q a) q₁.dequeueAttempts q₁ := by
          rw [tryDequeues] at hSecond
          split at hSecond
          · exact (by cases hSecond)
          · next hPass => exact passVisits_of_guarded hPass
        rw [tryDequeues_guarded hDequeues] at hSecond
        refine ⟨hDequeues, ?_⟩
        rw [hSecond]
        intro hMore
        simp only [if_pos hMore] at h
        exact ih h

end TensorFlowOnSpark.Kernels.QueueBase
