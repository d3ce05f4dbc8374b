import TensorFlowOnSpark.Kernels.QueueConservation
import TensorFlowOnSpark.Kernels.QueueDisciplineRuns

/-!
# A queue without priorities moves whole elements

Whichever element a dequeue removes, and wherever a restored element is put back: when the
copies succeed, the components of an element stay together.
-/

namespace TensorFlowOnSpark.Kernels

open Framework QueueBase FifoQueue List

universe u

variable {k : Nat} {α : Type u} [Inhabited α]

namespace Discipline

structure MovesWhole (D : Discipline k α) : Prop where
  removes : ∀ (q : QueueBase k α) (content : List (Tuple k α)), Stores q.queues content →
    content ≠ [] → ∃ x content', D.dequeueLocked q =
        .ok (x, { q with queues := fun i => content'.map fun y => y i }) ∧
      (x :: content').Perm content
  putsBack : ∀ (content : List (Tuple k α)) (x : Tuple k α), ∃ content' : List (Tuple k α),
    (∀ i, D.putBack (content.map fun y => y i) (x i) = content'.map fun y => y i) ∧
      content'.Perm (x :: content)

variable {D : Discipline k α} {env : Env k} {q : QueueBase k α} {a : Attempt k α}
  {r : Run k α} {held content : List (Tuple k α)}

theorem restoreComponents_ok (hEnv : Succeeds env) (t : Batch k α) (index : Nat)
    (components : List (Fin (k + 1))) (hNodup : components.Nodup) (q : QueueBase k α) :
    ∃ copies, D.restoreComponents env t index components q a = (a, { q with
      copies := copies
      queues := fun i =>
        if i ∈ components then D.putBack (q.queues i) (elementAt t index i) else q.queues i }) := by
  induction components generalizing q with
  | nil => exact ⟨q.copies, by simp [restoreComponents]⟩
  | cons i rest ih =>
    obtain ⟨hNew, hRest⟩ := nodup_cons.mp hNodup
    simp only [restoreComponents, (hEnv _ _).1]
    obtain ⟨copies, hEq⟩ := ih hRest _
    refine ⟨copies, hEq.trans ?_⟩
    simp only [Prod.mk.injEq, true_and]
    congr 1
    funext j
    rcases eq_or_ne j i with rfl | hj
    · simp [hNew, elementAt]
    · simp [hj]

theorem restore_ok (hWhole : D.MovesWhole) (hEnv : Succeeds env) (t : Batch k α) (count : Nat)
    (hStores : Stores q.queues content) :
    ∃ copies queues content', D.restore env t count q a =
        (a, { q with copies := copies, queues := queues }) ∧ Stores queues content' ∧
      content'.Perm (slices t count ++ content) := by
  induction count generalizing q content with
  | zero => exact ⟨q.copies, q.queues, content, rfl, hStores, .refl _⟩
  | succ count ih =>
    obtain ⟨copies, hComponents⟩ := restoreComponents_ok (a := a) hEnv t count
      (finRange (k + 1)) (nodup_finRange _) q
    obtain ⟨content₁, hPut, hPerm⟩ := hWhole.putsBack content (elementAt t count)
    simp only [mem_finRange] at hComponents
    rw [restore, hComponents]
    have hStores₁ : Stores (fun i => D.putBack (q.queues i) (elementAt t count i)) content₁ := by
      intro i
      simp only [hStores i, hPut i]
    obtain ⟨copies', queues', content', hEq, hStores', hPerm'⟩ := ih
      (q := { q with
        copies := copies
        queues := fun i => D.putBack (q.queues i) (elementAt t count i) }) hStores₁
    refine ⟨copies', queues', content', hEq, hStores', hPerm'.trans ?_⟩
    rw [slices_succ, append_assoc]
    exact Perm.append_left _ hPerm

/-- How the loop of a `DequeueMany` ends, with the elements that it has taken. -/
inductive Filled (a : Attempt k α) (held taken : List (Tuple k α)) (turns : Nat)
    (result : RunResult) (r : Run k α) : Prop where
  | complete (t : Batch k α)
      (attempt : r.attempt.status = .ok ∧ r.attempt.done = .batch t)
      (completes : r.result = .complete) (batch : Stores t (held ++ taken))
      (enough : taken.length = a.elementsRequested)
  | waits (short : (turns : Int) < a.elementsRequested) (count : taken.length = turns)
      (attempt : r.attempt = { a with
        tuple := r.attempt.tuple, elementsRequested := a.elementsRequested - turns })
      (continues : r.result = if turns = 0 then result else .progress)
      (fills : Fills r.attempt (held ++ taken))

theorem dequeueLoop_ok (hWhole : D.MovesWhole) (hEnv : Succeeds env) (turns : Nat)
    (result : RunResult) (hFills : Fills a held) (hStores : Stores q.queues content)
    (hTurns : turns ≤ content.length) :
    ∃ r taken content', dequeueLoop D.dequeueLocked env turns result q a = .ok r ∧ Moves q r.queue ∧
      Stores r.queue.queues content' ∧ (taken ++ content').Perm content ∧
        Filled a held taken turns result r := by
  induction turns generalizing q a held content result with
  | zero =>
    refine ⟨_, [], content, rfl, ⟨q.copies, q.queues, rfl⟩, hStores, .refl _, ?_⟩
    refine .waits hFills.wants rfl ?_ rfl ?_
    · simp
    · simpa using hFills
  | succ turns ih =>
    have hSome : content ≠ [] := ne_nil_of_length_pos (by omega)
    obtain ⟨x, rest, hTake, hPerm⟩ := hWhole.removes q content hStores hSome
    have hCount : rest.length + 1 = content.length := hPerm.length_eq
    have hWants := hFills.wants
    obtain ⟨copies, t, hCopy, hBatch⟩ := hFills.copy
      (q := { q with queues := fun i => rest.map fun y => y i }) hEnv x _ rfl
    simp only [dequeueLoop, hTake, hCopy]
    split
    · rename_i hLast
      refine ⟨_, [x], rest, rfl, ⟨copies, fun i => rest.map fun y => y i, rfl⟩, fun i => rfl, hPerm,
        ?_⟩
      refine .complete t ⟨hFills.status, rfl⟩ rfl ?_ ?_
      · intro i
        obtain ⟨free, hFree, hLength⟩ := hBatch i
        have hNil : free = [] := by
          apply eq_nil_of_length_eq_zero
          omega
        rw [hFree, hNil, append_nil]
      · simp only [length_singleton]
        omega
    · rename_i hMore
      have hNext : Fills { a with tuple := some t, elementsRequested := a.elementsRequested - 1 }
          (held ++ [x]) := by
        refine ⟨hFills.status, ?_, hBatch⟩
        simp only at hMore ⊢
        omega
      obtain ⟨r, taken, content', hLoop, ⟨copies', queues', hMoves⟩, hStores', hPerm', hFilled⟩ :=
        ih
        (q := { q with copies := copies, queues := fun i => rest.map fun y => y i }) .progress
        hNext (show Stores _ rest from fun i => rfl) (by omega)
      refine ⟨r, x :: taken, content', hLoop, ⟨copies', queues', hMoves⟩, hStores',
        (Perm.cons x hPerm').trans hPerm, ?_⟩
      cases hFilled with
      | complete t attempt completes batch enough =>
        refine .complete t attempt completes ?_ ?_
        · simpa using batch
        · simp only [length_cons] at enough ⊢
          omega
      | waits short count attempt continues fills =>
        simp only at short attempt
        refine .waits (by omega) (by rw [length_cons, count]) ?_ ?_ ?_
        · rw [attempt]
          simp only [Attempt.mk.injEq, true_and, and_true]
          omega
        · rw [continues]
          simp
        · simpa using fills

theorem restoreBatch_ok (hWhole : D.MovesWhole) (hEnv : Succeeds env) (hFills : Fills a held)
    (hStores : Stores q.queues content) :
    ∃ copies queues content', D.restoreBatch env q a =
        (a, { q with copies := copies, queues := queues }) ∧ Stores queues content' ∧
      content'.Perm (held ++ content) := by
  have hTuple := hFills.tuple
  rw [restoreBatch]
  cases hEq : a.tuple with
  | none =>
    simp only [hEq] at hTuple
    rw [hTuple]
    exact ⟨q.copies, q.queues, content, rfl, hStores, .refl _⟩
  | some t =>
    simp only [hEq] at hTuple
    obtain ⟨copies, queues, content', hRestore, hStores', hPerm⟩ :=
      restore_ok (a := a) hWhole hEnv t
      ((t 0).length - a.elementsRequested).toNat hStores
    rw [slices_held hTuple] at hPerm
    exact ⟨copies, queues, content', hRestore, hStores', hPerm⟩

def store (env : Env k) : Store k α where
  admits operation := Succeeds env ∨ ¬Operation.Many operation
  keeps queues _ content := Stores queues content
  loses lost := lost = []
  delivers _ := True
  loses_nil := rfl
  loses_append lost lost' h h' := by rw [h, h', append_nil]
  delivers_nil := trivial

theorem runDequeueMany_draws (hWhole : D.MovesWhole) (hEnv : Succeeds env)
    (hAvailable : ∀ q, D.available q ≤ q.size) {allowSmallBatch : Bool}
    (hStores : Stores q.queues content) (ha : Dequeues q.calls a held)
    (hOperation : a.operation = .dequeueMany allowSmallBatch)
    (hRun : D.runDequeueMany env allowSmallBatch q a = .ok r) :
    Draws (store env) q a held content r := by
  have hCase := ha.operation
  rw [hOperation] at hCase
  obtain ⟨hFills, n, hCall, hCount⟩ := hCase
  have hSize : q.size = content.length := hStores.length 0
  rw [runDequeueMany] at hRun
  split at hRun
  · obtain ⟨copies, queues, content₁, hRestored, hStores₁, hPerm₁⟩ :=
      restoreBatch_ok hWhole hEnv hFills hStores
    have hSize₁ : ({ q with copies := copies, queues := queues } : QueueBase k α).size =
        content₁.length := hStores₁.length 0
    simp only [runShort, hRestored] at hRun
    split at hRun
    · rename_i r' hEq
      cases hRun
      split at hEq
      · cases hEq
      · rename_i hFew
        split at hEq
        · rename_i hYield
          cases hEq
          rw [Bool.and_eq_true] at hYield
          rw [hYield.1, Bool.true_and, decide_eq_true_eq] at hFew
          have hNone : content₁ = [] := eq_nil_of_length_eq_zero (by omega)
          rw [hNone] at hStores₁ hPerm₁
          have hBoth := append_eq_nil_iff.mp hPerm₁.symm.eq_nil
          refine ⟨⟨copies, queues, rfl⟩, by simp, fun _ => ?_⟩
          refine ⟨held, [], hStores₁, ?_, rfl, ha⟩
          rw [hBoth.2]
        · cases hEq
          refine ⟨⟨copies, queues, rfl⟩, fun _ => ?_, fun hNot => absurd rfl hNot⟩
          refine ⟨content₁, [], hStores₁, rfl, trivial, ?_⟩
          rw [Run.delivers, Attempt.setStatus, if_pos ha.status, append_nil]
          split
          · rw [ha.done]
            exact hPerm₁
          · exact hPerm₁
    · rename_i a' q' hEq
      split at hEq
      · rename_i hSome
        cases hEq
        rw [Bool.and_eq_true, decide_eq_true_eq] at hSome
        have hFills' : Fills { a with
            tuple := none
            elementsRequested :=
              ({ q with copies := copies, queues := queues } : QueueBase k α).size } [] := by
          refine ⟨ha.status, ?_, rfl⟩
          simp only
          omega
        obtain ⟨r', taken, content', hLoop, ⟨copies', queues', hMoves⟩, hStores',
          hPerm', hFilled⟩ :=
          dequeueLoop_ok (q := { q with copies := copies, queues := queues }) hWhole hEnv
            _ .noProgress hFills' hStores₁ hSize₁.le
        cases hLoop.symm.trans hRun
        cases hFilled with
        | complete t attempt completes batch enough =>
          refine ⟨⟨copies', queues', hMoves⟩, fun _ => ?_, fun hNot => absurd completes hNot⟩
          refine ⟨content', [], hStores', rfl, trivial, ?_⟩
          rw [Run.delivers, if_pos attempt.1, attempt.2, elementsOf, batch.slices, append_nil]
          exact hPerm'.trans hPerm₁
        | waits short count attempt continues fills => exact absurd short (by simp)
      · split at hEq
        · cases hEq
        · cases hEq
  · obtain ⟨r', taken, content', hLoop, hMoves, hStores', hPerm', hFilled⟩ :=
      dequeueLoop_ok hWhole hEnv (D.available q) .noProgress hFills hStores
        (hSize ▸ hAvailable q)
    cases hLoop.symm.trans hRun
    cases hFilled with
    | complete t attempt completes batch enough =>
      refine ⟨hMoves, fun _ => ?_, fun hNot => absurd completes hNot⟩
      refine ⟨content', [], hStores', rfl, trivial, ?_⟩
      rw [Run.delivers, if_pos attempt.1, attempt.2, elementsOf, batch.slices, append_nil,
        append_assoc]
      exact Perm.append_left _ hPerm'
    | waits short count attempt continues fills =>
      have hStays : Dequeues q.calls r.attempt (held ++ taken) := by
        have hSame : r.attempt.done = a.done ∧ r.attempt.status = a.status ∧
            r.attempt.isCancelled = a.isCancelled ∧ r.attempt.id = a.id ∧
            r.attempt.operation = a.operation ∧
            r.attempt.elementsRequested = a.elementsRequested - D.available q := by
          rw [attempt]
          exact ⟨rfl, rfl, rfl, rfl, rfl, rfl⟩
        obtain ⟨hDone, hStatus, hActive, hId, hOp, hRequested⟩ := hSame
        refine ⟨hDone.trans ha.done, hStatus.trans ha.status, hActive.trans ha.active, ?_⟩
        rw [hOp, hOperation, hId]
        refine ⟨fills, n, hCall, ?_⟩
        rw [length_append]
        omega
      refine ⟨hMoves, fun hComplete => ?_, fun _ => ?_⟩
      · rw [continues] at hComplete
        split at hComplete
        · cases hComplete
        · cases hComplete
      · refine ⟨held ++ taken, content', hStores', ?_, ?_, hStays⟩
        · rw [append_assoc]
          exact Perm.append_left _ hPerm'
        · rw [attempt]

theorem runDequeue_draws (hWhole : D.MovesWhole) (hStores : Stores q.queues content)
    (hAvailable : ∀ q, D.available q ≤ q.size)
    (ha : Dequeues q.calls a held) (hOperation : a.operation = .dequeue)
    (hStatus : ∀ requested size, D.insufficient q requested size ≠ .ok)
    (hRun : D.runDequeue q a = .ok r) : Draws (store env) q a held content r := by
  have hCase := ha.operation
  rw [hOperation] at hCase
  obtain ⟨rfl, hTuple, hCall⟩ := hCase
  have hSize : q.size = content.length := hStores.length 0
  rw [runDequeue] at hRun
  split at hRun
  · cases hRun
    refine ⟨⟨q.copies, q.queues, rfl⟩, fun _ => ?_, fun hNot => absurd rfl hNot⟩
    refine ⟨content, [], hStores, rfl, trivial, ?_⟩
    rw [Run.delivers, Attempt.setStatus, if_pos ha.status, if_neg (hStatus _ _), append_nil]
  · split at hRun
    · rename_i hSome
      have hNonempty : content ≠ [] := by
        have hLe := hAvailable q
        exact ne_nil_of_length_pos (by omega)
      obtain ⟨x, content', hTake, hPerm⟩ := hWhole.removes q content hStores hNonempty
      rw [hTake] at hRun
      cases hRun
      refine ⟨⟨q.copies, _, rfl⟩, fun _ => ?_, fun hNot => absurd rfl hNot⟩
      refine ⟨content', [], fun i => rfl, rfl, trivial, ?_⟩
      rw [Run.delivers, if_pos ha.status, append_nil]
      exact hPerm
    · cases hRun
      refine ⟨⟨q.copies, q.queues, rfl⟩, by simp, fun _ => ?_⟩
      exact ⟨[], content, hStores, .refl _, rfl, ha⟩

/-- What the loop of an `EnqueueMany` has put into the queue. -/
structure Put (q : QueueBase k α) (a : Attempt k α) (t : Batch k α)
    (elements : List (Tuple k α)) (r : Run k α) : Prop where
  queue : ∃ copies, r.queue = { q with
    copies := copies
    queues := fun i => q.queues i ++ elements.map fun x => x i
    accepted := q.accepted ++ elements.map fun x => (a.id, x) }
  attempt : r.attempt = { a with elementsRequested := a.elementsRequested - elements.length }
  follows : (t 0).length < 2 ^ 31 → ∀ p : Nat, p ≤ (t 0).length →
    (p : Int) = (t 0).length - a.elementsRequested →
      p + elements.length ≤ (t 0).length ∧ slices t (p + elements.length) = slices t p ++ elements

theorem enqueueManyLoop_ok (hEnv : Succeeds env)
    (hIndex : ∀ index : Int, 0 ≤ index → index < 2 ^ 31 → D.batchIndex index = index)
    (t : Batch k α) (room : Nat) (result : RunResult) (ha : a.status = .ok)
    (h : D.enqueueManyLoop env t room result q a = .ok r) : ∃ elements, Put q a t elements r := by
  induction room generalizing q a result with
  | zero =>
    cases h
    exact ⟨[], ⟨q.copies, by simp⟩, by simp, fun _ p hp _ => ⟨by simpa using hp, by simp⟩⟩
  | succ room ih =>
    simp only [enqueueManyLoop] at h
    split at h
    · cases h
    · rename_i hPush
      obtain ⟨-, copies, hEq⟩ := pushComponents_ok hEnv ha t _ _ (nodup_finRange _) hPush
      cases hEq
    · rename_i a' q' hPush
      obtain ⟨hRange, copies, hEq⟩ := pushComponents_ok hEnv ha t _ _ (nodup_finRange _) hPush
      have hFirst := hRange 0 (mem_finRange _)
      simp only [mem_finRange, Prod.mk.injEq, true_and] at hEq
      obtain ⟨rfl, rfl⟩ := hEq
      -- an element of a batch that fits into `int32` is the next one
      have hNext : (t 0).length < 2 ^ 31 → ∀ p : Nat, p ≤ (t 0).length →
          (p : Int) = (t 0).length - a'.elementsRequested →
            (D.batchIndex ((t 0).length - a'.elementsRequested)).toNat = p ∧
              p + 1 ≤ (t 0).length := by
        intro hShort p hLe hp
        have hSame := hIndex ((t 0).length - a'.elementsRequested) (by omega) (by omega)
        omega
      split at h
      · cases h
        refine ⟨[elementAt t (D.batchIndex ((t 0).length - a'.elementsRequested)).toNat],
          ⟨copies, rfl⟩, rfl, ?_⟩
        intro hShort p hLe hp
        obtain ⟨hAt, hMore⟩ := hNext hShort p hLe hp
        rw [hAt]
        exact ⟨hMore, slices_succ t p⟩
      · obtain ⟨elements, ⟨copies', hQueue⟩, hAttempt, hFollows⟩ := ih .progress
          (a := { a' with elementsRequested := a'.elementsRequested - 1 }) ha h
        refine ⟨elementAt t (D.batchIndex ((t 0).length - a'.elementsRequested)).toNat :: elements,
          ⟨copies', ?_⟩, ?_, ?_⟩
        · rw [hQueue]
          simp
        · rw [hAttempt]
          simp only [length_cons, Attempt.mk.injEq, true_and, and_true]
          omega
        · intro hShort p hLe hp
          obtain ⟨hAt, hMore⟩ := hNext hShort p hLe hp
          obtain ⟨hBound, hSlices⟩ := hFollows hShort (p + 1) hMore (by simp only; omega)
          rw [slices_succ, append_assoc, Nat.add_assoc, Nat.add_comm 1] at hSlices
          rw [length_cons, hSlices, hAt]
          exact ⟨by omega, rfl⟩

variable {es ds : List (Attempt k α)}

theorem runEnqueue_gives {x : Tuple k α} (h : Conserved (store env) (a :: es) ds q)
    (hActive : a.isCancelled = false) (hOperation : a.operation = .enqueue x) :
    ∃ elements, Gives (store env) q a elements (D.runEnqueue x q a) := by
  have ha := h.enqueues a mem_cons_self
  have hCase := ha.operation
  rw [hOperation] at hCase
  rw [runEnqueue]
  split
  · exact ⟨[], h.givesNothing _ q.closed⟩
  · split
    · refine ⟨[x], ?_, rfl, rfl, rfl, rfl, rfl, rfl, rfl, ?_, fun hNot => absurd rfl hNot⟩
      · intro held content hStores
        refine ⟨content ++ [x], ?_, .refl _⟩
        intro i
        simp only [hStores i, map_append, map_cons, map_nil]
      · rw [TakesPrefix, hCase.1]
        right
        exact (acceptedFrom_append q.accepted [x] a.id a.id).trans
          (by rw [hCase.2 hActive, if_pos rfl, nil_append])
    · refine ⟨[], ⟨?_, by simp, rfl, rfl, rfl, rfl, rfl, rfl, h.takes a.id, fun _ => ha⟩⟩
      exact fun held content hStores => ⟨content, hStores, by simp⟩

theorem runEnqueueMany_gives {t : Batch k α}
    (hIndex : ∀ index : Int, 0 ≤ index → index < 2 ^ 31 → D.batchIndex index = index)
    (h : Conserved (store env) (a :: es) ds q) (hActive : a.isCancelled = false)
    (hOperation : a.operation = .enqueueMany t) (hRun : D.runEnqueueMany env t q a = .ok r) :
    ∃ elements, Gives (store env) q a elements r := by
  have ha := h.enqueues a mem_cons_self
  have hCase := ha.operation
  rw [hOperation] at hCase
  have hEnv : Succeeds env := by
    refine (h.admits a mem_cons_self).resolve_right fun hNone => hNone ?_
    rw [hOperation]
    trivial
  rw [runEnqueueMany] at hRun
  split at hRun
  · cases hRun
    exact ⟨[], h.givesNothing _ q.closed⟩
  · obtain ⟨elements, ⟨copies, hQueue⟩, hAttempt, hFollows⟩ :=
      enqueueManyLoop_ok hEnv hIndex t _ _ (ha.status hActive) hRun
    have hSame : r.attempt.id = a.id ∧ r.attempt.done = a.done ∧
        r.attempt.operation = a.operation ∧ r.attempt.status = a.status ∧
        r.attempt.elementsRequested = a.elementsRequested - elements.length := by
      rw [hAttempt]
      exact ⟨rfl, rfl, rfl, rfl, rfl⟩
    obtain ⟨hId, hDone, hOp, hStatus, hRequested⟩ := hSame
    have hTaken : (t 0).length < 2 ^ 31 → ∃ p : Nat, p ≤ (t 0).length ∧
        (p : Int) = (t 0).length - r.attempt.elementsRequested ∧
          acceptedFrom r.queue.accepted a.id = slices t p := by
      intro hShort
      obtain ⟨p, hLe, hp, hSlices⟩ := hCase.2 hActive hShort
      obtain ⟨hBound, hMore⟩ := hFollows hShort p hLe hp
      refine ⟨p + elements.length, hBound, by omega, ?_⟩
      rw [hQueue, hMore, acceptedFrom_append, if_pos rfl, hSlices]
    refine ⟨elements, ?_, ?_, ?_, ?_, ?_, hId, hDone, hOp, ?_, fun _ => ?_⟩
    · intro held content hStores
      refine ⟨content ++ elements, ?_, .refl _⟩
      intro i
      simp only [hQueue, hStores i, map_append]
    · rw [hQueue]
    · rw [hQueue]
    · rw [hQueue]
    · rw [hQueue]
    · rw [TakesPrefix, hCase.1]
      intro hShort
      obtain ⟨p, hLe, -, hSlices⟩ := hTaken hShort
      exact ⟨p, hLe, hSlices⟩
    · refine ⟨hDone.trans ha.done, fun _ => hStatus.trans (ha.status hActive), ?_⟩
      rw [hOp, hOperation, hId]
      exact ⟨hCase.1, fun _ => hTaken⟩

end Discipline

namespace RandomShuffleQueue

open Transition

variable {k : Nat} {α : Type u}

theorem removeAt_perm {β : Type u} (elements : List β) (index : Nat)
    (hIndex : index < elements.length) :
    (elements[index] :: removeAt elements index).Perm elements := by
  obtain ⟨front, last, rfl⟩ : ∃ front last, elements = front ++ [last] := by
    have hSome : elements ≠ [] := ne_nil_of_length_pos (by omega)
    exact ⟨_, _, (dropLast_append_getLast hSome).symm⟩
  rw [removeAt, getLast?_append_of_ne_nil _ (cons_ne_nil last [])]
  simp only [getLast?_singleton]
  rw [length_append, length_singleton] at hIndex
  rcases Nat.lt_or_ge index front.length with hLt | hGe
  · -- the last element takes the place of the removed one
    rw [getElem_append_left hLt, set_append_left _ _ hLt, dropLast_concat,
      set_eq_take_cons_drop _ hLt]
    have hFront : front = front.take index ++ front[index] :: front.drop (index + 1) := by
      rw [getElem_cons_drop, take_append_drop]
    have hMoved : (last :: front.drop (index + 1)).Perm (front.drop (index + 1) ++ [last]) :=
      (perm_append_singleton _ _).symm
    refine perm_middle.symm.trans ?_
    refine (List.Perm.append_left _ (List.Perm.cons _ hMoved)).trans ?_
    rw [← cons_append, ← append_assoc, ← hFront]
  · have hLast : index = front.length := by omega
    subst hLast
    rw [set_append_right _ _ (Nat.le_refl _), Nat.sub_self, getElem_concat_length rfl]
    simp only [set_cons_zero, dropLast_concat]
    exact (perm_append_singleton _ _).symm

theorem removeAt_map {β : Type u} (f : β → α) (elements : List β) (index : Nat) :
    removeAt (elements.map f) index = (removeAt elements index).map f := by
  rw [removeAt, removeAt, getLast?_map]
  cases elements.getLast? with
  | none => rfl
  | some last => simp only [Option.map_some, map_dropLast, map_set]

variable [Inhabited α] {settings : Settings} {env : Env k} {q : QueueBase k α} {a : Attempt k α}
  {r : Run k α}

theorem movesWhole (settings : Settings) :
    (discipline settings (k := k) (α := α)).MovesWhole where
  removes q content hStores hSome := by
    have hSize : q.size = content.length := hStores.length 0
    have hPos := length_pos_of_ne_nil hSome
    have hIndex : settings.draw q.copies q.completed.length % q.size < content.length := by
      rw [hSize]
      exact Nat.mod_lt _ hPos
    refine ⟨content[settings.draw q.copies q.completed.length % q.size], removeAt content _, ?_,
      removeAt_perm content _ hIndex⟩
    have hAll : ∀ i, settings.draw q.copies q.completed.length % q.size <
        (q.queues i).length := by
      intro i
      rw [hStores.length i]
      exact hIndex
    refine (if_pos hAll : (discipline settings).dequeueLocked q = _).trans ?_
    congr 2
    · funext i
      simp [elementAt, hStores i, hIndex]
    · congr 1
      funext i
      rw [hStores i, removeAt_map]
  putsBack content x := by
    refine ⟨content ++ [x], ?_, perm_append_singleton x content⟩
    intro i
    rw [map_append]
    rfl

def LeavesMinimum (minAfterDequeue : Nat) (q : QueueBase k α) (a : Attempt k α) (r : Run k α) :
    Prop :=
  a.operation.isDequeue = true → q.closed = false →
    r.queue.size = q.size ∨ minAfterDequeue ≤ r.queue.size

theorem dequeueLoop_leaves {D : Discipline k α} {minAfterDequeue : Nat}
    (hLawful : D.Lawful minAfterDequeue) (turns : Nat) (result : RunResult)
    (h : dequeueLoop D.dequeueLocked env turns result q a = .ok r) : q.size ≤
    r.queue.size + turns := by
  induction turns generalizing q a result with
  | zero =>
    cases h
    exact Nat.le_refl _
  | succ turns ih =>
    simp only [dequeueLoop] at h
    split at h
    · cases h
    · rename_i element q' hTake
      obtain ⟨queues, rfl, hSize⟩ := hLawful.removes q _ _ hTake
      split at h
      · rename_i t' a' q'' hCopy
        obtain ⟨-, copies, hQueue⟩ := copyComponents_frame hCopy
        cases h
        rw [hQueue]
        simp only [size] at hSize ⊢
        omega
      · rename_i t' a' q'' hCopy
        obtain ⟨-, copies, hQueue⟩ := copyComponents_frame hCopy
        subst hQueue
        split at h
        · cases h
          simp only [size] at hSize ⊢
          omega
        · have hRest := ih .progress h
          simp only [size] at hSize hRest ⊢
          omega

theorem leavesMinimum (hRun : runCallback settings env q a = .ok r) :
    LeavesMinimum settings.minAfterDequeue q a r := by
  intro hKind hOpen
  have hLawful := lawful (k := k) (α := α) settings
  rw [runCallback, Discipline.runCallback] at hRun
  cases hOperation : a.operation with
  | dequeue =>
    simp only [hOperation] at hRun
    rw [Discipline.runDequeue, if_neg (by simp [hOpen])] at hRun
    split at hRun
    · rename_i hSome
      rw [hLawful.available, hOpen] at hSome
      split at hRun
      · cases hRun
      · rename_i tuple q' hTake
        cases hRun
        obtain ⟨queues, rfl, hSize⟩ := hLawful.removes q _ _ hTake
        simp only [Bool.false_eq_true, if_false] at hSome hSize ⊢
        right
        omega
    · cases hRun
      exact .inl rfl
  | dequeueMany allowSmallBatch =>
    simp only [hOperation] at hRun
    rw [Discipline.runDequeueMany, hLawful.available, hOpen] at hRun
    simp only [Bool.false_eq_true, if_false] at hRun
    have hLeaves := dequeueLoop_leaves hLawful _ _ hRun
    rcases Nat.lt_or_ge settings.minAfterDequeue q.size with hMore | hFew
    · right
      omega
    · have hNone : q.size - settings.minAfterDequeue = 0 := by omega
      rw [hNone] at hRun
      cases hRun
      exact .inl rfl
  | enqueue tuple =>
    rw [hOperation] at hKind
    cases hKind
  | enqueueMany tuple =>
    rw [hOperation] at hKind
    cases hKind
  | close =>
    rw [hOperation] at hKind
    cases hKind

theorem available_le (settings : Settings) (q : QueueBase k α) :
    (discipline settings).available q ≤ q.size := by
  change available settings q ≤ q.size
  rw [available]
  split
  · exact Nat.le_refl _
  · exact Nat.sub_le _ _

theorem movesElements (settings : Settings) (env : Env k) :
    MovesElements (Discipline.store (α := α) env) (runCallback settings env)
      (LeavesMinimum settings.minAfterDequeue) where
  gives es ds q a r h hActive hRun := by
    refine ⟨?_, leavesMinimum hRun⟩
    have hCase := (h.enqueues a mem_cons_self).operation
    rw [runCallback, Discipline.runCallback] at hRun
    split at hRun
    · rename_i hOperation
      cases hRun
      exact Discipline.runEnqueue_gives h hActive hOperation
    · rename_i hOperation
      exact Discipline.runEnqueueMany_gives (lawful settings).batchIndex h hActive hOperation hRun
    · cases hRun
      exact ⟨[], h.runClose⟩
    · rename_i hOperation
      rw [hOperation] at hCase
      exact hCase.elim
    · rename_i hOperation
      rw [hOperation] at hCase
      exact hCase.elim
  draws q a r held content hAdmits hStores ha hRun := by
    refine ⟨?_, leavesMinimum hRun⟩
    have hCase := ha.operation
    rw [runCallback, Discipline.runCallback] at hRun
    split at hRun
    · rename_i hOperation
      rw [hOperation] at hCase
      exact hCase.elim
    · rename_i hOperation
      rw [hOperation] at hCase
      exact hCase.elim
    · rename_i hOperation
      rw [hOperation] at hCase
      exact hCase.elim
    · rename_i hOperation
      exact Discipline.runDequeue_draws (movesWhole settings) hStores (available_le settings) ha
        hOperation (by rintro _ _ ⟨⟩) hRun
    · rename_i hOperation
      have hEnv : Succeeds env := by
        refine hAdmits.resolve_right fun hOne => hOne ?_
        rw [hOperation]
        trivial
      exact Discipline.runDequeueMany_draws (movesWhole settings) hEnv (available_le settings)
        hStores ha hOperation hRun

theorem accounts (h : Conserved (Discipline.store env) q.enqueueAttempts q.dequeueAttempts q) :
    (delivered q ++ heldByFront q ++ content q).Perm (q.accepted.map Prod.snd) := by
  obtain ⟨held, elements, lost, hStores, hNone, hPerm, hFront⟩ := h.elements
  have hContent : content q = elements := hStores.slices
  rw [hNone, append_nil] at hPerm
  rw [hFront.heldByFront, hContent]
  exact hPerm

omit [Inhabited α] in
theorem permits {componentDtypes : Fin (k + 1) → DataType} (call : Call k α)
    (h : (∀ i, handled (componentDtypes i) = true) ∨ ¬Copies call) :
    (Discipline.store (ofTypes componentDtypes)).Permits call := by
  have hAdmits := h.imp_left fun hHandled => succeeds_ofTypes hHandled
  cases call with
  | tryEnqueue x => exact .inr id
  | tryEnqueueMany t => exact fun hSome => .inl (hAdmits.resolve_right fun hNot => hNot hSome)
  | tryDequeue => exact .inr id
  | tryDequeueMany n small =>
    exact fun hSome => .inl (hAdmits.resolve_right fun hNot => hNot hSome)
  | close cancelPendingEnqueues => exact .inr id

def step (settings : Settings) (env : Env k) :
    QueueBase k α → Action k α → Outcome (QueueBase k α) Failure :=
  stepWith (runCallback settings env)
    (discipline settings (k := k) (α := α)).unspecifiedShapes

structure Shuffles (settings : Settings) (env : Env k) (q : QueueBase k α) : Prop where
  accounts : (delivered q ++ heldByFront q ++ content q).Perm (q.accepted.map Prod.snd)
  fromAttempts : ∀ id, TakesPrefix q.calls q.accepted id
  leavesMinimum : ∀ turns, FlushVisits (runCallback settings env)
    (LeavesMinimum settings.minAfterDequeue) turns q

variable {componentDtypes : Fin (k + 1) → DataType} {capacity : Nat} {name : String}
  {specifiedShapes : Bool}

/-- Delivered, held and stored elements are the accepted ones. -/
theorem history_shuffles (hReach : Reach (step settings (ofTypes componentDtypes))
    (Copyable componentDtypes) (init capacity name specifiedShapes) q) :
    Shuffles settings (ofTypes componentDtypes) q := by
  have hRuns := movesElements (k := k) (α := α) settings (ofTypes componentDtypes)
  have hStatus : (discipline settings (k := k) (α := α)).unspecifiedShapes ≠ .ok := nofun
  have hConserved := Conserved.reach hRuns hStatus (fun _ call h => permits call h)
    (fun _ => rfl) hReach
  exact ⟨accounts hConserved, hConserved.takes, fun turns => (hConserved.flush hRuns turns).1⟩

def reshuffled : List (Action 0 Nat) :=
  [.call (.tryEnqueueMany fun _ => [1, 2, 3, 4]), .flush, .call (.tryDequeueMany 5 true), .flush,
    .call (.close false), .flush]

def keepsOne : Settings := ⟨1, fun copies callbacks => copies + callbacks⟩

theorem batch_shuffled :
    ∃ q, Reach (step keepsOne (ofTypes fun _ : Fin 1 => .int32)) (Copyable fun _ => .int32)
        (init 3 "q" true) q ∧ (delivered q).map (· 0) = [2, 4, 1, 3] ∧
      Shuffles keepsOne (ofTypes fun _ => .int32) q := by
  have hCopyable : ∀ (q : QueueBase 0 Nat) (action : Action 0 Nat), always q action = true →
      Copyable (fun _ => .int32) q action := by
    rintro q (call | _) _
    · exact .inl fun _ => rfl
    · trivial
  obtain ⟨q, hReach, hTest⟩ :=
    exists_reach_of_exec (step keepsOne (ofTypes fun _ : Fin 1 => .int32))
    (init 3 "q" true) always hCopyable reshuffled
    (fun q => (delivered q).map (· 0) = [2, 4, 1, 3]) (by decide +kernel)
  exact ⟨q, hReach, of_decide_eq_true hTest, history_shuffles hReach⟩

/-- An element of a type that `CopyElementToSlice` does not handle is lost. -/
theorem uint16_element_vanishes :
    ¬∀ (k : Nat) (settings : Settings) (componentDtypes : Fin (k + 1) → DataType) (capacity : Nat)
      (name : String) (specifiedShapes : Bool) (q : QueueBase k Nat),
      settings.minAfterDequeue < capacity →
      Reach (step settings (ofTypes componentDtypes)) anyStep
        (init capacity name specifiedShapes) q →
      (delivered q ++ heldByFront q ++ content q).Perm (q.accepted.map Prod.snd) := by
  intro hShuffles
  obtain ⟨q, hReach, hTest⟩ := exists_reach_of_exec
    (step keepsOne (ofTypes fun _ : Fin 1 => .uint16)) (init 2 "q" true) always anyStep_of_always
    [.call (.tryEnqueue fun _ => 7), .call (.tryEnqueue fun _ => 8), .flush,
      .call (.tryDequeueMany 1 false), .flush]
    (fun q => (delivered q ++ heldByFront q ++ content q).length ≠ q.accepted.length)
    (by decide +kernel)
  have hCount := (hShuffles 0 keepsOne _ 2 "q" true q (by decide) hReach).length_eq
  rw [length_map] at hCount
  exact of_decide_eq_true hTest hCount

end RandomShuffleQueue

end TensorFlowOnSpark.Kernels
