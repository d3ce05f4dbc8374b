import TensorFlowOnSpark.Kernels.PriorityQueueRuns

/-!
# Small batches of a closed priority queue

A request that allows a small batch takes all elements of a closed queue that has too few,
and waits for the rest.
-/

namespace TensorFlowOnSpark.Kernels.PriorityQueue

open Framework Transition BinaryHeap QueueBase FifoQueue List Bool

universe u

variable {k : Nat} {β : Type u} [Inhabited β]

/-- Batches are copied where the copies succeed, and nothing is lost. -/
def lossless (settings : Settings β) (env : Env k) : Store k (Cell β) where
  admits
    | .enqueue tuple => Whole tuple
    | .enqueueMany tuple => Succeeds env ∧ ∀ i, ∀ cell ∈ tuple i, cell = .tensor cell.second
    | .dequeueMany _ => Succeeds env
    | _ => True
  keeps queues held content := held = [] ∧ Heaps settings queues content
  loses lost := lost = []
  delivers _ := True
  loses_nil := rfl
  loses_append _ _ h h' := by rw [h, h', append_nil]
  delivers_nil := trivial

def Undrained (settings : Settings β) (componentDtypes : Fin (k + 1) → DataType)
    (q : QueueBase k (Cell β)) : Action k β → Prop
  | .call call => (∀ i, handled (componentDtypes i)) ∨ ¬Copies call
  | .flush => FlushVisits (runCallback settings (ofTypes componentDtypes))
      (fun q a _ => drains q a = false) (q.effort + 1) q

variable {settings : Settings β} {componentDtypes : Fin (k + 1) → DataType} {capacity : Nat}
  {name : String} {specifiedShapes : Bool} {q : QueueBase k (Cell β)} {env : Env k}

def undrained (q : QueueBase k (Cell β)) (a : Attempt k (Cell β)) : Bool := !drains q a

theorem movesElements_lossless (settings : Settings β) (env : Env k) :
    MovesElements (lossless settings env) (guarded (runCallback settings env) undrained)
      (DrawsLeast settings) := by
  refine movesElements_of ⟨fun _ _ _ => Iff.rfl, fun _ _ => trivial⟩ (fun q a r hRun _ => ?_)
    (fun _ h => h) (fun t h => ⟨fun n i => (h.1 n i).1, h.2⟩)
    fun _ hEnv hFails => absurd (fun n i => (hEnv n i).2) hFails
  obtain ⟨hRun, hTest⟩ := guarded_ok hRun
  exact ⟨hRun, by simpa [undrained] using hTest⟩

omit [Inhabited β] in
theorem permits_lossless (settings : Settings β) {call : Call k β}
    (h : (∀ i, handled (componentDtypes i) = true) ∨ ¬Copies call) :
    (lossless settings (ofTypes componentDtypes)).Permits (cells call) := by
  cases call with
  | tryEnqueue x => exact fun i => rfl
  | tryEnqueueMany t =>
    intro hSome
    rw [length_map] at hSome
    refine ⟨succeeds_ofTypes (h.resolve_right fun hNot => hNot hSome), fun i cell hCell => ?_⟩
    obtain ⟨value, -, rfl⟩ := mem_map.mp hCell
    rfl
  | tryDequeue => trivial
  | tryDequeueMany n small =>
    exact fun hSome => succeeds_ofTypes (h.resolve_right fun hNot => hNot hSome)
  | close cancelPendingEnqueues => trivial

theorem conserved_of_undrained (hReach : Reach (step settings (ofTypes componentDtypes))
    (Undrained settings componentDtypes) (init capacity name specifiedShapes) q) :
    Conserved (lossless settings (ofTypes componentDtypes)) q.enqueueAttempts
      q.dequeueAttempts q := by
  have hReach' : Reach (stepWith
    (guarded (runCallback settings (ofTypes componentDtypes)) undrained)
      unspecifiedShapes) (fun _ action => ∀ call, action = .call call →
        (lossless settings (ofTypes componentDtypes)).Permits call)
      (init capacity name specifiedShapes) q := by
    refine hReach.relabel_allowed cellAction ?_ ?_
    · rintro q (call | _) hAllowed
      · rfl
      · have hVisits : FlushVisits (runCallback settings (ofTypes componentDtypes))
            (fun q a _ => undrained q a) (q.effort + 1) q := by
          simpa only [undrained, not_eq_true'] using show FlushVisits _
            (fun q a _ => drains q a = false) _ _ from hAllowed
        rw [step, cellAction, stepWith, stepWith, flushLoop_guarded hVisits]
    · rintro q (call | _) hAllowed c hCall
      · cases hCall
        exact permits_lossless settings hAllowed
      · cases hCall
  exact Conserved.reach (movesElements_lossless settings _)
    ((by rintro ⟨⟩) : unspecifiedShapes ≠ .ok)
    (fun _ call h => h call rfl) ⟨rfl, heaps_nil⟩ hReach'

/-- A pending request is run twice; it takes elements of the queue, and then its answer has a
status that is not OK and the queue has no elements. -/
def Loses (settings : Settings β) (env : Env k) (q : QueueBase k (Cell β))
    (a : Attempt k (Cell β)) : Prop :=
  tensors q ≠ [] ∧ ∃ r r', runCallback settings env q a = .ok r ∧ r.result = .progress ∧
    runCallback settings env r.queue r.attempt = .ok r' ∧ r'.result = .complete ∧
      r'.attempt.status ≠ .ok ∧ tensors r'.queue = []

theorem loses_of_drains {a : Attempt k (Cell β)} {held content : List (Tuple k (Cell β))}
    (hEnv : ∀ n i, env.copyElement n i = .ok) (hHeaps : Heaps settings q.queues content)
    (ha : Dequeues q.calls a held) (hDrains : drains q a) : Loses settings env q a := by
  have hSize : q.size = content.length := hHeaps.length 0
  have hCase := ha.operation
  rw [drains] at hDrains
  split at hDrains
  · next hOperation =>
    rw [hOperation] at hCase
    simp only [and_eq_true, decide_eq_true_eq] at hDrains
    obtain ⟨⟨hClosed, hSome⟩, hFew⟩ := hDrains
    obtain ⟨r, taken, content', hLoop, ⟨copies, queues, hMoved⟩, hHeaps', hTakes, hEnds⟩ :=
      dequeueLoop_takes env q.size .noProgress hCase.1 hHeaps hSize.le
    have hCount := hTakes.perm.length_eq
    rw [length_append] at hCount
    obtain ⟨hLength, hResult, hHolds, hLeft, hSame⟩ := hEnds.resolve_left (by
      rintro ⟨_, hFull, _⟩
      have hAll := (hFull hEnv).2
      omega)
    have hNil : content' = [] := eq_nil_of_length_eq_zero (by omega)
    subst hNil
    have hEmpty : r.queue.size = 0 := hHeaps'.length 0
    have hFirst : runCallback settings env q a = .ok r := by
      rw [runCallback, hOperation]
      simp only [runDequeueMany, hClosed, hSome.ne', hLoop]
      simp
    refine ⟨?_, r, ⟨.complete, r.attempt.setStatus
      (insufficient r.queue r.attempt.elementsRequested r.queue.size), r.queue⟩,
      hFirst, ?_, ?_, rfl, ?_, ?_⟩
    · rw [hHeaps.tensors]
      exact ne_nil_of_length_pos (by omega)
    · rw [hResult, if_neg hSome.ne']
    · have hStill : r.queue.closed := by rw [hMoved]; exact hClosed
      rw [runCallback, hSame, hOperation]
      simp only [runDequeueMany, hStill, hEmpty, decide_true, Bool.true_or, Bool.and_self, if_true]
    · rw [Attempt.setStatus, if_pos hHolds.status]
      rintro ⟨⟩
    · exact hHeaps'.tensors
  · exact (by cases hDrains)

/-- In runs without a drained queue, every accepted element is delivered or in the queue. Where a
pending request would drain the queue, its answer has none of the elements. -/
theorem history_supplies (hReach : Reach (step settings (ofTypes componentDtypes))
    (Undrained settings componentDtypes) (init capacity name specifiedShapes) q) :
    (delivered q ++ tensors q).Perm (q.accepted.map Prod.snd) ∧
      ∀ a ∈ q.dequeueAttempts, drains q a → Loses settings (ofTypes componentDtypes) q a := by
  have hConserved := conserved_of_undrained hReach
  obtain ⟨held, content, lost, ⟨rfl, hHeaps⟩, rfl, hPerm, hFront⟩ := hConserved.elements
  rw [hHeaps.tensors]
  simp only [append_nil] at hPerm
  refine ⟨hPerm, fun a hMem hDrains => ?_⟩
  have hAdmits := hConserved.admits a (mem_append_right _ hMem)
  have ha : Dequeues q.calls a [] := by
    cases hAttempts : q.dequeueAttempts with
    | nil =>
      rw [hAttempts] at hMem
      exact absurd hMem not_mem_nil
    | cons b rest =>
      rw [hAttempts] at hMem hFront
      rcases mem_cons.mp hMem with rfl | hRest
      · exact hFront.1
      · exact hFront.2 a hRest
  have hEnv : ∀ n i, (ofTypes componentDtypes).copyElement n i = .ok := by
    rw [drains] at hDrains
    split at hDrains
    · next hOperation =>
      rw [hOperation] at hAdmits
      exact fun n i => (hAdmits n i).2
    · exact (by cases hDrains)
  exact loses_of_drains hEnv hHeaps ha hDrains

def flushesUndrained (env : Env 1) (q : QueueBase 1 (Cell Int)) : Action 1 Int → Bool
  | .call _ => true
  | .flush => (flushLoop (guarded (runCallback integers env) undrained) (q.effort + 1) q).isOk

theorem undrained_of_flushesUndrained (dtypes : Fin 2 → DataType)
    (hTypes : ∀ i, handled (dtypes i)) (q : QueueBase 1 (Cell Int)) (action : Action 1 Int)
    (hTest : flushesUndrained (ofTypes dtypes) q action) :
    Undrained integers dtypes q action := by
  cases action with
  | call call => exact .inl hTypes
  | flush =>
    rw [flushesUndrained] at hTest
    cases hLoop : flushLoop (guarded (runCallback integers (ofTypes dtypes)) undrained)
        (q.effort + 1) q with
    | error fault =>
      rw [hLoop] at hTest
      exact nomatch hTest
    | ok result =>
      have hVisits := flushVisits_of_guarded hLoop
      simpa only [Undrained, undrained, not_eq_true'] using hVisits

/-- A request for a small batch gets all its elements, and the next one finds a closed queue. -/
theorem small_batch_supplied :
    ∃ q, Reach (step integers (ofTypes fun _ : Fin 2 => .int64))
      (Undrained integers fun _ => .int64)
        (init 3 "q" true) q ∧
      (delivered q).map values = [(1, 11), (2, 10), (3, 12)] ∧ q.closed ∧
      (delivered q ++ tensors q).Perm (q.accepted.map Prod.snd) ∧
      ∀ a ∈ q.dequeueAttempts, drains q a →
        Loses integers (ofTypes fun _ : Fin 2 => .int64) q a := by
  obtain ⟨q, hReach, hTest⟩ :=
    exists_reach_of_exec (step integers (ofTypes fun _ : Fin 2 => .int64))
    (init 3 "q" true) (flushesUndrained (ofTypes fun _ => .int64))
    (undrained_of_flushesUndrained _ fun _ => rfl)
    [.call (.tryEnqueueMany ![[2, 1], [10, 11]]), .flush, .call (.tryDequeueMany 3 true), .flush,
      .call (.tryEnqueue ![3, 12]), .flush, .call (.close false), .flush,
      .call (.tryDequeueMany 1 true), .flush]
    (fun q => (delivered q).map values = [(1, 11), (2, 10), (3, 12)] ∧ q.closed)
    (by decide +kernel)
  obtain ⟨hDelivered, hClosed⟩ := of_decide_eq_true hTest
  exact ⟨q, hReach, hDelivered, hClosed, history_supplies hReach⟩

/-- The queue is closed while a request for two elements waits for the second. -/
theorem small_batch_lost :
    ¬∀ (k : Nat) (settings : Settings Int) (componentDtypes : Fin (k + 1) → DataType)
      (capacity : Nat) (name : String) (specifiedShapes : Bool) (q : QueueBase k (Cell Int)),
      (∀ i, handled (componentDtypes i)) →
      Reach (step settings (ofTypes componentDtypes)) anyStep
        (init capacity name specifiedShapes) q →
      (delivered q ++ tensors q).Perm (q.accepted.map Prod.snd) := by
  intro hSupplies
  obtain ⟨q, hReach, hTest⟩ :=
    exists_reach_of_exec (step integers (ofTypes fun _ : Fin 2 => .int64))
    (init 3 "q" true) always anyStep_of_always
    [.call (.tryEnqueue ![5, 10]), .flush, .call (.tryDequeueMany 2 true), .flush,
      .call (.close false), .flush]
    (fun q => (delivered q ++ tensors q).length ≠ q.accepted.length) (by decide +kernel)
  have hPerm := hSupplies 1 integers _ 3 "q" true q (fun _ => rfl) hReach
  refine of_decide_eq_true hTest ?_
  rw [hPerm.length_eq, length_map]

end TensorFlowOnSpark.Kernels.PriorityQueue
