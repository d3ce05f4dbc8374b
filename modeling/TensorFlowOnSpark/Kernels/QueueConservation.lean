import TensorFlowOnSpark.Kernels.FifoQueueHistory
import TensorFlowOnSpark.Kernels.QueueBaseVisits
import TensorFlowOnSpark.Kernels.QueueBaseWakeup
import TensorFlowOnSpark.Kernels.QueueDiscipline

/-!
# Queues that keep their elements in any order

What was delivered, what the front `DequeueMany` holds and what is in the queue are
together the accepted elements, up to their order.
-/

namespace TensorFlowOnSpark.Kernels

open Framework Transition QueueBase FifoQueue List Nat

universe u

variable {k : Nat} {α : Type u} [Inhabited α]

/-- What a kind of queue keeps of its elements: how its deques contain those that an attempt
holds and the others, which elements it may lose, and in which order it delivers them. -/
structure Store (k : Nat) (α : Type u) where
  admits : Operation k α → Prop
  keeps : Batch k α → List (Tuple k α) → List (Tuple k α) → Prop
  loses : List (Tuple k α) → Prop
  delivers : List (Tuple k α) → Prop
  loses_nil : loses []
  loses_append : ∀ lost lost', loses lost → loses lost' → loses (lost ++ lost')
  delivers_nil : delivers []

structure Conserved (S : Store k α) (es ds : List (Attempt k α)) (q : QueueBase k α) : Prop where
  admits : ∀ a ∈ es ++ ds, S.admits a.operation
  elements : ∃ held content lost, S.keeps q.queues held content ∧ S.loses lost ∧
    (delivered q ++ held ++ content ++ lost).Perm (q.accepted.map Prod.snd) ∧
      Front q.calls held ds
  delivers : ∀ c ∈ q.completed, S.delivers (deliveredBy c)
  enqueues : ∀ a ∈ es, Enqueues q.calls q.accepted a
  distinct : es.Pairwise fun a b => a.id ≠ b.id
  known : ∀ e ∈ q.accepted, e.1 < q.calls.length
  takes : ∀ id, TakesPrefix q.calls q.accepted id

/-- A run that gives elements to the queue, none when it is refused. -/
structure Gives (S : Store k α) (q : QueueBase k α) (a : Attempt k α)
    (elements : List (Tuple k α)) (r : Run k α) : Prop where
  content : ∀ held content, S.keeps q.queues held content →
    ∃ content', S.keeps r.queue.queues held content' ∧ content'.Perm (content ++ elements)
  accepted : r.queue.accepted = q.accepted ++ elements.map fun x => (a.id, x)
  calls : r.queue.calls = q.calls
  completed : r.queue.completed = q.completed
  dequeueAttempts : r.queue.dequeueAttempts = q.dequeueAttempts
  id : r.attempt.id = a.id
  done : r.attempt.done = a.done
  operation : r.attempt.operation = a.operation
  takes : TakesPrefix q.calls r.queue.accepted a.id
  stays : r.result ≠ .complete → Enqueues q.calls r.queue.accepted r.attempt

def Run.delivers (r : Run k α) : List (Tuple k α) :=
  if r.attempt.status = .ok then elementsOf r.attempt.done else []

/-- A run that draws elements from the queue: it gives them to its caller, puts them back,
holds them or loses them. -/
structure Draws (S : Store k α) (q : QueueBase k α) (a : Attempt k α)
    (held content : List (Tuple k α)) (r : Run k α) : Prop where
  moves : Moves q r.queue
  answers : r.result = .complete → ∃ content' lost, S.keeps r.queue.queues [] content' ∧
    S.loses lost ∧ S.delivers (Run.delivers r) ∧
      (Run.delivers r ++ content' ++ lost).Perm (held ++ content)
  stays : r.result ≠ .complete → ∃ held' content', S.keeps r.queue.queues held' content' ∧
    (held' ++ content').Perm (held ++ content) ∧ r.attempt.operation = a.operation ∧
      Dequeues q.calls r.attempt held'

variable {S : Store k α} {a : Attempt k α}
  {rest es ds : List (Attempt k α)} {q q' : QueueBase k α} {r : Run k α}

namespace Conserved

theorem tail (h : Conserved S (a :: rest) ds q) : Conserved S rest ds q :=
  { h with
    admits := fun b hb => h.admits b (mem_cons_of_mem _ hb)
    enqueues := fun b hb => h.enqueues b (mem_cons_of_mem _ hb)
    distinct := (pairwise_cons.mp h.distinct).2 }

variable {elements : List (Tuple k α)}

/-- The queue has the elements, and the attempt is out of its deque. -/
theorem give (h : Conserved S (a :: rest) ds q) (hGives : Gives S q a elements r)
    : Conserved S rest ds r.queue := by
  obtain ⟨held, content, lost, hKeeps, hLoses, hPerm, hFront⟩ := h.elements
  obtain ⟨content', hKeeps', hPerm'⟩ := hGives.content held content hKeeps
  have hKnown := (h.enqueues a mem_cons_self).known
  have hOthers := (pairwise_cons.mp h.distinct).1
  refine ⟨h.tail.admits, ⟨held, content', lost, hKeeps', hLoses, ?_, ?_⟩, ?_, ?_,
    h.tail.distinct, ?_, ?_⟩
  · have hSame : delivered r.queue = delivered q := by rw [delivered, hGives.completed]; rfl
    have hNew : (elements.map fun x => (a.id, x)).map Prod.snd = elements := by
      rw [map_map]
      exact map_id _
    rw [hSame, hGives.accepted, map_append, hNew]
    have hMoved : (delivered q ++ held ++ content' ++ lost).Perm
        (delivered q ++ held ++ content ++ lost ++ elements) := by
      simp only [append_assoc]
      refine Perm.append_left _ (Perm.append_left _ ?_)
      refine (hPerm'.append_right lost).trans ?_
      rw [append_assoc]
      exact Perm.append_left _ perm_append_comm
    exact hMoved.trans (hPerm.append_right _)
  · rw [hGives.calls]
    exact hFront
  · rw [hGives.completed]
    exact h.delivers
  · intro b hb
    rw [hGives.calls, hGives.accepted]
    exact (h.enqueues b (mem_cons_of_mem _ hb)).append elements (hOthers b hb).symm
  · intro e he
    rw [hGives.accepted] at he
    rw [hGives.calls]
    rcases mem_append.mp he with hOld | hNew
    · exact h.known e hOld
    · obtain ⟨x, -, rfl⟩ := mem_map.mp hNew
      exact hKnown
  · intro id
    rw [hGives.calls]
    rcases eq_or_ne id a.id with rfl | hId
    · exact hGives.takes
    · rw [hGives.accepted]
      exact (h.takes id).append elements hId

theorem finish (h : Conserved S es ds q) {c : Completed k α} (hNone : deliveredBy c = []) :
    Conserved S es ds { q with completed := q.completed ++ [c] } := by
  refine { h with elements := ?_, delivers := ?_ }
  · obtain ⟨held, content, lost, hKeeps, hLoses, hPerm, hFront⟩ := h.elements
    refine ⟨held, content, lost, hKeeps, hLoses, ?_, hFront⟩
    rw [delivered_append, hNone, append_nil]
    exact hPerm
  · intro c' hc
    rcases mem_append.mp hc with hOld | hNew
    · exact h.delivers c' hOld
    · rw [mem_singleton.mp hNew, hNone]
      exact S.delivers_nil

theorem gives (h : Conserved S (a :: rest) ds q) (hGives : Gives S q a elements r)
    : Leaves (Conserved S · ds ·) rest r := by
  have hGive := h.give hGives
  have ha := h.enqueues a mem_cons_self
  refine ⟨fun _ => ?_, fun hStays => ?_⟩
  · apply hGive.finish
    apply deliveredBy_finished
    rw [hGives.done]
    exact ha.done
  · refine { hGive with admits := ?_, enqueues := ?_, distinct := ?_ }
    · intro b hb
      rcases mem_cons.mp hb with rfl | hb
      · rw [hGives.operation]
        exact h.admits a mem_cons_self
      · exact h.admits b (mem_cons_of_mem _ hb)
    · simp only [forall_mem_cons]
      refine ⟨?_, hGive.enqueues⟩
      rw [hGives.calls]
      exact hGives.stays hStays
    · refine pairwise_cons.mpr ⟨?_, hGive.distinct⟩
      rw [hGives.id]
      exact (pairwise_cons.mp h.distinct).1

theorem draws (h : Conserved S es (a :: rest) q)
    (hRun : ∀ held content, S.keeps q.queues held content → Dequeues q.calls a held →
      Draws S q a held content r) : Leaves (Conserved S es · ·) rest r := by
  obtain ⟨held, content, lost, hKeeps, hLoses, hPerm, ha, hRest⟩ := h.elements
  obtain ⟨⟨copies, queues, hQueue⟩, hAnswers, hStays⟩ := hRun held content hKeeps ha
  have hFront : Front q.calls [] rest := by
    cases rest with
    | nil => rfl
    | cons c rest =>
      exact ⟨hRest c mem_cons_self, fun d hd => hRest d (mem_cons_of_mem _ hd)⟩
  refine ⟨fun hComplete => ?_, fun hNot => ?_⟩
  · obtain ⟨content', lost', hKeeps', hLoses', hDelivers, hPerm'⟩ := hAnswers hComplete
    rw [hQueue] at hKeeps' ⊢
    refine { h with
      admits := ?_
      elements := ⟨[], content', lost' ++ lost, hKeeps', S.loses_append _ _ hLoses' hLoses, ?_,
        hFront⟩
      delivers := ?_ }
    · intro b hb
      refine h.admits b ?_
      simp only [mem_append, mem_cons] at hb ⊢
      exact hb.imp_right .inr
    · rw [QueueBase.finish, delivered_append, append_nil]
      have hMoved : (delivered q ++ Run.delivers r ++ content' ++ (lost' ++ lost)).Perm
          (delivered q ++ held ++ content ++ lost) := by
        have hSame : delivered q ++ Run.delivers r ++ content' ++ (lost' ++ lost) =
            delivered q ++ ((Run.delivers r ++ content' ++ lost') ++ lost) := by
          simp only [append_assoc]
        rw [hSame, append_assoc (delivered q) held, append_assoc (delivered q)]
        exact Perm.append_left _ (hPerm'.append_right _)
      exact hMoved.trans hPerm
    · intro c hc
      rcases mem_append.mp hc with hOld | hNew
      · exact h.delivers c hOld
      · rw [mem_singleton.mp hNew]
        exact hDelivers
  · obtain ⟨held', content', hKeeps', hPerm', hOperation, hb⟩ := hStays hNot
    rw [hQueue] at hKeeps' ⊢
    refine { h with
      admits := ?_, elements := ⟨held', content', lost, hKeeps', hLoses, ?_, hb, hRest⟩ }
    · intro b hb
      simp only [mem_append, mem_cons] at hb
      rcases hb with hb | rfl | hb
      · exact h.admits b (mem_append_left _ hb)
      · rw [hOperation]
        exact h.admits a (mem_append_right _ mem_cons_self)
      · exact h.admits b (mem_append_right _ (mem_cons_of_mem _ hb))
    · have hMoved : (delivered q ++ held' ++ content' ++ lost).Perm
          (delivered q ++ held ++ content ++ lost) := by
        rw [append_assoc (delivered q) held', append_assoc (delivered q) held]
        exact (Perm.append_left _ hPerm').append_right _
      exact hMoved.trans hPerm

theorem calls (h : Conserved S es ds q) (call : Call k α) :
    Conserved S es ds { q with calls := q.calls ++ [call] } where
  admits := h.admits
  elements := by
    obtain ⟨held, content, lost, hKeeps, hLoses, hPerm, hFront⟩ := h.elements
    exact ⟨held, content, lost, hKeeps, hLoses, hPerm, hFront.calls⟩
  delivers := h.delivers
  enqueues b hb := (h.enqueues b hb).calls
  distinct := h.distinct
  known e he := by
    rw [length_append]
    exact Nat.lt_add_right _ (h.known e he)
  takes id := by
    rcases lt_or_ge id q.calls.length with hLt | hGe
    · have hTakes := h.takes id
      rw [TakesPrefix] at hTakes ⊢
      rw [getElem?_calls hLt]
      exact hTakes
    · apply takesPrefix_of_eq_nil
      apply acceptedFrom_eq_nil
      intro e he
      exact lt_of_lt_of_le (h.known e he) hGe

theorem appendEnqueue (h : Conserved S es ds q) (hAdmits : S.admits a.operation)
    (ha : Enqueues q.calls q.accepted a) (hNew : ∀ b ∈ es, b.id ≠ a.id) :
    Conserved S (es ++ [a]) ds q :=
  { h with
    admits := by
      intro b hb
      simp only [mem_append, mem_singleton] at hb
      rcases hb with (hb | rfl) | hb
      · exact h.admits b (mem_append_left _ hb)
      · exact hAdmits
      · exact h.admits b (mem_append_right _ hb)
    enqueues := by
      simp only [forall_mem_append, forall_mem_singleton]
      exact ⟨h.enqueues, ha⟩
    distinct := by
      rw [pairwise_append]
      refine ⟨h.distinct, pairwise_singleton _ _, ?_⟩
      intro b hb c hc
      rw [mem_singleton.mp hc]
      exact hNew b hb }

theorem appendDequeue (h : Conserved S es ds q) (hAdmits : S.admits a.operation)
    (ha : Dequeues q.calls a []) : Conserved S es (ds ++ [a]) q := by
  refine { h with admits := ?_, elements := ?_ }
  · intro b hb
    simp only [mem_append, mem_singleton] at hb
    rcases hb with hb | hb | rfl
    · exact h.admits b (mem_append_left _ hb)
    · exact h.admits b (mem_append_right _ hb)
    · exact hAdmits
  · obtain ⟨held, content, lost, hKeeps, hLoses, hPerm, hFront⟩ := h.elements
    refine ⟨held, content, lost, hKeeps, hLoses, hPerm, ?_⟩
    cases ds with
    | nil =>
      have hHeld : held = [] := hFront
      rw [hHeld]
      exact ⟨ha, by simp⟩
    | cons b rest =>
      refine ⟨hFront.1, ?_⟩
      intro c hc
      rcases mem_append.mp hc with hOld | hNew
      · exact hFront.2 c hOld
      · rw [mem_singleton.mp hNew]
        exact ha

omit [Inhabited α] in
theorem unless_cancelled (a : Attempt k α) :
    (if a.isCancelled then a else a.cancelEnqueue).id = a.id ∧
      (if a.isCancelled then a else a.cancelEnqueue).operation = a.operation := by
  split
  · exact ⟨rfl, rfl⟩
  · rw [Attempt.cancelEnqueue, Attempt.setStatus]
    split
    · exact ⟨rfl, rfl⟩
    · exact ⟨rfl, rfl⟩

theorem closeAndCancel (h : Conserved S q.enqueueAttempts q.dequeueAttempts q) :
    Conserved S q.closeAndCancel.enqueueAttempts q.closeAndCancel.dequeueAttempts
      q.closeAndCancel := by
  have hNone : ∀ c ∈ ((q.enqueueAttempts.filter fun a => !a.isCancelled).map
      Attempt.cancelEnqueue).map fun a => Completed.mk a.id a.status a.done true q.size,
      deliveredBy c = [] := by
    intro c hc
    obtain ⟨b, hb, rfl⟩ := mem_map.mp hc
    obtain ⟨b', hb', rfl⟩ := mem_map.mp hb
    exact deliveredBy_finished (h.enqueues b' (mem_filter.mp hb').1).cancel.done
  refine ⟨?_, ?_, ?_, ?_, ?_, h.known, h.takes⟩
  · intro b hb
    rcases mem_append.mp hb with hE | hD
    · obtain ⟨c, hc, rfl⟩ := mem_map.mp hE
      rw [(unless_cancelled c).2]
      exact h.admits c (mem_append_left _ hc)
    · exact h.admits b (mem_append_right _ hD)
  · obtain ⟨held, content, lost, hKeeps, hLoses, hPerm, hFront⟩ := h.elements
    refine ⟨held, content, lost, hKeeps, hLoses, ?_, hFront⟩
    have hDelivered : delivered q.closeAndCancel = delivered q := by
      rw [delivered, QueueBase.closeAndCancel, flatMap_append]
      exact (congrArg (delivered q ++ ·) (flatMap_eq_nil_iff.mpr hNone)).trans
        (append_nil _)
    rw [hDelivered]
    exact hPerm
  · intro c hc
    rcases mem_append.mp hc with hOld | hNew
    · exact h.delivers c hOld
    · rw [hNone c hNew]
      exact S.delivers_nil
  · intro b hb
    obtain ⟨c, hc, rfl⟩ := mem_map.mp hb
    split
    · exact h.enqueues c hc
    · exact (h.enqueues c hc).cancel
  · refine pairwise_map.mpr (h.distinct.imp ?_)
    intro b c hNe
    rw [(unless_cancelled b).1, (unless_cancelled c).1]
    exact hNe

theorem setAttempts (h : Conserved S es ds q) (es' ds' : List (Attempt k α)) :
    Conserved S es ds { q with enqueueAttempts := es', dequeueAttempts := ds' } :=
  ⟨h.admits, h.elements, h.delivers, h.enqueues, h.distinct, h.known, h.takes⟩

end Conserved

def Store.Permits (S : Store k α) : Call k α → Prop
  | .tryEnqueue x => S.admits (.enqueue x)
  | .tryEnqueueMany t => (t 0).length ≠ 0 → S.admits (.enqueueMany t)
  | .tryDequeue => S.admits .dequeue
  | .tryDequeueMany n allowSmallBatch => n ≠ 0 → S.admits (.dequeueMany allowSmallBatch)
  | .close _ => S.admits .close

variable {unspecifiedShapes : Status}

namespace Conserved

theorem enter (h : Conserved S q.enqueueAttempts q.dequeueAttempts q) (call : Call k α)
    (hPermits : S.Permits call) (hStatus : unspecifiedShapes ≠ .ok) :
    Conserved S (q.enterWith unspecifiedShapes call).enqueueAttempts
      (q.enterWith unspecifiedShapes call).dequeueAttempts
      { q.enterWith unspecifiedShapes call with calls := q.calls ++ [call] } := by
  have hCalls := h.calls call
  have hNew : (q.calls ++ [call])[q.calls.length]? = some call := by simp
  have hFresh : acceptedFrom q.accepted q.calls.length = [] := acceptedFrom_eq_nil h.known
  have hLast : ∀ b ∈ q.enqueueAttempts, b.id ≠ q.calls.length := fun b hb =>
    (h.enqueues b hb).known.ne
  cases call with
  | tryEnqueue x =>
    exact (hCalls.appendEnqueue (a := newAttempt q (.enqueue x) 1) hPermits
      ⟨rfl, fun _ => rfl, hNew, fun _ => hFresh⟩ hLast).setAttempts _ _
  | tryEnqueueMany t =>
    rw [enterWith]
    split
    · exact hCalls.finish (deliveredBy_finished rfl)
    · rename_i hSome
      refine (hCalls.appendEnqueue
        (a := newAttempt q (.enqueueMany t) (toInt32 (t 0).length)) (hPermits hSome) ?_
          hLast).setAttempts _ _
      refine ⟨rfl, fun _ => rfl, hNew, fun _ hShort => ⟨0, zero_le _, ?_, hFresh⟩⟩
      rw [newAttempt, toInt32_of_lt hShort]
      simp
  | tryDequeue =>
    exact (hCalls.appendDequeue (a := newAttempt q .dequeue 1) hPermits
      ⟨rfl, rfl, rfl, rfl, rfl, hNew⟩).setAttempts _ _
  | tryDequeueMany n small =>
    rw [enterWith]
    split
    · apply hCalls.finish
      rw [deliveredBy, if_neg hStatus]
    · split
      · exact hCalls.finish rfl
      · rename_i hSome
        refine (hCalls.appendDequeue (a := newAttempt q (.dequeueMany small) n)
          (hPermits hSome) ?_).setAttempts _ _
        refine ⟨rfl, rfl, rfl, ⟨rfl, ?_, rfl⟩, n, hNew, ?_⟩
        · change (0 : Int) < n
          omega
        · simp [newAttempt]
  | close cancelPendingEnqueues =>
    cases cancelPendingEnqueues with
    | false =>
      exact (hCalls.appendEnqueue (a := newAttempt q .close 0) hPermits
        ⟨rfl, fun _ => rfl, hNew⟩ hLast).setAttempts _ _
    | true =>
      have hClosed := closeAndCancel (q := { q with calls := q.calls ++ [Call.close true] }) hCalls
      exact hClosed.finish rfl

theorem init (hEmpty : S.keeps (fun _ => []) [] []) (capacity : Nat) (name : String)
    (specifiedShapes : Bool) : Conserved S [] [] (init capacity name specifiedShapes) where
  admits _ hb := absurd hb not_mem_nil
  elements := ⟨[], [], [], hEmpty, S.loses_nil, .refl _, rfl⟩
  delivers _ hc := absurd hc not_mem_nil
  enqueues _ hb := absurd hb not_mem_nil
  distinct := .nil
  known _ he := absurd he not_mem_nil
  takes _ := takesPrefix_of_eq_nil rfl

end Conserved

theorem Conserved.givesNothing (h : Conserved S (a :: es) ds q) (status : Status) (closed : Bool) :
    Gives S q a [] ⟨.complete, a.setStatus status, { q with closed := closed }⟩ where
  content held content hKeeps := ⟨content, hKeeps, by simp⟩
  accepted := by simp
  calls := rfl
  completed := rfl
  dequeueAttempts := rfl
  id := setStatus_id status
  done := setStatus_done status
  operation := by
    rw [Attempt.setStatus]
    split
    · rfl
    · rfl
  takes := h.takes a.id
  stays hNot := absurd rfl hNot

theorem Conserved.runClose (h : Conserved S (a :: es) ds q) :
    Gives S q a [] (QueueBase.runClose q a) := by
  rw [QueueBase.runClose]
  split
  · exact h.givesNothing _ q.closed
  · have hGives := h.givesNothing .ok true
    rw [Attempt.setStatus] at hGives
    split at hGives
    · rename_i hStatus
      rw [← hStatus] at hGives
      exact hGives
    · exact hGives

structure MovesElements (S : Store k α)
    (run : QueueBase k α → Attempt k α → Except Fault (Run k α))
    (P : QueueBase k α → Attempt k α → Run k α → Prop) : Prop where
  gives : ∀ es ds q a r, Conserved S (a :: es) ds q → a.isCancelled = false →
    run q a = .ok r → (∃ elements, Gives S q a elements r) ∧ P q a r
  draws : ∀ q a r held content, S.admits a.operation → S.keeps q.queues held content →
    Dequeues q.calls a held → run q a = .ok r → Draws S q a held content r ∧ P q a r

variable {run : QueueBase k α → Attempt k α → Except Fault (Run k α)}
  {P : QueueBase k α → Attempt k α → Run k α → Prop}

def Giving (S : Store k α) (ds es : List (Attempt k α)) (q : QueueBase k α) : Prop :=
  Conserved S es ds q ∧ q.dequeueAttempts = ds

def Drawing (S : Store k α) (es ds : List (Attempt k α)) (q : QueueBase k α) : Prop :=
  Conserved S es ds q ∧ q.enqueueAttempts = es

def GivingAlong (S : Store k α) (K : List (Attempt k α) → QueueBase k α → Prop)
    (ds es : List (Attempt k α)) (q : QueueBase k α) : Prop :=
  Giving S ds es q ∧ K es q

def DrawingAlong (S : Store k α) (K : List (Attempt k α) → QueueBase k α → Prop)
    (es ds : List (Attempt k α)) (q : QueueBase k α) : Prop :=
  Drawing S es ds q ∧ K es q

structure Along (S : Store k α) (run : QueueBase k α → Attempt k α → Except Fault (Run k α))
    (K : List (Attempt k α) → QueueBase k α → Prop) : Prop where
  skip : ∀ a es q, a.isCancelled → K (a :: es) q → K es q
  gives : ∀ a es ds q r, Conserved S (a :: es) ds q → K (a :: es) q → a.isCancelled = false →
    run q a = .ok r → Leaves K es r
  congr : ∀ es q q', K es q → q'.calls = q.calls → q'.accepted = q.accepted →
    q'.closed = q.closed → K es q'

theorem along_true (run : QueueBase k α → Attempt k α → Except Fault (Run k α)) :
    Along S run fun _ _ => True :=
  ⟨fun _ _ _ _ h => h, fun _ _ _ _ _ _ _ _ _ => ⟨fun _ => trivial, fun _ => trivial⟩,
    fun _ _ _ h _ _ _ => h⟩

section Passes

variable {K : List (Attempt k α) → QueueBase k α → Prop}

section

variable (hRuns : MovesElements S run P)

include hRuns

theorem Conserved.tryEnqueues_along (hAlong : Along S run K)
    (h : Conserved S q.enqueueAttempts q.dequeueAttempts q ∧ K q.enqueueAttempts q) :
    PassVisits run P q.enqueueAttempts q ∧ ∀ progress q',
      tryEnqueues run q = .ok (progress, q') →
        Conserved S q'.enqueueAttempts q'.dequeueAttempts q' ∧ K q'.enqueueAttempts q' := by
  have hSkip : ∀ a rest q', a.isCancelled →
      GivingAlong S K q.dequeueAttempts (a :: rest) q' →
        GivingAlong S K q.dequeueAttempts rest q' :=
    fun a rest q' hCancelled hInv =>
      ⟨⟨hInv.1.1.tail, hInv.1.2⟩, hAlong.skip a rest q' hCancelled hInv.2⟩
  have hRun : ∀ a rest q' r, GivingAlong S K q.dequeueAttempts (a :: rest) q' →
      a.isCancelled = false → run q' a = .ok r →
        Leaves (GivingAlong S K q.dequeueAttempts) rest r ∧ P q' a r := by
    rintro a rest q' r ⟨⟨hInv, hKept⟩, hK⟩ hActive hEq
    obtain ⟨⟨elements, hGives⟩, hHolds⟩ := hRuns.gives rest _ q' a r hInv hActive hEq
    obtain ⟨hComplete, hStays⟩ := hInv.gives hGives
    obtain ⟨hCompleteK, hStaysK⟩ := hAlong.gives a rest _ q' r hInv hK hActive hEq
    have hSame := hGives.dequeueAttempts.trans hKept
    exact ⟨⟨fun hDone => ⟨⟨hComplete hDone, hSame⟩, hCompleteK hDone⟩,
      fun hNot => ⟨⟨hStays hNot, hSame⟩, hStaysK hNot⟩⟩, hHolds⟩
  have hStart : GivingAlong S K q.dequeueAttempts q.enqueueAttempts q := ⟨⟨h.1, rfl⟩, h.2⟩
  obtain ⟨hVisits, hKeeps⟩ := tryAttempts_keeps hSkip hRun hStart
  refine ⟨hVisits, ?_⟩
  intro progress q' hPass
  rw [tryEnqueues] at hPass
  split at hPass
  · cases hPass
  · rename_i pass hEq
    cases hPass
    obtain ⟨⟨hInv, hSame⟩, hK⟩ := hKeeps pass hEq
    simp only [hSame]
    exact ⟨hInv.setAttempts _ _, hAlong.congr _ _ _ hK rfl rfl rfl⟩

theorem Conserved.tryDequeues_along (hAlong : Along S run K)
    (h : Conserved S q.enqueueAttempts q.dequeueAttempts q ∧ K q.enqueueAttempts q) :
    PassVisits run P q.dequeueAttempts q ∧ ∀ progress q',
      tryDequeues run q = .ok (progress, q') →
        Conserved S q'.enqueueAttempts q'.dequeueAttempts q' ∧ K q'.enqueueAttempts q' := by
  have hSkip : ∀ a rest q', a.isCancelled →
      DrawingAlong S K q.enqueueAttempts (a :: rest) q' →
        DrawingAlong S K q.enqueueAttempts rest q' := by
    rintro a rest q' hCancelled ⟨⟨hInv, -⟩, -⟩
    obtain ⟨held, content, lost, -, -, -, ha, -⟩ := hInv.elements
    exact absurd (ha.active.symm.trans hCancelled) Bool.false_ne_true
  have hRun : ∀ a rest q' r, DrawingAlong S K q.enqueueAttempts (a :: rest) q' →
      a.isCancelled = false → run q' a = .ok r →
        Leaves (DrawingAlong S K q.enqueueAttempts) rest r ∧ P q' a r := by
    rintro a rest q' r ⟨⟨hInv, hKept⟩, hK⟩ hActive hEq
    have hAdmits := hInv.admits a (mem_append_right _ mem_cons_self)
    have hDraws := fun held content hKeeps ha =>
      hRuns.draws q' a r held content hAdmits hKeeps ha hEq
    obtain ⟨hComplete, hStays⟩ := hInv.draws fun held content hKeeps ha =>
      (hDraws held content hKeeps ha).1
    obtain ⟨held, content, lost, hKeeps, -, -, ha, -⟩ := hInv.elements
    obtain ⟨⟨⟨copies, queues, hQueue⟩, -, -⟩, hHolds⟩ := hDraws held content hKeeps ha
    have hSame : r.queue.enqueueAttempts = q.enqueueAttempts := by
      rw [hQueue]
      exact hKept
    have hMoved : K q.enqueueAttempts r.queue := by
      rw [hQueue]
      exact hAlong.congr _ _ _ hK rfl rfl rfl
    exact ⟨⟨fun hDone => ⟨⟨hComplete hDone, hSame⟩, hAlong.congr _ _ _ hMoved rfl rfl rfl⟩,
      fun hNot => ⟨⟨hStays hNot, hSame⟩, hMoved⟩⟩, hHolds⟩
  have hStart : DrawingAlong S K q.enqueueAttempts q.dequeueAttempts q := ⟨⟨h.1, rfl⟩, h.2⟩
  obtain ⟨hVisits, hKeeps⟩ := tryAttempts_keeps hSkip hRun hStart
  refine ⟨hVisits, ?_⟩
  intro progress q' hPass
  rw [tryDequeues] at hPass
  split at hPass
  · cases hPass
  · rename_i pass hEq
    cases hPass
    obtain ⟨⟨hInv, hSame⟩, hK⟩ := hKeeps pass hEq
    simp only [hSame]
    exact ⟨hInv.setAttempts _ _, hAlong.congr _ _ _ hK rfl rfl rfl⟩

theorem Conserved.flush_along (hAlong : Along S run K)
    (h : Conserved S q.enqueueAttempts q.dequeueAttempts q) (hK : K q.enqueueAttempts q)
    (turns : Nat) :
    FlushVisits run P turns q ∧ ∀ q', flushLoop run turns q = .ok (some q') →
      Conserved S q'.enqueueAttempts q'.dequeueAttempts q' ∧ K q'.enqueueAttempts q' :=
  flushLoop_keeps (fun _ hInv => Conserved.tryEnqueues_along hRuns hAlong hInv)
    (fun _ hInv => Conserved.tryDequeues_along hRuns hAlong hInv) turns ⟨h, hK⟩

end

end Passes

theorem Conserved.flush (hRuns : MovesElements S run P)
    (h : Conserved S q.enqueueAttempts q.dequeueAttempts q) (turns : Nat) :
    FlushVisits run P turns q ∧ ∀ q', flushLoop run turns q = .ok (some q') →
      Conserved S q'.enqueueAttempts q'.dequeueAttempts q' := by
  obtain ⟨hVisits, hKeeps⟩ := h.flush_along hRuns (along_true run) trivial turns
  exact ⟨hVisits, fun q' hFlush => (hKeeps q' hFlush).1⟩

def stepWith (run : QueueBase k α → Attempt k α → Except Fault (Run k α))
    (unspecifiedShapes : Status) (q : QueueBase k α) :
    Action k α → Outcome (QueueBase k α) Failure
  | .call call => .next { q.enterWith unspecifiedShapes call with calls := q.calls ++ [call] }
  | .flush =>
    match flushLoop run (q.effort + 1) q with
    | .error fault => .failed (.undefined fault)
    | .ok none => .failed .endlessFlush
    | .ok (some q') => .next q'

theorem Conserved.reach {allowed : QueueBase k α → Action k α → Prop}
    (hRuns : MovesElements S run P) (hStatus : unspecifiedShapes ≠ .ok)
    (hPermits : ∀ q call, allowed q (.call call) → S.Permits call)
    (hEmpty : S.keeps (fun _ => []) [] []) {capacity : Nat} {name : String} {specifiedShapes : Bool}
    (hReach : Reach (stepWith run unspecifiedShapes) allowed
      (FifoQueue.init capacity name specifiedShapes) q) :
    Conserved S q.enqueueAttempts q.dequeueAttempts q := by
  refine hReach.invariant
    (fun q => Conserved S q.enqueueAttempts q.dequeueAttempts q)
    (Conserved.init hEmpty capacity name specifiedShapes) ?_
  intro q action q' hConserved hAllowed hNext
  cases action with
  | call call =>
    cases hNext
    exact hConserved.enter call (hPermits q call hAllowed) hStatus
  | flush =>
    rw [stepWith] at hNext
    split at hNext
    · cases hNext
    · cases hNext
    · rename_i q'' hFlush
      cases hNext
      exact (hConserved.flush hRuns _).2 q' hFlush

end TensorFlowOnSpark.Kernels
