import TensorFlowOnSpark.Lib.Transition
import Mathlib.Data.List.Basic

/-!
# Feeding partitions for inference

`inference` of `TFSparkNode.py` puts the items of a partition and an end marker into the
input queue, waits until the queue is worked off and reads as many results as it put
items.
-/

namespace TensorFlowOnSpark.Feeding

open Transition List

universe u v

/-- `multiprocessing.JoinableQueue`, with the numbers of its operations so far. -/
structure JoinableQueue (τ : Type u) where
  items : List τ
  unfinished : Nat
  puts : Nat
  gets : Nat
  dones : Nat

namespace JoinableQueue

variable {τ : Type u}

def empty : JoinableQueue τ := ⟨[], 0, 0, 0, 0⟩

def put (q : JoinableQueue τ) (item : τ) : JoinableQueue τ :=
  { q with items := q.items ++ [item], unfinished := q.unfinished + 1, puts := q.puts + 1 }

def fetch (q : JoinableQueue τ) : JoinableQueue τ :=
  { q with items := q.items.tail, gets := q.gets + 1 }

/-- `none` is the `ValueError` of a `task_done` that was called too many times. -/
def taskDone (q : JoinableQueue τ) : Option (JoinableQueue τ) :=
  match q.unfinished with
  | 0 => none
  | unfinished + 1 => some { q with unfinished := unfinished, dones := q.dones + 1 }

end JoinableQueue

/-- What can be in the input queue: an item of a partition, `None` or an end marker. -/
inductive Item (α : Type u) where
  | data (value : α)
  | none
  | endPartition
deriving DecidableEq, Repr

structure Entry (α : Type u) where
  call : Nat
  item : Item α
deriving DecidableEq, Repr

structure Datum (α : Type u) where
  call : Nat
  value : α
deriving DecidableEq, Repr

structure Returned (α : Type u) (β : Type v) where
  call : Nat
  items : List (Item α)
  results : List β
deriving DecidableEq, Repr

/-- Where the Spark task is in `_inference`; `fed` is what it has put so far. -/
inductive Feeder (α : Type u) (β : Type v) where
  | idle
  | feeding (fed rest : List (Item α)) (count : Nat)
  | joining (fed : List (Item α)) (count : Nat)
  | reading (fed : List (Item α)) (count : Nat) (results : List β)
  | reporting (fed : List (Item α)) (count : Nat) (results : List β)

/-- Where the TensorFlow process is in `next_batch` and `batch_results`. -/
inductive Consumer (α : Type u) (β : Type v) where
  | ready
  | batching (batchSize : Nat) (batch : List (Datum α))
  | holding (batchSize : Nat) (batch : List (Datum α)) (entry : Entry α)
  | computing (batch : List (Datum α))
  | publishing (results : List β)

structure State (α : Type u) (β : Type v) where
  trainMode : Bool
  doneFeeding : Bool
  queueIn : JoinableQueue (Entry α)
  queueOut : JoinableQueue β
  feeder : Feeder α β
  consumer : Consumer α β
  returned : List (Returned α β)
  batches : List (List (Datum α))
  answers : List (Datum α × β)

inductive FeederAction (α : Type u) where
  | inference (items : List (Item α))
  | put
  | join
  | getResult
  | resultDone

inductive ConsumerAction (β : Type v) where
  | nextBatch (batchSize : Nat)
  | get
  | taskDone
  | batchResults (results : List β)
  | putResult

inductive Action (α : Type u) (β : Type v) where
  | feeder (action : FeederAction α)
  | consumer (action : ConsumerAction β)

inductive Raised where
  | taskDoneTooManyTimes
deriving DecidableEq, Repr

variable {α : Type u} {β : Type v}

def State.call (s : State α β) : Nat := s.returned.length

def State.returnBatch (s : State α β) (batch : List (Datum α)) : State α β :=
  { s with consumer := .computing batch, batches := s.batches ++ [batch] }

/-- `while len(batch) < batch_size`: another turn of the loop or the return of the batch. -/
def State.loop (s : State α β) (batchSize : Nat) (batch : List (Datum α)) : State α β :=
  if batch.length < batchSize then { s with consumer := .batching batchSize batch }
  else s.returnBatch batch

/-- What `next_batch` does with the item it fetched, apart from `task_done`. -/
def State.take (s : State α β) (batchSize : Nat) (batch : List (Datum α)) (entry : Entry α) :
    State α β :=
  match entry.item with
  | .none => { s with doneFeeding := true }.returnBatch batch
  | .endPartition =>
    if !s.trainMode && 0 < batch.length then s.returnBatch batch
    else s.loop batchSize batch
  | .data value => s.loop batchSize (batch ++ [⟨entry.call, value⟩])

def State.return (s : State α β) (items : List (Item α)) (results : List β) : State α β :=
  { s with
    feeder := .idle
    returned := s.returned ++ [⟨s.call, items, results⟩] }

def feederStep (s : State α β) : FeederAction α → Outcome (State α β) Raised
  | .inference items =>
    match s.feeder with
    | .idle => .next { s with feeder := .feeding [] items 0 }
    | _ => .blocked
  | .put =>
    match s.feeder with
    | .feeding fed (item :: rest) count =>
      .next { s with
        queueIn := s.queueIn.put ⟨s.call, item⟩
        feeder := .feeding (fed ++ [item]) rest (count + 1) }
    | .feeding fed [] count =>
      let s' := { s with queueIn := s.queueIn.put ⟨s.call, .endPartition⟩ }
      if count = 0 then .next (s'.return fed [])
      else .next { s' with feeder := .joining fed count }
    | _ => .blocked
  | .join =>
    match s.feeder with
    | .joining fed count =>
      if s.queueIn.unfinished = 0 then .next { s with feeder := .reading fed count [] }
      else .blocked
    | _ => .blocked
  | .getResult =>
    match s.feeder, s.queueOut.items with
    | .reading fed (count + 1) results, result :: _ =>
      .next { s with
        queueOut := s.queueOut.fetch
        feeder := .reporting fed count (results ++ [result]) }
    | _, _ => .blocked
  | .resultDone =>
    match s.feeder with
    | .reporting fed count results =>
      match s.queueOut.taskDone with
      | none => .failed .taskDoneTooManyTimes
      | some queueOut =>
        let s' := { s with queueOut := queueOut }
        if count = 0 then .next (s'.return fed results)
        else .next { s' with feeder := .reading fed count results }
    | _ => .blocked

def consumerStep (s : State α β) : ConsumerAction β → Outcome (State α β) Raised
  | .nextBatch batchSize =>
    match s.consumer with
    | .ready => .next (s.loop batchSize [])
    | _ => .blocked
  | .get =>
    match s.consumer, s.queueIn.items with
    | .batching batchSize batch, entry :: _ =>
      .next { s with
        queueIn := s.queueIn.fetch
        consumer := .holding batchSize batch entry }
    | _, _ => .blocked
  | .taskDone =>
    match s.consumer with
    | .holding batchSize batch entry =>
      match s.queueIn.taskDone with
      | none => .failed .taskDoneTooManyTimes
      | some queueIn => .next ({ s with queueIn := queueIn }.take batchSize batch entry)
    | _ => .blocked
  | .batchResults results =>
    match s.consumer with
    | .computing batch =>
      if results.length = batch.length then
        .next { s with
          consumer := .publishing results
          answers := s.answers ++ batch.zip results }
      else .blocked
    | _ => .blocked
  | .putResult =>
    match s.consumer with
    | .publishing (result :: rest) =>
      .next { s with
        queueOut := s.queueOut.put result
        consumer := .publishing rest }
    | .publishing [] => .next { s with consumer := .ready }
    | _ => .blocked

def step (s : State α β) : Action α β → Outcome (State α β) Raised
  | .feeder action => feederStep s action
  | .consumer action => consumerStep s action

def State.init (trainMode : Bool) : State α β where
  trainMode := trainMode
  doneFeeding := false
  queueIn := .empty
  queueOut := .empty
  feeder := .idle
  consumer := .ready
  returned := []
  batches := []
  answers := []

/-- The numbers of a queue when `held` of the fetched items still miss their `task_done`. -/
structure JoinableQueue.Balanced {τ : Type u} (q : JoinableQueue τ) (held : Nat) : Prop where
  unfinished : q.unfinished = q.items.length + held
  gets : q.gets = q.dones + held
  puts : q.puts = q.gets + q.items.length

namespace JoinableQueue.Balanced

variable {τ : Type u} {q : JoinableQueue τ} {held : Nat}

theorem put (h : q.Balanced held) (item : τ) : (q.put item).Balanced held := by
  obtain ⟨hUnfinished, hGets, hPuts⟩ := h
  constructor
  · simp only [JoinableQueue.put, length_append, length_singleton]
    omega
  · exact hGets
  · simp only [JoinableQueue.put, length_append, length_singleton]
    omega

theorem fetch (h : q.Balanced held) {item : τ} {rest : List τ} (hItems : q.items = item :: rest) :
    q.fetch.Balanced (held + 1) := by
  obtain ⟨hUnfinished, hGets, hPuts⟩ := h
  rw [hItems, length_cons] at hUnfinished hPuts
  constructor
  · simp only [JoinableQueue.fetch, hItems, tail_cons]
    omega
  · simp only [JoinableQueue.fetch]
    omega
  · simp only [JoinableQueue.fetch, hItems, tail_cons]
    omega

theorem taskDone (h : q.Balanced (held + 1)) :
    ∃ q', q.taskDone = some q' ∧ q'.items = q.items ∧ q'.Balanced held := by
  obtain ⟨hUnfinished, hGets, hPuts⟩ := h
  rw [← Nat.add_assoc] at hUnfinished
  refine ⟨{ q with unfinished := q.items.length + held, dones := q.dones + 1 }, ?_, rfl, rfl, ?_,
    hPuts⟩
  · simp only [JoinableQueue.taskDone, hUnfinished]
  · change q.gets = q.dones + 1 + held
    omega

end JoinableQueue.Balanced

def Item.value? : Item α → Option α
  | .data value => some value
  | .none => Option.none
  | .endPartition => Option.none

def Entry.datum? (e : Entry α) : Option (Datum α) := e.item.value?.map (Datum.mk e.call)

def Feeder.fed : Feeder α β → List (Item α)
  | .idle => []
  | .feeding fed _ _ => fed
  | .joining fed _ => fed
  | .reading fed _ _ => fed
  | .reporting fed _ _ => fed

def Feeder.read : Feeder α β → List β
  | .reading _ _ results => results
  | .reporting _ _ results => results
  | _ => []

def Feeder.Counted : Feeder α β → Prop
  | .idle => True
  | .feeding fed _ count => count = fed.length
  | .joining fed count => count = fed.length
  | .reading fed count results => count + results.length = fed.length
  | .reporting fed count results => count + results.length = fed.length

def Feeder.held : Feeder α β → Nat
  | .reporting _ _ _ => 1
  | _ => 0

def Consumer.pending : Consumer α β → List (Datum α)
  | .batching _ batch => batch
  | .holding _ batch entry => batch ++ entry.datum?.toList
  | .computing batch => batch
  | _ => []

def Consumer.unsent : Consumer α β → List β
  | .publishing results => results
  | _ => []

def Consumer.held : Consumer α β → Nat
  | .holding _ _ _ => 1
  | _ => 0

def State.answersOf (s : State α β) (call : Nat) : List (Datum α × β) :=
  s.answers.filter (·.1.call = call)

def State.pending (s : State α β) : List (Datum α) :=
  s.consumer.pending ++ s.queueIn.items.filterMap Entry.datum?

def State.unread (s : State α β) : List β := s.queueOut.items ++ s.consumer.unsent

def State.Settled (s : State α β) (r : Returned α β) : Prop :=
  ∃ values, r.items = values.map Item.data ∧
    (s.answersOf r.call).map (·.1.value) = values ∧ (s.answersOf r.call).map (·.2) = r.results

structure Sound (s : State α β) : Prop where
  counted : s.feeder.Counted
  data : (s.answersOf s.call).map Prod.fst ++ s.pending =
    (s.feeder.fed.filterMap Item.value?).map (Datum.mk s.call)
  results : (s.answersOf s.call).map Prod.snd = s.feeder.read ++ s.unread
  past : ∀ a ∈ s.answers, a.1.call ≤ s.call
  numbered : s.returned.map (·.call) = range s.call
  settled : ∀ r ∈ s.returned, s.Settled r
  unmixed : ∀ batch ∈ s.batches, ∀ d ∈ batch, ∀ d' ∈ batch, d.call = d'.call
  queueIn : s.queueIn.Balanced s.consumer.held
  queueOut : s.queueOut.Balanced s.feeder.held

theorem sound_init (trainMode : Bool) : Sound (State.init trainMode : State α β) where
  counted := trivial
  data := rfl
  results := rfl
  past := by simp [State.init]
  numbered := rfl
  settled := by simp [State.init]
  unmixed := by simp [State.init]
  queueIn := ⟨rfl, rfl, rfl⟩
  queueOut := ⟨rfl, rfl, rfl⟩

variable {s s' : State α β}

theorem Sound.call_of_pending (h : Sound s) {d : Datum α} (hd : d ∈ s.pending) :
    d.call = s.call := by
  have hMem : d ∈ (s.answersOf s.call).map Prod.fst ++ s.pending := mem_append_right _ hd
  rw [h.data] at hMem
  obtain ⟨value, _, rfl⟩ := mem_map.mp hMem
  rfl

theorem Sound.lt_of_returned (h : Sound s) {r : Returned α β} (hr : r ∈ s.returned) :
    r.call < s.call := by
  have hMem := mem_map_of_mem (f := Returned.call) hr
  rw [h.numbered] at hMem
  exact mem_range.mp hMem

theorem Sound.drained (h : Sound s) (hRead : s.feeder.read.length = s.feeder.fed.length) :
    s.pending = [] ∧ s.unread = [] ∧
      (s.feeder.fed.filterMap Item.value?).length = s.feeder.fed.length := by
  have hData := congrArg length h.data
  have hResults := congrArg length h.results
  have hValues : (s.feeder.fed.filterMap Item.value?).length ≤ s.feeder.fed.length :=
    length_filterMap_le _ _
  simp only [length_append, length_map] at hData hResults
  refine ⟨?_, ?_, ?_⟩
  · apply eq_nil_of_length_eq_zero
    omega
  · apply eq_nil_of_length_eq_zero
    omega
  · omega

theorem map_data_of_length_eq {items : List (Item α)}
    (hLength : (items.filterMap Item.value?).length = items.length) :
    items = (items.filterMap Item.value?).map Item.data := by
  induction items with
  | nil => rfl
  | cons item rest ih =>
    have hRest : (rest.filterMap Item.value?).length ≤ rest.length := length_filterMap_le _ _
    cases item with
    | data value =>
      simp only [filterMap_cons, Item.value?, length_cons, Nat.add_right_cancel_iff]
        at hLength
      simp only [filterMap_cons, Item.value?, map_cons, ← ih hLength]
    | none =>
      simp only [filterMap_cons, Item.value?, length_cons] at hLength
      omega
    | endPartition =>
      simp only [filterMap_cons, Item.value?, length_cons] at hLength
      omega

theorem Sound.return (h : Sound s) (hRead : s.feeder.read.length = s.feeder.fed.length)
    (hHeld : s.feeder.held = 0) : Sound (s.return s.feeder.fed s.feeder.read) := by
  obtain ⟨hPending, hUnread, hValues⟩ := h.drained hRead
  have hCall : (s.return s.feeder.fed s.feeder.read).call = s.call + 1 := by
    simp [State.return, State.call]
  have hNew : s.answersOf (s.call + 1) = [] := by
    apply filter_eq_nil_iff.mpr
    intro a ha
    have hLe := h.past a ha
    simp only [decide_eq_true_eq]
    omega
  refine ⟨trivial, ?_, ?_, ?_, ?_, ?_, h.unmixed, h.queueIn, ?_⟩
  · rw [hCall]
    change (s.answersOf (s.call + 1)).map Prod.fst ++ s.pending = []
    rw [hNew, hPending]
    rfl
  · rw [hCall]
    change (s.answersOf (s.call + 1)).map Prod.snd = [] ++ s.unread
    rw [hNew, hUnread]
    rfl
  · intro a ha
    rw [hCall]
    exact Nat.le_succ_of_le (h.past a ha)
  · rw [hCall, range_succ, ← h.numbered]
    exact map_append
  · intro r hr
    rcases mem_append.mp hr with hOld | hLast
    · exact h.settled r hOld
    · rw [mem_singleton.mp hLast]
      refine ⟨s.feeder.fed.filterMap Item.value?, map_data_of_length_eq hValues, ?_, ?_⟩
      · have hData := congrArg (map Datum.value) h.data
        rw [hPending, append_nil, map_map, map_map] at hData
        exact hData.trans (map_id _)
      · have hResults := h.results
        rw [hUnread, append_nil] at hResults
        exact hResults
  · have hOut := h.queueOut
    rw [hHeld] at hOut
    exact hOut

theorem Sound.setFeeder (h : Sound s) (feeder : Feeder α β) (hFed : feeder.fed = s.feeder.fed)
    (hRead : feeder.read = s.feeder.read) (hCounted : feeder.Counted)
    (hHeld : feeder.held = s.feeder.held) : Sound { s with feeder := feeder } where
  counted := hCounted
  data := by
    rw [hFed]
    exact h.data
  results := by
    rw [hRead]
    exact h.results
  past := h.past
  numbered := h.numbered
  settled := h.settled
  unmixed := h.unmixed
  queueIn := h.queueIn
  queueOut := by
    rw [hHeld]
    exact h.queueOut

variable {fed : List (Item α)} {count : Nat} {results : List β}

section

variable (h : Sound s)
include h

theorem Sound.putItem {rest : List (Item α)} {item : Item α}
    (hFeeder : s.feeder = .feeding fed (item :: rest) count) :
    Sound
      { s with
        queueIn := s.queueIn.put ⟨s.call, item⟩
        feeder := .feeding (fed ++ [item]) rest (count + 1) } := by
  obtain ⟨hCounted, hData, hResults, hPast, hNumbered, hSettled, hUnmixed, hIn, hOut⟩ := h
  rw [hFeeder] at hCounted hData hResults hOut
  refine ⟨?_, ?_, hResults, hPast, hNumbered, hSettled, hUnmixed, hIn.put _, hOut⟩
  · have hCount : count = fed.length := hCounted
    simp only [Feeder.Counted, length_append, length_singleton, hCount]
  · change (s.answersOf s.call).map Prod.fst ++
        (s.consumer.pending ++ (s.queueIn.items ++ [Entry.mk s.call item]).filterMap Entry.datum?) =
      ((fed ++ [item]).filterMap Item.value?).map (Datum.mk s.call)
    have hNew : [Entry.mk s.call item].filterMap Entry.datum? =
        ([item].filterMap Item.value?).map (Datum.mk s.call) := by
      cases item <;> rfl
    have hOld : (fed.filterMap Item.value?).map (Datum.mk s.call) =
        (s.answersOf s.call).map Prod.fst ++ s.pending := hData.symm
    rw [filterMap_append, filterMap_append, map_append, hNew, hOld, State.pending]
    simp only [append_assoc]

theorem Sound.putMarker : Sound { s with queueIn := s.queueIn.put ⟨s.call, .endPartition⟩ } := by
  refine { h with data := ?_, queueIn := h.queueIn.put _ }
  simp only [State.pending, JoinableQueue.put, filterMap_append]
  rw [show [Entry.mk s.call (Item.endPartition : Item α)].filterMap Entry.datum? = [] from rfl,
    append_nil]
  exact h.data

theorem Sound.getResult {rest : List β}
    {result : β} (hFeeder : s.feeder = .reading fed (count + 1) results)
    (hItems : s.queueOut.items = result :: rest) :
    Sound
      { s with
        queueOut := s.queueOut.fetch
        feeder := .reporting fed count (results ++ [result]) } := by
  obtain ⟨hCounted, hData, hResults, hPast, hNumbered, hSettled, hUnmixed, hIn, hOut⟩ := h
  rw [hFeeder] at hCounted hData hResults hOut
  refine ⟨?_, hData, ?_, hPast, hNumbered, hSettled, hUnmixed, hIn, hOut.fetch hItems⟩
  · have hCount : count + 1 + results.length = fed.length := hCounted
    simp only [Feeder.Counted, length_append, length_singleton]
    omega
  · simp only [Feeder.read, State.unread, hItems] at hResults
    simp only [Feeder.read, State.unread, JoinableQueue.fetch, hItems, tail_cons]
    refine hResults.trans ?_
    simp only [append_assoc, cons_append, nil_append]

theorem Sound.consume (doneFeeding : Bool) (queueIn : JoinableQueue (Entry α))
    (consumer : Consumer α β) (batches : List (List (Datum α)))
    (hPending : consumer.pending ++ queueIn.items.filterMap Entry.datum? = s.pending)
    (hUnsent : consumer.unsent = s.consumer.unsent)
    (hBatches : ∀ batch ∈ batches, ∀ d ∈ batch, ∀ d' ∈ batch, d.call = d'.call)
    (hIn : queueIn.Balanced consumer.held) :
    Sound
      { s with
        doneFeeding := doneFeeding, queueIn := queueIn, consumer := consumer,
        batches := batches } where
  counted := h.counted
  data := by
    rw [State.pending, hPending]
    exact h.data
  results := by
    rw [State.unread, hUnsent]
    exact h.results
  past := h.past
  numbered := h.numbered
  settled := h.settled
  unmixed := hBatches
  queueIn := hIn
  queueOut := h.queueOut

theorem Sound.returnBatch (doneFeeding : Bool) (queueIn : JoinableQueue (Entry α))
    (batch : List (Datum α)) (hPending : batch ++ queueIn.items.filterMap Entry.datum? = s.pending)
    (hUnsent : s.consumer.unsent = []) (hIn : queueIn.Balanced 0) :
    Sound ({ s with doneFeeding := doneFeeding, queueIn := queueIn }.returnBatch batch) := by
  refine h.consume doneFeeding queueIn (.computing batch) _ hPending hUnsent.symm ?_ hIn
  intro batch' hMem
  rcases mem_append.mp hMem with hOld | hNew
  · exact h.unmixed batch' hOld
  · rw [mem_singleton.mp hNew]
    have hCall : ∀ d ∈ batch, d.call = s.call := by
      intro d hd
      apply h.call_of_pending
      rw [← hPending]
      exact mem_append_left _ hd
    intro d hd d' hd'
    rw [hCall d hd, hCall d' hd']

theorem Sound.loop (queueIn : JoinableQueue (Entry α)) (batchSize : Nat) (batch : List (Datum α))
    (hPending : batch ++ queueIn.items.filterMap Entry.datum? = s.pending)
    (hUnsent : s.consumer.unsent = []) (hIn : queueIn.Balanced 0) :
    Sound ({ s with queueIn := queueIn }.loop batchSize batch) := by
  rw [State.loop]
  split
  · exact h.consume s.doneFeeding queueIn (.batching batchSize batch) s.batches hPending
      hUnsent.symm h.unmixed hIn
  · exact h.returnBatch s.doneFeeding queueIn batch hPending hUnsent hIn

variable {batch : List (Datum α)}

theorem Sound.take {batchSize : Nat} {entry : Entry α}
    (hConsumer : s.consumer = .holding batchSize batch entry) :
    ∃ queueIn, s.queueIn.taskDone = some queueIn ∧
      Sound ({ s with queueIn := queueIn }.take batchSize batch entry) := by
  have hIn := h.queueIn
  rw [hConsumer] at hIn
  obtain ⟨queueIn, hDone, hItems, hBalanced⟩ := hIn.taskDone
  refine ⟨queueIn, hDone, ?_⟩
  have hUnsent : s.consumer.unsent = [] := by rw [hConsumer]; rfl
  have hPending : s.pending =
      batch ++ (entry.datum?.toList ++ queueIn.items.filterMap Entry.datum?) := by
    rw [State.pending, hConsumer, hItems, ← append_assoc]
    rfl
  obtain ⟨call, item⟩ := entry
  cases item with
  | data value =>
    refine h.loop queueIn batchSize (batch ++ [⟨call, value⟩]) ?_ hUnsent hBalanced
    rw [hPending, append_assoc]
    rfl
  | none => exact h.returnBatch true queueIn batch hPending.symm hUnsent hBalanced
  | endPartition =>
    simp only [State.take]
    split
    · exact h.returnBatch s.doneFeeding queueIn batch hPending.symm hUnsent hBalanced
    · exact h.loop queueIn batchSize batch hPending.symm hUnsent hBalanced

theorem Sound.batchResults (hConsumer : s.consumer = .computing batch)
    (hLength : results.length = batch.length) :
    Sound
      { s with
        consumer := .publishing results
        answers := s.answers ++ batch.zip results } := by
  have hCall : ∀ a ∈ batch.zip results, a.1.call = s.call := by
    intro a ha
    apply h.call_of_pending
    rw [State.pending, hConsumer]
    exact mem_append_left _ (of_mem_zip ha).1
  have hOwn : (s.answers ++ batch.zip results).filter (·.1.call = s.call) =
      s.answersOf s.call ++ batch.zip results := by
    have hAll : (batch.zip results).filter (·.1.call = s.call) = batch.zip results := by
      apply filter_eq_self.mpr
      intro a ha
      exact decide_eq_true (hCall a ha)
    rw [filter_append, hAll]
    rfl
  have hPending : s.pending = batch ++ s.queueIn.items.filterMap Entry.datum? := by
    rw [State.pending, hConsumer]
    rfl
  have hUnread : s.unread = s.queueOut.items := by
    rw [State.unread, hConsumer]
    exact append_nil _
  have hIn := h.queueIn
  rw [hConsumer] at hIn
  refine ⟨h.counted, ?_, ?_, ?_, h.numbered, ?_, h.unmixed, hIn, h.queueOut⟩
  · change ((s.answers ++ batch.zip results).filter (·.1.call = s.call)).map Prod.fst ++
        ([] ++ s.queueIn.items.filterMap Entry.datum?) = _
    rw [hOwn, map_append, map_fst_zip (Nat.le_of_eq hLength.symm), nil_append, append_assoc,
      ← hPending]
    exact h.data
  · change ((s.answers ++ batch.zip results).filter (·.1.call = s.call)).map Prod.snd =
      s.feeder.read ++ (s.queueOut.items ++ results)
    rw [hOwn, map_append, map_snd_zip (Nat.le_of_eq hLength), h.results, hUnread, append_assoc]
  · intro a ha
    rcases mem_append.mp ha with hOld | hNew
    · exact h.past a hOld
    · exact Nat.le_of_eq (hCall a hNew)
  · intro r hr
    have hOther : (batch.zip results).filter (·.1.call = r.call) = [] := by
      apply filter_eq_nil_iff.mpr
      intro a ha
      have hLt := h.lt_of_returned hr
      have hEq := hCall a ha
      simp only [decide_eq_true_eq]
      omega
    have hSame : (s.answers ++ batch.zip results).filter (·.1.call = r.call) =
        s.answersOf r.call := by
      rw [filter_append, hOther, append_nil]
      rfl
    obtain ⟨values, hItems, hValues, hResults⟩ := h.settled r hr
    exact ⟨values, hItems, (congrArg _ hSame).trans hValues, (congrArg _ hSame).trans hResults⟩

theorem Sound.putResult {result : β} {rest : List β}
    (hConsumer : s.consumer = .publishing (result :: rest)) :
    Sound
      { s with
        queueOut := s.queueOut.put result
        consumer := .publishing rest } := by
  have hData := h.data
  have hResults := h.results
  have hIn := h.queueIn
  rw [State.pending, hConsumer] at hData
  rw [State.unread, hConsumer] at hResults
  rw [hConsumer] at hIn
  refine
    { h with
      data := hData, results := hResults.trans ?_, queueIn := hIn, queueOut := h.queueOut.put _ }
  simp only [State.unread, JoinableQueue.put, Consumer.unsent, append_assoc,
    cons_append, nil_append]

theorem Sound.resultDone (hFeeder : s.feeder = .reporting fed count results) :
    ∃ queueOut, s.queueOut.taskDone = some queueOut ∧
      Sound { s with queueOut := queueOut, feeder := .reading fed count results } := by
  obtain ⟨hCounted, hData, hResults, hPast, hNumbered, hSettled, hUnmixed, hIn, hOut⟩ := h
  rw [hFeeder] at hCounted hData hResults hOut
  obtain ⟨queueOut, hDone, hItems, hBalanced⟩ := hOut.taskDone
  refine ⟨queueOut, hDone, hCounted, hData, ?_, hPast, hNumbered, hSettled, hUnmixed, hIn,
    hBalanced⟩
  rw [State.unread, ← hItems] at hResults
  exact hResults

theorem feederStep_sound (action : FeederAction α) :
    (∃ s', feederStep s action = .next s' ∧ Sound s') ∨ feederStep s action = .blocked := by
  cases action with
  | inference items =>
    rw [feederStep]
    split
    · rename_i hFeeder
      refine .inl ⟨_, rfl, h.setFeeder (.feeding [] items 0) ?_ ?_ rfl ?_⟩
      · rw [hFeeder]; rfl
      · rw [hFeeder]; rfl
      · rw [hFeeder]; rfl
    · exact .inr rfl
  | put =>
    rw [feederStep]
    split
    · rename_i hFeeder
      exact .inl ⟨_, rfl, h.putItem hFeeder⟩
    · rename_i fed count hFeeder
      have hCount : count = fed.length := by
        have hCounted := h.counted
        rw [hFeeder] at hCounted
        exact hCounted
      left
      split
      · rename_i hZero
        have hRead : s.feeder.read.length = s.feeder.fed.length := by
          rw [hFeeder]
          exact hZero.symm.trans hCount
        have hReturn := h.putMarker.return hRead (by rw [hFeeder]; rfl)
        simp only [hFeeder] at hReturn
        exact ⟨_, rfl, hReturn⟩
      · refine ⟨_, rfl, h.putMarker.setFeeder (.joining fed count) ?_ ?_ hCount ?_⟩
        · rw [hFeeder]; rfl
        · rw [hFeeder]; rfl
        · rw [hFeeder]; rfl
    · exact .inr rfl
  | join =>
    rw [feederStep]
    split
    · rename_i fed count hFeeder
      split
      · refine .inl ⟨_, rfl, h.setFeeder (.reading fed count []) ?_ ?_ ?_ ?_⟩
        · rw [hFeeder]; rfl
        · rw [hFeeder]; rfl
        · have hCounted := h.counted
          rw [hFeeder] at hCounted
          exact hCounted
        · rw [hFeeder]; rfl
      · exact .inr rfl
    · exact .inr rfl
  | getResult =>
    rw [feederStep]
    split
    · rename_i hFeeder hItems
      exact .inl ⟨_, rfl, h.getResult hFeeder hItems⟩
    · exact .inr rfl
  | resultDone =>
    rw [feederStep]
    split
    · rename_i fed count results hFeeder
      obtain ⟨queueOut, hDone, hReading⟩ := h.resultDone hFeeder
      simp only [hDone]
      left
      split
      · rename_i hZero
        have hLength : count + results.length = fed.length := hReading.counted
        refine ⟨_, rfl, hReading.return (hLength.symm.trans ?_).symm rfl⟩
        rw [hZero, Nat.zero_add]
        rfl
      · exact ⟨_, rfl, hReading⟩
    · exact .inr rfl

theorem consumerStep_sound (action : ConsumerAction β) :
    (∃ s', consumerStep s action = .next s' ∧ Sound s') ∨ consumerStep s action = .blocked := by
  have hIn := h.queueIn
  cases action with
  | nextBatch batchSize =>
    rw [consumerStep]
    split
    · rename_i hConsumer
      rw [hConsumer] at hIn
      refine .inl ⟨_, rfl, h.loop s.queueIn batchSize [] ?_ ?_ hIn⟩
      · rw [State.pending, hConsumer]; rfl
      · rw [hConsumer]; rfl
    · exact .inr rfl
  | get =>
    rw [consumerStep]
    split
    · rename_i batchSize batch entry rest hConsumer hItems
      rw [hConsumer] at hIn
      refine .inl ⟨_, rfl, h.consume s.doneFeeding s.queueIn.fetch (.holding batchSize batch entry)
        s.batches ?_ ?_ h.unmixed (hIn.fetch hItems)⟩
      · rw [State.pending, hConsumer, JoinableQueue.fetch, hItems]
        simp only [Consumer.pending, append_assoc]
        congr 1
        rw [filterMap_cons]
        cases entry.datum? <;> rfl
      · rw [hConsumer]; rfl
    · exact .inr rfl
  | taskDone =>
    rw [consumerStep]
    split
    · rename_i hConsumer
      obtain ⟨queueIn, hDone, hTaken⟩ := h.take hConsumer
      rw [hDone]
      exact .inl ⟨_, rfl, hTaken⟩
    · exact .inr rfl
  | batchResults results =>
    rw [consumerStep]
    split
    · rename_i hConsumer
      split
      · rename_i hLength
        exact .inl ⟨_, rfl, h.batchResults hConsumer hLength⟩
      · exact .inr rfl
    · exact .inr rfl
  | putResult =>
    rw [consumerStep]
    split
    · rename_i hConsumer
      exact .inl ⟨_, rfl, h.putResult hConsumer⟩
    · rename_i hConsumer
      rw [hConsumer] at hIn
      refine .inl ⟨_, rfl, h.consume s.doneFeeding s.queueIn .ready s.batches ?_ ?_ h.unmixed hIn⟩
      · rw [State.pending, hConsumer]; rfl
      · rw [hConsumer]; rfl
    · exact .inr rfl

theorem sound_step (action : Action α β) :
    (∃ s', step s action = .next s' ∧ Sound s') ∨ step s action = .blocked := by
  cases action with
  | feeder action => exact feederStep_sound h action
  | consumer action => exact consumerStep_sound h action

end

theorem sound_of_reach {trainMode : Bool}
    (hRun : Reach step anyStep (State.init trainMode) s) : Sound s := by
  refine hRun.invariant Sound (sound_init trainMode) ?_
  intro s action s' hSound _ hNext
  rcases sound_step hSound action with ⟨s'', hStep, hSound'⟩ | hBlocked
  · cases hStep.symm.trans hNext
    exact hSound'
  · cases hBlocked.symm.trans hNext

def feed (actions : List (FeederAction α)) : List (Action α β) := actions.map .feeder

def consumeBatch (gets : Nat) (results : List β) : List (Action α β) :=
  .consumer (.nextBatch 2) ::
    ((replicate gets [Action.consumer .get, .consumer .taskDone]).flatten ++
      .consumer (.batchResults results) ::
        replicate (results.length + 1) (.consumer .putResult))

end TensorFlowOnSpark.Feeding
