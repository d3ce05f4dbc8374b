import TensorFlowOnSpark.Lib.Transition
import TensorFlowOnSpark.Rdma.Buffer
import Mathlib.Data.List.Basic
import Mathlib.Algebra.Order.Group.Nat

/-!
# Control messages between two peers

Each peer sends control messages from its `tx_message_buffer_` into the peer's
`rx_message_buffer_` and answers each message it has parsed with an ack, which carries no
data.
-/

namespace TensorFlowOnSpark.Rdma.Messages

open Transition List Function

inductive Packet where
  | message | ack
  deriving DecidableEq, Repr

inductive Event where
  | received (packet : Packet)
  | completed (packet : Packet)
  deriving DecidableEq, Repr

inductive Handler where
  | sendAck
  | callSendNextItem
  deriving DecidableEq, Repr

inductive Check where
  | uninitialised
  deriving DecidableEq, Repr

/-- `μ` is a message as `CreateMessage` returns it; messages in the queue are never acks. `rx` is
what was last written in `rx_message_buffer_`. A call of `SendNextItem` is in `calls` up to its
section; its message is then in `copying`, in `writing` once it is copied, on the `wire` once it
is posted and `unreported` once it is carried out. -/
structure Peer (μ : Type) where
  tx : RdmaBuffer μ μ := { localStatus := .idle, remoteStatus := .idle }
  rx : Option μ := none
  calls : Nat := 0
  copying : List μ := []
  writing : Nat := 0
  wire : List Packet := []
  unreported : List Packet := []
  cq : List Event := []
  handler : Option Handler := none
  enqueued : List μ := []
  popped : List μ := []
  parsed : List μ := []

inductive PeerAction (μ : Type) where
  | enqueueItem (m : μ)
  | call
  | sendNextItem
  | copy (m : μ)
  | write
  | report
  | processEvent
  | processSection

namespace Peer

variable {μ : Type} [DecidableEq μ]

/-- `EnqueueItem`, after which every caller calls `SendNextItem`. -/
def enqueueItem (a : Peer μ) (m : μ) : Peer μ :=
  { a with tx := a.tx.enqueueItem m, calls := a.calls + 1, enqueued := a.enqueued ++ [m] }

def call (a : Peer μ) : Peer μ := { a with calls := a.calls + 1 }

/-- The section of `RdmaMessageBuffer::SendNextItem`. -/
def sendNextItem (a : Peer μ) : Outcome (Peer μ) Check :=
  match a.calls, a.tx.queue with
  | 0, _ => .blocked
  | calls + 1, [] => .next { a with calls := calls }
  | calls + 1, m :: rest =>
    if a.tx.Ready then
      .next { a with
        tx := { a.tx.markBusy with queue := rest }, calls := calls
        copying := a.copying ++ [m], popped := a.popped ++ [m] }
    else .next { a with calls := calls }

def copy (a : Peer μ) (m : μ) : Outcome (Peer μ) Check :=
  if m ∈ a.copying then
    .next { a with
      tx := { a.tx with contents := some m }, copying := a.copying.erase m
      writing := a.writing + 1 }
  else .blocked

def write (a : Peer μ) : Outcome (Peer μ) Check :=
  match a.writing with
  | 0 => .blocked
  | writing + 1 => .next { a with writing := writing, wire := a.wire ++ [.message] }

def report (a : Peer μ) : Outcome (Peer μ) Check :=
  match a.unreported with
  | [] => .blocked
  | packet :: rest => .next { a with unreported := rest, cq := a.cq ++ [.completed packet] }

/-- `Process_CQ` takes the next completion and runs the first section of its handler. -/
def processEvent (a : Peer μ) : Outcome (Peer μ) Check :=
  match a.handler, a.cq with
  | none, .received .message :: rest =>
    match a.rx with
    | some m => .next { a with cq := rest, parsed := a.parsed ++ [m], handler := some .sendAck }
    | none => .failed .uninitialised
  | none, .received .ack :: rest =>
    .next { a with
      tx := a.tx.setBufferStatus .remoteSide .idle, cq := rest, handler := some .callSendNextItem }
  | none, .completed .message :: rest =>
    if a.tx.contents.isSome then
      .next { a with
        tx := a.tx.setBufferStatus .localSide .idle, cq := rest
        handler := some .callSendNextItem }
    else .failed .uninitialised
  | none, .completed .ack :: rest => .next { a with cq := rest }
  | _, _ => .blocked

def processSection (a : Peer μ) : Outcome (Peer μ) Check :=
  match a.handler with
  | some .sendAck => .next { a with handler := none, wire := a.wire ++ [.ack] }
  | some .callSendNextItem => .next { a with handler := none, calls := a.calls + 1 }
  | none => .blocked

def step (a : Peer μ) : PeerAction μ → Outcome (Peer μ) Check
  | .enqueueItem m => .next (a.enqueueItem m)
  | .call => .next a.call
  | .sendNextItem => a.sendNextItem
  | .copy m => a.copy m
  | .write => a.write
  | .report => a.report
  | .processEvent => a.processEvent
  | .processSection => a.processSection

def dispatched (a : Peer μ) (packet : Packet) (rest : List Packet) : Peer μ :=
  { a with wire := rest, unreported := a.unreported ++ [packet] }

def receive (a : Peer μ) (packet : Packet) (contents : Option μ) : Peer μ :=
  { a with
    rx := match packet with
      | .message => contents
      | .ack => a.rx
    cq := a.cq ++ [.received packet] }

end Peer

structure Peers (μ : Type) where
  peer : Bool → Peer μ := fun _ => {}

inductive Action (μ : Type) where
  | act (p : Bool) (action : PeerAction μ)
  | deliver (p : Bool)

variable {μ : Type} [DecidableEq μ]

def step (s : Peers μ) : Action μ → Outcome (Peers μ) Check
  | .act p action =>
    match (s.peer p).step action with
    | .next a => .next ⟨update s.peer p a⟩
    | .blocked => .blocked
    | .failed check => .failed check
  | .deliver p =>
    match (s.peer p).wire with
    | [] => .blocked
    | packet :: rest =>
      .next ⟨update
        (update s.peer p ((s.peer p).dispatched packet rest)) (!p)
        ((s.peer (!p)).receive packet (s.peer p).tx.contents)⟩

variable {μ : Type} [DecidableEq μ]

namespace Peer

/-- The steps of one peer, one constructor for each branch of its sections. -/
inductive Step (a : Peer μ) : Peer μ → Prop where
  | enqueueItem (m : μ) : Step a (a.enqueueItem m)
  | call : Step a a.call
  | skip (n : Nat) (call : a.calls = n + 1) (idle : a.tx.queue = [] ∨ ¬a.tx.Ready) :
      Step a { a with calls := n }
  | send (n : Nat) (m : μ) (rest : List μ) (call : a.calls = n + 1)
      (head : a.tx.queue = m :: rest) (ready : a.tx.Ready) :
      Step a { a with
        tx := { a.tx.markBusy with queue := rest }, calls := n
        copying := a.copying ++ [m], popped := a.popped ++ [m] }
  | copy (m : μ) (mem : m ∈ a.copying) :
      Step a { a with
        tx := { a.tx with contents := some m }, copying := a.copying.erase m
        writing := a.writing + 1 }
  | write (n : Nat) (copied : a.writing = n + 1) :
      Step a { a with writing := n, wire := a.wire ++ [.message] }
  | report (packet : Packet) (rest : List Packet) (head : a.unreported = packet :: rest) :
      Step a { a with unreported := rest, cq := a.cq ++ [.completed packet] }
  | receivedMessage (m : μ) (rest : List Event) (free : a.handler = none)
      (head : a.cq = .received .message :: rest) (found : a.rx = some m) :
      Step a { a with cq := rest, parsed := a.parsed ++ [m], handler := some .sendAck }
  | receivedAck (rest : List Event) (free : a.handler = none)
      (head : a.cq = .received .ack :: rest) :
      Step a { a with
        tx := a.tx.setBufferStatus .remoteSide .idle, cq := rest
        handler := some .callSendNextItem }
  | completedMessage (rest : List Event) (free : a.handler = none)
      (head : a.cq = .completed .message :: rest) :
      Step a { a with
        tx := a.tx.setBufferStatus .localSide .idle, cq := rest
        handler := some .callSendNextItem }
  | completedAck (rest : List Event) (free : a.handler = none)
      (head : a.cq = .completed .ack :: rest) : Step a { a with cq := rest }
  | sendAck (point : a.handler = some .sendAck) :
      Step a { a with handler := none, wire := a.wire ++ [.ack] }
  | callSendNextItem (point : a.handler = some .callSendNextItem) :
      Step a { a with handler := none, calls := a.calls + 1 }

variable {action : PeerAction μ}

theorem step_of_next {a a' : Peer μ} (h : a.step action = .next a') :
    Step a a' := by
  cases action with
  | enqueueItem m =>
    cases h
    exact .enqueueItem m
  | call =>
    cases h
    exact .call
  | sendNextItem =>
    simp only [step, sendNextItem.eq_def] at h
    split at h
    · cases h
    · rename_i n hCalls hQueue
      cases h
      exact .skip n hCalls (.inl hQueue)
    · rename_i n m rest hCalls hQueue
      split at h
      · rename_i hReady
        cases h
        exact .send n m rest hCalls hQueue hReady
      · rename_i hBusy
        cases h
        exact .skip n hCalls (.inr hBusy)
  | copy m =>
    simp only [step, copy] at h
    split at h
    · rename_i hMem
      cases h
      exact .copy m hMem
    · cases h
  | write =>
    simp only [step, write.eq_def] at h
    split at h
    · cases h
    · rename_i n hWriting
      cases h
      exact .write n hWriting
  | report =>
    simp only [step, report.eq_def] at h
    split at h
    · cases h
    · rename_i packet rest hHead
      cases h
      exact .report packet rest hHead
  | processEvent =>
    simp only [step, processEvent.eq_def] at h
    split at h
    · rename_i rest hFree hHead
      split at h
      · rename_i m hFound
        cases h
        exact .receivedMessage m rest hFree hHead hFound
      · cases h
    · rename_i rest hFree hHead
      cases h
      exact .receivedAck rest hFree hHead
    · rename_i rest hFree hHead
      split at h
      · cases h
        exact .completedMessage rest hFree hHead
      · cases h
    · rename_i rest hFree hHead
      cases h
      exact .completedAck rest hFree hHead
    · cases h
  | processSection =>
    simp only [step, processSection.eq_def] at h
    split at h
    · rename_i hPoint
      cases h
      exact .sendAck hPoint
    · rename_i hPoint
      cases h
      exact .callSendNextItem hPoint
    · cases h

theorem unread_of_failed {a : Peer μ} {check : Check} (h : a.step action = .failed check) :
    (∃ rest, a.cq = .received .message :: rest ∧ a.rx = none) ∨
      ∃ rest, a.cq = .completed .message :: rest ∧ a.tx.contents = none := by
  cases action with
  | enqueueItem m => cases h
  | call => cases h
  | sendNextItem =>
    simp only [step, sendNextItem.eq_def] at h
    split at h
    · cases h
    · cases h
    · split at h
      · cases h
      · cases h
  | copy m =>
    simp only [step, copy] at h
    split at h
    · cases h
    · cases h
  | write =>
    simp only [step, write.eq_def] at h
    split at h
    · cases h
    · cases h
  | report =>
    simp only [step, report.eq_def] at h
    split at h
    · cases h
    · cases h
  | processEvent =>
    simp only [step, processEvent.eq_def] at h
    split at h
    · rename_i rest hFree hHead
      split at h
      · cases h
      · rename_i hNone
        exact .inl ⟨rest, hHead, hNone⟩
    · cases h
    · rename_i rest hFree hHead
      split at h
      · cases h
      · rename_i hNone
        exact .inr ⟨rest, hHead, Option.not_isSome_iff_eq_none.mp hNone⟩
    · cases h
    · cases h
  | processSection =>
    simp only [step, processSection.eq_def] at h
    split at h
    · cases h
    · cases h
    · cases h

end Peer

@[simp] def Handler.isSendAck : Handler → Bool
  | .sendAck => true
  | .callSendNextItem => false

@[simp] def Handler.isCall : Handler → Bool
  | .callSendNextItem => true
  | .sendAck => false

def ledger {μ : Type} (a b : Peer μ) : Ledger where
  localStatus := a.tx.localStatus
  remoteStatus := a.tx.remoteStatus
  posting := a.copying.length + a.writing
  outstanding := a.wire.count .message + b.cq.count (.received .message) +
    (b.handler.any (·.isSendAck)).toNat + b.wire.count .ack + a.cq.count (.received .ack)
  uncompleted := a.wire.count .message + a.unreported.count .message +
    a.cq.count (.completed .message)
  unanswered := 0

abbrev Move : Ledger → Ledger → Prop := Ledger.Move Ledger.Settled fun _ => True

attribute [local simp] ledger Peer.enqueueItem Peer.call Peer.dispatched Peer.receive
  RdmaBuffer.enqueueItem RdmaBuffer.setBufferStatus RdmaBuffer.markBusy count_cons

section Ledger

variable {a a' b b' : Peer μ}

theorem sender_move (h : a.Step a') : Move (ledger a b) (ledger a' b) := by
  cases h with
  | enqueueItem m => exact .of_eq (by simp)
  | call => exact .of_eq (by simp)
  | skip n call idle => exact .of_eq (by simp)
  | send n m rest call head ready =>
    have hSettled : Ledger.Settled (ledger a b) := rfl
    convert Ledger.Move.start (ledger a b) ready.1 ready.2 hSettled using 1
    simp
    omega
  | copy m mem =>
    have hPos := length_pos_of_mem mem
    apply Ledger.Move.of_eq
    simp [length_erase_of_mem mem]
    omega
  | write n copied =>
    convert Ledger.Move.post (ledger a b) (a.copying.length + n) ?_ using 1
    · simp
      omega
    · simp [copied]
      omega
  | report packet rest head =>
    apply Ledger.Move.of_eq
    cases packet with
    | message =>
      simp [head]
      omega
    | ack => simp [head]
  | receivedMessage m rest free head found => exact .of_eq (by simp [head])
  | receivedAck rest free head =>
    convert Ledger.Move.release (ledger a b) ((ledger a b).outstanding - 1) ?_ using 1
    · simp [head]
    · simp [head]
      omega
  | completedMessage rest free head =>
    convert Ledger.Move.complete (ledger a b) ((ledger a b).uncompleted - 1) ?_ using 1
    · simp [head]
    · simp [head]
      omega
  | completedAck rest free head => exact .of_eq (by simp [head])
  | sendAck point => exact .of_eq (by simp)
  | callSendNextItem point => exact .of_eq (by simp)

theorem receiver_move (h : b.Step b') : Move (ledger a b) (ledger a b') := by
  apply Ledger.Move.of_eq
  cases h with
  | receivedMessage m rest free head found =>
    simp [head, free]
    omega
  | receivedAck rest free head => simp [head, free]
  | completedMessage rest free head => simp [head, free]
  | completedAck rest free head => simp [head]
  | sendAck point =>
    simp [point]
    omega
  | callSendNextItem point => simp [point]
  | _ => simp

end Ledger

section Deliver

variable {μ : Type} {a b : Peer μ} {packet : Packet} {rest : List Packet}

theorem deliver_move (head : a.wire = packet :: rest) :
    Move (ledger a b) (ledger (a.dispatched packet rest) (b.receive packet a.tx.contents)) := by
  apply Ledger.Move.of_eq
  cases packet with
  | message =>
    simp [head]
    omega
  | ack => simp [head]

theorem answer_move (head : b.wire = packet :: rest) :
    Move (ledger a b) (ledger (a.receive packet b.tx.contents) (b.dispatched packet rest)) := by
  apply Ledger.Move.of_eq
  cases packet with
  | message => simp [head]
  | ack =>
    simp [head]
    omega

end Deliver

section Link

variable {μ : Type}

/-- The message that has been popped at `a` and not been parsed at `b`, if there is one. -/
def inTransit (a b : Peer μ) : List μ :=
  a.copying ++ (if 0 < a.writing + a.wire.count .message then a.tx.contents.toList else []) ++
    (if 0 < b.cq.count (.received .message) then b.rx.toList else [])

def underway (a b : Peer μ) : Nat :=
  (ledger a b).posting + (ledger a b).outstanding + (ledger a b).uncompleted +
    (a.handler.any (·.isCall)).toNat

structure Link (a b : Peer μ) : Prop where
  exclusive : (ledger a b).Exclusive
  flagged : (ledger a b).Flagged
  memory : a.tx.localStatus ≠ .none
  source : 0 < a.writing + (ledger a b).uncompleted → a.tx.contents.isSome
  target : 0 < b.cq.count (.received .message) → b.rx.isSome
  enqueued : a.enqueued = a.popped ++ a.tx.queue
  popped : a.popped = b.parsed ++ inTransit a b
  awake : a.tx.queue ≠ [] → 0 < a.calls + underway a b

variable {a b : Peer μ}

theorem link_new : Link ({} : Peer μ) {} := by
  refine ⟨?_, ?_, by simp, by simp, by simp, rfl, rfl, by simp⟩
  · constructor <;> simp
  · constructor <;> simp

theorem Link.owner (h : Link a b) :
    a.copying.length + a.writing + (a.wire.count .message + b.cq.count (.received .message) +
      (b.handler.any (·.isSendAck)).toNat + b.wire.count .ack + a.cq.count (.received .ack)) ≤ 1 :=
  h.exclusive.remoteOwner

theorem Link.underway_of_busy (h : Link a b) (hBusy : ¬a.tx.Ready) : 0 < underway a b := by
  have hPos := h.flagged.pending h.memory hBusy
  have hAnswered : (ledger a b).unanswered = 0 := rfl
  simp only [underway]
  omega

end Link

section Steps

variable {a a' b b' : Peer μ}

theorem Link.sender (h : Link a b) (hStep : a.Step a') : Link a' b := by
  have hMove := sender_move (b := b) hStep
  have hExclusive := h.exclusive.move hMove
  have hFlagged := h.flagged.move hMove
  have hOwner := h.owner
  obtain ⟨hEx, -, hMemory, hSource, hTarget, hEnqueued, hPopped, hAwake⟩ := id h
  cases hStep with
  | enqueueItem m =>
    refine ⟨hExclusive, hFlagged, hMemory, hSource, hTarget, ?_, hPopped, ?_⟩
    · simp [hEnqueued]
    · intro _
      simp only [Peer.enqueueItem]
      omega
  | call =>
    refine ⟨hExclusive, hFlagged, hMemory, hSource, hTarget, hEnqueued, hPopped, ?_⟩
    intro _
    simp only [Peer.call]
    omega
  | skip n call idle =>
    refine ⟨hExclusive, hFlagged, hMemory, hSource, hTarget, hEnqueued, hPopped, ?_⟩
    intro hQueue
    rcases idle with hEmpty | hBusy
    · exact absurd hEmpty hQueue
    · exact Nat.add_pos_right _ (h.underway_of_busy hBusy)
  | send n m rest call head ready =>
    have hNone : a.copying.length + a.writing + _ + (a.wire.count .message + _ + _) = 0 :=
      hEx.free (.inr ready)
    have hCopying : a.copying = [] := length_eq_zero_iff.mp (by omega)
    have hWriting : a.writing + a.wire.count .message = 0 := by omega
    refine ⟨hExclusive, hFlagged, by simp, hSource, hTarget, ?_, ?_, ?_⟩
    · simp [hEnqueued, head]
    · have hReceived : b.cq.count (.received .message) = 0 := by
        have hOutstanding : (ledger a b).posting + (ledger a b).outstanding + _ = 0 :=
          hEx.free (.inr ready)
        simp only [ledger] at hOutstanding
        omega
      simp only [inTransit, hWriting, hReceived] at hPopped ⊢
      simp [hPopped]
    · intro _
      simp [underway]
  | copy m mem =>
    have hPos := length_pos_of_mem mem
    obtain ⟨only, hOnly⟩ := length_eq_one_iff.mp (show a.copying.length = 1 by omega)
    have hSame : m = only := by simpa [hOnly] using mem
    subst hSame
    refine ⟨hExclusive, hFlagged, hMemory, by simp, hTarget, hEnqueued, ?_, ?_⟩
    · have hZero : a.writing = 0 ∧ a.wire.count .message = 0 ∧
          b.cq.count (.received .message) = 0 := by omega
      simp only [inTransit, hOnly, hZero] at hPopped ⊢
      simpa using hPopped
    · intro _
      simp [underway]
  | write n copied =>
    refine ⟨hExclusive, hFlagged, hMemory, ?_, hTarget, hEnqueued, ?_, ?_⟩
    · intro _
      exact hSource (by omega)
    · have hZero : n = 0 ∧ a.wire.count .message = 0 := by omega
      simp only [inTransit, copied] at hPopped ⊢
      simpa [hZero] using hPopped
    · intro _
      simp [underway]
  | report packet rest head =>
    have hSame : ∀ e, (packet :: rest).count e + a.cq.count (.completed e) =
        rest.count e + (a.cq ++ [Event.completed packet]).count (.completed e) := by
      intro e
      simp
      omega
    have hMessages := hSame .message
    have hAcks : (a.cq ++ [Event.completed packet]).count (.received .ack) =
        a.cq.count (.received .ack) := by simp
    refine ⟨hExclusive, hFlagged, hMemory, ?_, hTarget, hEnqueued, hPopped, ?_⟩
    · intro hPos
      apply hSource
      simp only [ledger, head] at hPos ⊢
      omega
    · intro hQueue
      have hPos := hAwake hQueue
      simp only [underway, ledger, head] at hPos ⊢
      omega
  | receivedMessage m rest free head found =>
    refine ⟨hExclusive, hFlagged, hMemory, ?_, hTarget, hEnqueued, hPopped, ?_⟩
    · simpa [head] using hSource
    · simpa [underway, head, free] using hAwake
  | receivedAck rest free head =>
    refine ⟨hExclusive, hFlagged, hMemory, ?_, hTarget, hEnqueued, hPopped, ?_⟩
    · simpa [head] using hSource
    · intro _
      simp [underway]
  | completedMessage rest free head =>
    refine ⟨hExclusive, hFlagged, by simp, ?_, hTarget, hEnqueued, hPopped, ?_⟩
    · intro _
      exact hSource (by simp [head])
    · intro _
      simp [underway]
  | completedAck rest free head =>
    refine ⟨hExclusive, hFlagged, hMemory, ?_, hTarget, hEnqueued, hPopped, ?_⟩
    · simpa [head] using hSource
    · simpa [underway, head, free] using hAwake
  | sendAck point =>
    refine ⟨hExclusive, hFlagged, hMemory, ?_, hTarget, hEnqueued, ?_, ?_⟩
    · simpa using hSource
    · simpa [inTransit] using hPopped
    · simpa [underway, point] using hAwake
  | callSendNextItem point =>
    refine ⟨hExclusive, hFlagged, hMemory, hSource, hTarget, hEnqueued, hPopped, ?_⟩
    intro _
    simp

theorem Link.receiver (h : Link a b) (hStep : b.Step b') : Link a b' := by
  have hMove := receiver_move (a := a) hStep
  have hExclusive := h.exclusive.move hMove
  have hFlagged := h.flagged.move hMove
  have hOwner := h.owner
  obtain ⟨-, -, hMemory, hSource, hTarget, hEnqueued, hPopped, hAwake⟩ := h
  cases hStep with
  | report packet rest head =>
    refine ⟨hExclusive, hFlagged, hMemory, hSource, ?_, hEnqueued, ?_, ?_⟩
    · simpa using hTarget
    · simpa [inTransit] using hPopped
    · simpa [underway] using hAwake
  | receivedMessage m rest free head found =>
    have hZero : a.copying.length = 0 ∧ a.writing = 0 ∧ a.wire.count .message = 0 ∧
        rest.count (.received .message) = 0 := by
      simp only [head, count_cons_self] at hOwner
      omega
    obtain ⟨hCopying, hWriting, hWire, hRest⟩ := hZero
    rw [length_eq_zero_iff] at hCopying
    refine ⟨hExclusive, hFlagged, hMemory, hSource, ?_, hEnqueued, ?_, ?_⟩
    · simp [hRest]
    · simp only [inTransit, head, hCopying, hWriting, hWire, hRest, found] at hPopped ⊢
      simpa using hPopped
    · intro _
      simp [underway]
  | receivedAck rest free head =>
    refine ⟨hExclusive, hFlagged, hMemory, hSource, ?_, hEnqueued, ?_, ?_⟩
    · simpa [head] using hTarget
    · simpa [inTransit, head] using hPopped
    · simpa [underway, head, free] using hAwake
  | completedMessage rest free head =>
    refine ⟨hExclusive, hFlagged, hMemory, hSource, ?_, hEnqueued, ?_, ?_⟩
    · simpa [head] using hTarget
    · simpa [inTransit, head] using hPopped
    · simpa [underway, head, free] using hAwake
  | completedAck rest free head =>
    refine ⟨hExclusive, hFlagged, hMemory, hSource, ?_, hEnqueued, ?_, ?_⟩
    · simpa [head] using hTarget
    · simpa [inTransit, head] using hPopped
    · simpa [underway, head] using hAwake
  | sendAck point =>
    refine ⟨hExclusive, hFlagged, hMemory, hSource, hTarget, hEnqueued, hPopped, ?_⟩
    intro hQueue
    simp [underway]
  | callSendNextItem point =>
    refine ⟨hExclusive, hFlagged, hMemory, hSource, hTarget, hEnqueued, hPopped, ?_⟩
    simpa [underway, point] using hAwake
  | write n copied =>
    refine ⟨hExclusive, hFlagged, hMemory, hSource, hTarget, hEnqueued, hPopped, ?_⟩
    simpa [underway] using hAwake
  | _ => exact ⟨hExclusive, hFlagged, hMemory, hSource, hTarget, hEnqueued, hPopped, hAwake⟩

end Steps

section Deliver

variable {μ : Type} {a b : Peer μ} {packet : Packet} {rest : List Packet}

theorem Link.deliver (h : Link a b) (head : a.wire = packet :: rest) :
    Link (a.dispatched packet rest) (b.receive packet a.tx.contents) := by
  have hMove := deliver_move (b := b) head
  have hExclusive := h.exclusive.move hMove
  have hFlagged := h.flagged.move hMove
  have hOwner := h.owner
  obtain ⟨-, -, hMemory, hSource, hTarget, hEnqueued, hPopped, hAwake⟩ := h
  cases packet with
  | message =>
    have hZero : a.copying.length = 0 ∧ a.writing = 0 ∧ rest.count .message = 0 ∧
        b.cq.count (.received .message) = 0 := by
      simp only [head, count_cons_self] at hOwner
      omega
    obtain ⟨hCopying, hWriting, hRest, hReceived⟩ := hZero
    have hContents : a.tx.contents.isSome := hSource (by simp [head])
    refine ⟨hExclusive, hFlagged, hMemory, fun _ => hContents, fun _ => hContents, hEnqueued,
      ?_, ?_⟩
    · simp only [inTransit, head, hReceived] at hPopped
      simp only [inTransit, Peer.dispatched, hWriting, hRest]
      simpa using hPopped
    · intro _
      simp [underway]
  | ack =>
    refine ⟨hExclusive, hFlagged, hMemory, ?_, ?_, hEnqueued, ?_, ?_⟩
    · simpa [head] using hSource
    · simpa using hTarget
    · simpa [inTransit, head] using hPopped
    · simpa [underway, head] using hAwake

theorem Link.answer (h : Link a b) (head : b.wire = packet :: rest) :
    Link (a.receive packet b.tx.contents) (b.dispatched packet rest) := by
  have hMove := answer_move (a := a) head
  have hExclusive := h.exclusive.move hMove
  have hFlagged := h.flagged.move hMove
  obtain ⟨-, -, hMemory, hSource, hTarget, hEnqueued, hPopped, hAwake⟩ := h
  refine ⟨hExclusive, hFlagged, hMemory, ?_, hTarget, hEnqueued, hPopped, ?_⟩
  · simpa using hSource
  · cases packet with
    | message => simpa [underway, head] using hAwake
    | ack =>
      intro _
      simp [underway]

end Deliver

def Sound {μ : Type} (s : Peers μ) : Prop := ∀ p, Link (s.peer p) (s.peer !p)

theorem sound_step {s s' : Peers μ} {action : Action μ} (h : Sound s)
    (hNext : step s action = .next s') : Sound s' := by
  cases action with
  | act q action =>
    simp only [step] at hNext
    split at hNext
    · rename_i a hPeer
      cases hNext
      have hStep := Peer.step_of_next hPeer
      intro p
      by_cases hp : p = q
      · subst hp
        simpa using (h p).sender hStep
      · have hq : q = !p := Bool.eq_not.mpr (Ne.symm hp)
        subst hq
        simpa using (h p).receiver hStep
    · cases hNext
    · cases hNext
  | deliver q =>
    simp only [step] at hNext
    split at hNext
    · cases hNext
    · rename_i packet rest hWire
      cases hNext
      intro p
      by_cases hp : p = q
      · subst hp
        simpa using (h p).deliver hWire
      · have hq : q = !p := Bool.eq_not.mpr (Ne.symm hp)
        subst hq
        simpa using (h p).answer hWire

theorem sound_of_reach {s : Peers μ} (hReach : Reach step anyStep ({} : Peers μ) s) : Sound s :=
  hReach.invariant Sound (fun _ => link_new) fun _ _ _ hSound _ hNext => sound_step hSound hNext

theorem step_not_failed {s : Peers μ} (h : Sound s) (action : Action μ) (check : Check) :
    step s action ≠ .failed check := by
  intro hFailed
  cases action with
  | deliver p =>
    simp only [step] at hFailed
    split at hFailed
    · cases hFailed
    · cases hFailed
  | act p action =>
    simp only [step] at hFailed
    split at hFailed
    · cases hFailed
    · cases hFailed
    · rename_i check' hPeer
      rcases Peer.unread_of_failed hPeer with ⟨rest, hHead, hNone⟩ | ⟨rest, hHead, hNone⟩
      · have hReceive := h !p
        rw [Bool.not_not] at hReceive
        have hFound := hReceive.target (by simp [hHead])
        rw [hNone] at hFound
        cases hFound
      · have hFound := (h p).source (by simp [hHead])
        rw [hNone] at hFound
        cases hFound

def RxProtected {μ : Type} (s : Peers μ) (p : Bool) : Prop :=
  Event.received .message ∈ (s.peer !p).cq →
    Packet.message ∉ (s.peer p).wire ∧ (s.peer !p).cq.count (.received .message) = 1

def TxProtected {μ : Type} (s : Peers μ) (p : Bool) : Prop :=
  (s.peer p).copying ≠ [] → Packet.message ∉ (s.peer p).wire ∧
    Packet.message ∉ (s.peer p).unreported ∧ Event.completed .message ∉ (s.peer p).cq

/-- No write, completion or ack is in flight and no call of `SendNextItem` is scheduled. -/
structure Quiescent {μ : Type} (s : Peers μ) : Prop where
  calls : ∀ p, (s.peer p).calls = 0
  writers : ∀ p, (s.peer p).copying = [] ∧ (s.peer p).writing = 0
  writes : ∀ p, (s.peer p).wire = [] ∧ (s.peer p).unreported = []
  completions : ∀ p, (s.peer p).cq = [] ∧ (s.peer p).handler = none

section Protected

variable {μ : Type} {s : Peers μ} {p : Bool}

section

variable (h : Link (s.peer p) (s.peer !p))

include h

theorem Link.rxProtected : RxProtected s p := by
  intro hMem
  have hOwner := h.owner
  have hPos := count_pos_iff.mpr hMem
  have hWire : (s.peer p).wire.count .message = 0 := by omega
  exact ⟨count_eq_zero.mp hWire, by omega⟩

theorem Link.txProtected : TxProtected s p := by
  intro hCopying
  have hPos := length_pos_of_ne_nil hCopying
  have hOwner : (s.peer p).copying.length + _ + ((s.peer p).wire.count .message +
      (s.peer p).unreported.count .message + (s.peer p).cq.count (.completed .message)) ≤ 1 :=
    h.exclusive.localOwner
  refine ⟨count_eq_zero.mp ?_, count_eq_zero.mp ?_, count_eq_zero.mp ?_⟩
  all_goals omega

theorem Link.served (hQuiet : Quiescent s) :
    (s.peer p).tx.queue = [] ∧ (s.peer !p).parsed = (s.peer p).enqueued := by
  obtain ⟨hCopying, hWriting⟩ := hQuiet.writers p
  obtain ⟨hWire, hUnreported⟩ := hQuiet.writes p
  obtain ⟨hCq, hHandler⟩ := hQuiet.completions p
  obtain ⟨hPeerWire, -⟩ := hQuiet.writes !p
  obtain ⟨hPeerCq, hPeerHandler⟩ := hQuiet.completions !p
  have hEmpty : (s.peer p).tx.queue = [] := by
    by_contra hQueue
    have hPos := h.awake hQueue
    simp [underway, hQuiet.calls p, hCopying, hWriting, hWire, hUnreported, hCq, hHandler,
      hPeerWire, hPeerCq, hPeerHandler] at hPos
  have hTransit : inTransit (s.peer p) (s.peer !p) = [] := by
    simp [inTransit, hCopying, hWriting, hWire, hPeerCq]
  refine ⟨hEmpty, ?_⟩
  rw [h.enqueued, h.popped, hEmpty, hTransit, append_nil, append_nil]

end

end Protected

/-- The peer parses a prefix of what was popped, which is a prefix of what was enqueued; no memory
is overwritten too early, and nothing is left in the queue when nothing is under way. -/
theorem messages_delivered (s : Peers μ) (hReach : Reach step anyStep ({} : Peers μ) s) (p : Bool) :
    (s.peer !p).parsed <+: (s.peer p).popped ∧
    (s.peer p).enqueued = (s.peer p).popped ++ (s.peer p).tx.queue ∧
    RxProtected s p ∧ TxProtected s p ∧
    (∀ action check, step s action ≠ .failed check) ∧
    (Quiescent s → (s.peer p).tx.queue = [] ∧ (s.peer !p).parsed = (s.peer p).enqueued) := by
  have hSound := sound_of_reach hReach
  have hLink := hSound p
  exact ⟨⟨_, hLink.popped.symm⟩, hLink.enqueued, hLink.rxProtected, hLink.txProtected,
    step_not_failed hSound, hLink.served⟩

def exchange (p : Bool) (m : Nat) : List (Action Nat) :=
  [.act p .sendNextItem, .act p (.copy m), .act p .write, .deliver p, .act (!p) .processEvent,
    .act (!p) .processSection, .deliver (!p), .act p .processEvent, .act p .processSection,
    .act p .report, .act p .processEvent, .act p .processSection, .act (!p) .report,
    .act (!p) .processEvent]

theorem two_messages_delivered : ∃ s : Peers Nat, Reach step anyStep ({} : Peers Nat) s ∧
    (s.peer false).enqueued = [7, 8] ∧ (s.peer true).parsed <+: (s.peer false).popped ∧
    (s.peer true).parsed = [7, 8] := by
  obtain ⟨s, hReach, hTest⟩ := exists_reach_of_exec step ({} : Peers Nat) always anyStep_of_always
    ([.act false (.enqueueItem 7), .act false (.enqueueItem 8)] ++ exchange false 7 ++
      exchange false 8)
    (fun s => decide ((s.peer false).enqueued = [7, 8] ∧ (s.peer true).parsed = [7, 8])) rfl
  obtain ⟨hEnqueued, hParsed⟩ := of_decide_eq_true hTest
  exact ⟨s, hReach, hEnqueued, (messages_delivered s hReach false).1, hParsed⟩

end TensorFlowOnSpark.Rdma.Messages
