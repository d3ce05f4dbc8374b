import TensorFlowOnSpark.Lib.Lane
import TensorFlowOnSpark.Rdma.TensorBuffer

/-!
# What a channel does with one key

The keys of a channel share its queues and the two `Process_CQ` threads and nothing else.
-/

namespace TensorFlowOnSpark.Rdma

open Framework Transition Lane List Function

structure View where
  send : SendSide
  recv : ReceiveSide
  toSender : List ToSender
  toReceiver : List BufferRequest
  wire : List Posted
  arrived : Nat
  completed : Nat
  senderPoint : Option SenderPoint
  receiverPoint : Option ReceiverPoint

def Channel.view {κ : Type} [DecidableEq κ] (s : Channel κ) (k : κ) : View where
  send := s.sender k
  recv := s.receiver k
  toSender := lane k s.toSender
  toReceiver := lane k s.toReceiver
  wire := lane k s.wire
  arrived := s.arrived.count k
  completed := s.completed.count k
  senderPoint := slot k s.senderCq
  receiverPoint := slot k s.receiverCq

@[simp] def ToSender.isIdle : ToSender → Bool
  | .bufferIdle => true
  | _ => false

@[simp] def ToSender.isResponse : ToSender → Bool
  | .bufferResponse _ _ => true
  | _ => false

@[simp] def SenderPoint.inResponse : SenderPoint → Bool
  | .setRemoteMR _ | .setLocalIdle | .setRemoteIdle => true
  | .parseCompleted | .schedule => false

namespace View

/-- Posted writes whose `BUFFER_IDLE` the sender has not handled. -/
def outstanding (v : View) : Nat :=
  v.wire.length + v.arrived + v.recv.callbacks.length + v.recv.idling + v.toSender.countP (·.isIdle)

def asked (v : View) : Nat :=
  v.send.requeue.countP (·.2.isSome) + v.send.requests.length + v.toReceiver.length +
    v.receiverPoint.isSome.toNat

def unanswered (v : View) : Nat :=
  v.asked + v.toSender.countP (·.isResponse) + (v.senderPoint.any (·.inResponse)).toNat

def ledger (v : View) : Ledger where
  localStatus := v.send.buffer.localStatus
  remoteStatus := v.send.buffer.remoteStatus
  posting := v.send.posting.length
  outstanding := v.outstanding
  uncompleted := v.wire.length + v.completed
  unanswered := v.unanswered

structure Guards where
  send : View → Prop
  pop : View → Prop

inductive Step (sent : Int → Value) (g : Guards) (v : View) : View → Prop where
  | request (stepId : Int) :
      Step sent g v { v with
        recv := { v.recv with callbackTable := v.recv.callbackTable.insert stepId }
        toSender := v.toSender ++ [.tensorRequest stepId] }
  | tensorRequest (stepId : Int) (rest : List ToSender)
      (head : v.toSender = .tensorRequest stepId :: rest) (free : v.senderPoint = none) :
      Step sent g v { v with
        send := { v.send with
          buffer := v.send.buffer.enqueueItem stepId
          requested := v.send.requested ++ [stepId] }
        toSender := rest, senderPoint := some .schedule }
  | bufferIdle (rest : List ToSender) (head : v.toSender = .bufferIdle :: rest)
      (free : v.senderPoint = none) :
      Step sent g v { v with
        send := { v.send with buffer := v.send.buffer.setBufferStatus .remoteSide .idle }
        toSender := rest, senderPoint := some .schedule }
  | bufferResponse (size : Nat) (mr : RemoteMR) (rest : List ToSender)
      (head : v.toSender = .bufferResponse size mr :: rest) (free : v.senderPoint = none)
      (agree : size = v.send.buffer.size) :
      Step sent g v { v with toSender := rest, senderPoint := some (.setRemoteMR mr) }
  | completion (n : Nat) (head : v.completed = n + 1) (free : v.senderPoint = none) :
      Step sent g v { v with
        send := { v.send with buffer := v.send.buffer.setBufferStatus .localSide .idle }
        completed := n, senderPoint := some .parseCompleted }
  | setRemoteMR (mr : RemoteMR) (point : v.senderPoint = some (.setRemoteMR mr)) :
      Step sent g v { v with
        send := { v.send with
          buffer := { v.send.buffer with remote := some mr, remoteStatus := .idle } }
        senderPoint := some .setLocalIdle }
  | setLocalIdle (point : v.senderPoint = some .setLocalIdle) :
      Step sent g v { v with
        send := { v.send with buffer := v.send.buffer.setBufferStatus .localSide .idle }
        senderPoint := some .setRemoteIdle }
  | setRemoteIdle (point : v.senderPoint = some .setRemoteIdle) :
      Step sent g v { v with
        send := { v.send with buffer := v.send.buffer.setBufferStatus .remoteSide .idle }
        senderPoint := some .schedule }
  | parseCompleted (point : v.senderPoint = some .parseCompleted) :
      Step sent g v { v with senderPoint := some .schedule }
  | schedule (point : v.senderPoint = some .schedule) :
      Step sent g v { v with
        send := { v.send with tasks := v.send.tasks + 1 }, senderPoint := none }
  | popEmpty (n : Nat) (task : v.send.tasks = n + 1) (empty : v.send.buffer.queue = [])
      (ok : g.pop v) :
      Step sent g v { v with send := { v.send with tasks := n } }
  | pop (n : Nat) (stepId : Int) (rest : List Int) (task : v.send.tasks = n + 1)
      (head : v.send.buffer.queue = stepId :: rest) :
      Step sent g v { v with
        send := { v.send with
          tasks := n, buffer := { v.send.buffer with queue := rest }
          receiving := v.send.receiving ++ [stepId] } }
  | allocate (stepId : Int) (mr : RemoteMR) (mem : stepId ∈ v.send.receiving)
      (free : v.send.buffer.localStatus = .none ∨
        v.send.buffer.size < (sent stepId).bufferSize ∧ v.send.buffer.Ready) :
      Step sent g v { v with
        send := { v.send with
          buffer := { v.send.buffer with
            self := some mr, size := (sent stepId).bufferSize, contents := none
            allocations := v.send.buffer.allocations + 1, localStatus := .idle }
          receiving := v.send.receiving.erase stepId
          requeue := v.send.requeue ++ [(stepId, some (sent stepId).bufferSize)] } }
  | start (stepId : Int) (mem : stepId ∈ v.send.receiving) (ready : v.send.buffer.Ready)
      (fits : (sent stepId).bufferSize ≤ v.send.buffer.size) (ok : g.send v) :
      Step sent g v { v with
        send := { v.send with
          buffer := v.send.buffer.markBusy, receiving := v.send.receiving.erase stepId
          posting := v.send.posting ++ [stepId] } }
  | defer (stepId : Int) (mem : stepId ∈ v.send.receiving)
      (memory : v.send.buffer.localStatus ≠ .none) (busy : ¬v.send.buffer.Ready) :
      Step sent g v { v with
        send := { v.send with
          receiving := v.send.receiving.erase stepId
          requeue := v.send.requeue ++ [(stepId, none)] } }
  | post (stepId : Int) (mem : stepId ∈ v.send.posting)
      (fits : (sent stepId).bufferSize ≤ v.send.buffer.size) :
      Step sent g v { v with
        send := { v.send with
          buffer := { v.send.buffer with contents := some stepId }
          posting := v.send.posting.erase stepId, written := v.send.written ++ [stepId] }
        wire := v.wire ++ [{
          stepId := stepId
          bytes := if (sent stepId).isDead then RdmaMessage.kMessageTotalBytes
            else (sent stepId).bufferSize
          remote := v.send.buffer.remote
          source := v.send.buffer.allocations }] }
  | putBack (stepId : Int) (request : Option Nat) (mem : (stepId, request) ∈ v.send.requeue) :
      Step sent g v { v with
        send := { v.send with
          buffer := v.send.buffer.enqueueItem stepId
          requeue := v.send.requeue.erase (stepId, request)
          requests := v.send.requests ++ request.toList } }
  | sendRequest (size : Nat) (mr : RemoteMR) (mem : size ∈ v.send.requests) :
      Step sent g v { v with
        send := { v.send with requests := v.send.requests.erase size }
        toReceiver := v.toReceiver ++ [⟨size, mr⟩] }
  | deliver (w : Posted) (rest : List Posted) (head : v.wire = w :: rest) :
      Step sent g v { v with
        recv := { v.recv with buffer := { v.recv.buffer with contents := v.send.buffer.contents } }
        wire := rest, arrived := v.arrived + 1, completed := v.completed + 1 }
  | bufferRequest (request : BufferRequest) (rest : List BufferRequest)
      (head : v.toReceiver = request :: rest) (free : v.receiverPoint = none) :
      Step sent g v { v with
        recv := { v.recv with
          buffer := { v.recv.buffer with remote := some request.mr, remoteStatus := .idle } }
        toReceiver := rest, receiverPoint := some (.createCPUBuffer request.size) }
  | createCPUBuffer (size : Nat) (mr : RemoteMR)
      (point : v.receiverPoint = some (.createCPUBuffer size)) :
      Step sent g v { v with
        recv := { v.recv with
          buffer := { v.recv.buffer with
            self := some mr, size := size, contents := none
            allocations := v.recv.buffer.allocations + 1, localStatus := .idle } }
        receiverPoint := some (.respond size) }
  | respond (size : Nat) (own : RemoteMR) (point : v.receiverPoint = some (.respond size))
      (memory : v.recv.buffer.self = some own) :
      Step sent g v { v with
        toSender := v.toSender ++ [.bufferResponse size own], receiverPoint := none }
  | tensorWrite (n : Nat) (stepId : Int) (head : v.arrived = n + 1)
      (found : v.recv.buffer.contents = some stepId) :
      Step sent g v { v with
        recv := { v.recv with callbacks := v.recv.callbacks ++ [stepId] }, arrived := n }
  | recvCallback (stepId found : Int) (mem : stepId ∈ v.recv.callbacks)
      (contents : v.recv.buffer.contents = some found) :
      Step sent g v { v with
        recv := { v.recv with
          callbacks := v.recv.callbacks.erase stepId
          callbackTable := v.recv.callbackTable.erase stepId
          idling := v.recv.idling + 1, decoded := v.recv.decoded ++ [(stepId, found)] } }
  | sendIdle (n : Nat) (callback : v.recv.idling = n + 1) :
      Step sent g v { v with
        recv := { v.recv with idling := n }, toSender := v.toSender ++ [.bufferIdle] }

section Ledger

variable {sent : Int → Value} {g : Guards} {v v' : View}

theorem countP_erase_of_mem {α : Type} [BEq α] [LawfulBEq α] (p : α → Bool) {l : List α} {a : α}
    (h : a ∈ l) : l.countP p = (l.erase a).countP p + (p a).toNat := by
  rw [(perm_cons_erase h).countP_eq p, countP_cons]
  cases p a <;> rfl

attribute [local simp] ledger outstanding unanswered asked RdmaBuffer.enqueueItem
  RdmaBuffer.setBufferStatus RdmaBuffer.markBusy

theorem Step.ledger_move (h : Step sent g v v') {maySend mayGrow : Ledger → Prop}
    (hSend : g.send v → maySend v.ledger)
    (hGrow : ∀ stepId, v.send.buffer.size < (sent stepId).bufferSize → v.send.buffer.Ready →
      mayGrow v.ledger) :
    Ledger.Move maySend mayGrow v.ledger v'.ledger := by
  cases h with
  | request stepId => exact .of_eq (by simp)
  | tensorRequest stepId rest head free => exact .of_eq (by simp [head, free])
  | bufferIdle rest head free =>
    convert Ledger.Move.release v.ledger (v.outstanding - 1) ?_ using 1
    · simp [head, free]
    · simp [head]
      omega
  | bufferResponse size mr rest head free agree =>
    apply Ledger.Move.of_eq
    simp [head, free]
    omega
  | completion n head free =>
    convert Ledger.Move.complete v.ledger (v.wire.length + n) ?_ using 1
    · simp [free]
    · simp [head, Nat.add_assoc]
  | setRemoteMR mr point =>
    convert Ledger.Move.learn v.ledger ?_ using 1
    · simp [point]
    · simp [point]
  | setLocalIdle point =>
    convert Ledger.Move.resetLocal v.ledger ?_ using 1
    · simp [point]
    · simp [point]
  | setRemoteIdle point =>
    convert Ledger.Move.answered v.ledger (v.unanswered - 1) ?_ using 1
    · simp [point]
    · simp [point]
  | parseCompleted point => exact .of_eq (by simp [point])
  | schedule point => exact .of_eq (by simp [point])
  | popEmpty n task empty ok => exact .of_eq (by simp)
  | pop n stepId rest task head => exact .of_eq (by simp)
  | allocate stepId mr mem free =>
    convert Ledger.Move.allocate v.ledger ?_ using 1
    · simp
      omega
    · exact free.imp_right fun ⟨hLarge, hReady⟩ => ⟨hGrow stepId hLarge hReady, hReady⟩
  | start stepId mem ready fits ok =>
    convert Ledger.Move.start v.ledger ready.1 ready.2 (hSend ok) using 1
    simp
  | defer stepId mem memory busy => exact .of_eq (by simp)
  | post stepId mem fits =>
    have hPos := length_pos_of_mem mem
    convert Ledger.Move.post v.ledger (v.send.posting.length - 1) ?_ using 1
    · simp [length_erase_of_mem mem]
      omega
    · simp
      omega
  | putBack stepId request mem =>
    have hCount := countP_erase_of_mem (fun r => r.2.isSome) mem
    cases request with
    | none => exact .of_eq (by simp [hCount])
    | some size =>
      apply Ledger.Move.of_eq
      simp [hCount]
      omega
  | sendRequest size mr mem =>
    have hPos := length_pos_of_mem mem
    apply Ledger.Move.of_eq
    simp [length_erase_of_mem mem]
    omega
  | deliver w rest head =>
    apply Ledger.Move.of_eq
    simp [head]
    omega
  | bufferRequest request rest head free => exact .of_eq (by simp [head, free, Nat.add_assoc])
  | createCPUBuffer size mr point => exact .of_eq (by simp [point])
  | respond size own point memory =>
    apply Ledger.Move.of_eq
    simp [point]
    omega
  | tensorWrite n stepId head found =>
    apply Ledger.Move.of_eq
    simp [head]
    omega
  | recvCallback stepId found mem contents =>
    have hPos := length_pos_of_mem mem
    apply Ledger.Move.of_eq
    simp [length_erase_of_mem mem]
    omega
  | sendIdle n callback =>
    apply Ledger.Move.of_eq
    simp [callback]
    omega

theorem Step.flagged (hStep : Step sent g v v') (h : v.ledger.Flagged) : v'.ledger.Flagged := by
  have hMove : Ledger.Move (fun _ => True) (fun _ => True) v.ledger v'.ledger :=
    hStep.ledger_move (fun _ => trivial) fun _ _ _ => trivial
  exact h.move hMove

end Ledger

end View

namespace Channel

variable {κ : Type} [DecidableEq κ]

def Allowed (sent : κ → Int → Value) (g : κ → View.Guards) (s : Channel κ) : Action κ → Prop
  | .recvLocalDone k stepId _ =>
    (s.sender k).buffer.Ready → (sent k stepId).bufferSize ≤ (s.sender k).buffer.size →
      (g k).send (s.view k)
  | .sendNextItem k => (s.sender k).buffer.queue = [] → (g k).pop (s.view k)
  | _ => True

/-- A step of the channel that is a step of the view of `j` and of no other view. -/
structure StepOf (sent : κ → Int → Value) (g : κ → View.Guards) (s s' : Channel κ) (j : κ) :
    Prop where
  own : View.Step (sent j) (g j) (s.view j) (s'.view j)
  other : ∀ k, j ≠ k → s'.view k = s.view k

section Projection

variable {sent : κ → Int → Value} {g : κ → View.Guards} {s s' : Channel κ}

attribute [local simp] view modifySender modifyReceiver

theorem recvFromRemoteAsync_stepOf (j : κ) (stepId : Int) :
    StepOf sent g s (s.recvFromRemoteAsync j stepId) j := by
  constructor
  · convert View.Step.request stepId using 1
    simp [recvFromRemoteAsync]
  · intro k hk
    simp [recvFromRemoteAsync, lane_cons_of_ne hk, update_of_ne (Ne.symm hk)]

theorem processMessage_stepOf (h : s.processMessage = .next s') : ∃ j, StepOf sent g s s' j := by
  rw [processMessage.eq_def] at h
  split at h
  · rename_i j stepId rest hCq hTo
    cases h
    refine ⟨j, ?_, ?_⟩
    · convert View.Step.tensorRequest stepId (lane j rest) ?_ ?_ using 1
      · simp
      · simp [hTo]
      · simp [hCq]
    · intro k hk
      simp [hTo, hCq, lane_cons_of_ne hk, slot_some_of_ne hk, update_of_ne (Ne.symm hk)]
  · rename_i j rest hCq hTo
    cases h
    refine ⟨j, ?_, ?_⟩
    · convert View.Step.bufferIdle (lane j rest) ?_ ?_ using 1
      · simp
      · simp [hTo]
      · simp [hCq]
    · intro k hk
      simp [hTo, hCq, lane_cons_of_ne hk, slot_some_of_ne hk, update_of_ne (Ne.symm hk)]
  · rename_i j size mr rest hCq hTo
    split at h
    · rename_i hSize
      cases h
      refine ⟨j, ?_, ?_⟩
      · convert View.Step.bufferResponse size mr (lane j rest) ?_ ?_ ?_ using 1
        · simp
        · simp [hTo]
        · simp [hCq]
        · exact hSize
      · intro k hk
        simp [hTo, hCq, lane_cons_of_ne hk, slot_some_of_ne hk]
    · cases h
  · cases h

theorem processCompletion_stepOf (h : s.processCompletion = .next s') :
    ∃ j, StepOf sent g s s' j := by
  rw [processCompletion.eq_def] at h
  split at h
  · rename_i j rest hCq hCompleted
    cases h
    refine ⟨j, ?_, ?_⟩
    · convert View.Step.completion (rest.count j) ?_ ?_ using 1
      · simp
      · simp [hCompleted]
      · simp [hCq]
    · intro k hk
      simp [hCompleted, hCq, hk, slot_some_of_ne hk, update_of_ne (Ne.symm hk)]
  · cases h

theorem processSection_stepOf (h : s.processSection = .next s') : ∃ j, StepOf sent g s s' j := by
  rw [processSection.eq_def] at h
  split at h
  · rename_i j mr hCq
    cases h
    refine ⟨j, ?_, ?_⟩
    · convert View.Step.setRemoteMR mr ?_ using 1
      · simp
      · simp [hCq]
    · intro k hk
      simp [hCq, slot_some_of_ne hk, update_of_ne (Ne.symm hk)]
  · rename_i j hCq
    cases h
    refine ⟨j, ?_, ?_⟩
    · convert View.Step.setLocalIdle ?_ using 1
      · simp
      · simp [hCq]
    · intro k hk
      simp [hCq, slot_some_of_ne hk, update_of_ne (Ne.symm hk)]
  · rename_i j hCq
    cases h
    refine ⟨j, ?_, ?_⟩
    · convert View.Step.setRemoteIdle ?_ using 1
      · simp
      · simp [hCq]
    · intro k hk
      simp [hCq, slot_some_of_ne hk, update_of_ne (Ne.symm hk)]
  · rename_i j hCq
    split at h
    · cases h
      refine ⟨j, ?_, ?_⟩
      · convert View.Step.parseCompleted ?_ using 1
        · simp
        · simp [hCq]
      · intro k hk
        simp [hCq, slot_some_of_ne hk]
    · cases h
  · rename_i j hCq
    cases h
    refine ⟨j, ?_, ?_⟩
    · convert View.Step.schedule ?_ using 1
      · simp
      · simp [hCq]
    · intro k hk
      simp [hCq, slot_some_of_ne hk, update_of_ne (Ne.symm hk)]
  · cases h

variable {j : κ} {stepId : Int}

theorem modifySender_stepOf {f : SendSide → SendSide}
    (hOwn : View.Step (sent j) (g j) (s.view j) { s.view j with send := f (s.sender j) }) :
    StepOf sent g s (s.modifySender j f) j := by
  constructor
  · convert hOwn using 1
    simp
  · intro k hk
    simp [update_of_ne (Ne.symm hk)]

theorem modifyReceiver_stepOf {f : ReceiveSide → ReceiveSide}
    (hOwn : View.Step (sent j) (g j) (s.view j) { s.view j with recv := f (s.receiver j) }) :
    StepOf sent g s (s.modifyReceiver j f) j := by
  constructor
  · convert hOwn using 1
    simp
  · intro k hk
    simp [update_of_ne (Ne.symm hk)]

theorem sendNextItem_stepOf (hOk : Allowed sent g s (.sendNextItem j))
    (h : s.sendNextItem j = .next s') : StepOf sent g s s' j := by
  rw [sendNextItem.eq_def] at h
  split at h
  · cases h
  · rename_i tasks hTasks hQueue
    cases h
    exact modifySender_stepOf (.popEmpty tasks hTasks hQueue (hOk hQueue))
  · rename_i tasks stepId rest hTasks hQueue
    cases h
    exact modifySender_stepOf (.pop tasks stepId rest hTasks hQueue)

theorem recvLocalDone_stepOf {mr : RemoteMR} (hOk : Allowed sent g s (.recvLocalDone j stepId mr))
    (h : s.recvLocalDone sent j stepId mr = .next s') : StepOf sent g s s' j := by
  simp only [recvLocalDone] at h
  split at h
  · rename_i hMem
    split at h
    · rename_i hFree
      split at h
      · cases h
      · split at h
        · rename_i buffer hCreate
          cases h
          rw [RdmaBuffer.createCPUBuffer] at hCreate
          split at hCreate
          · cases hCreate
            exact modifySender_stepOf (.allocate stepId mr hMem hFree)
          · cases hCreate
        · cases h
    · rename_i hTaken
      obtain ⟨hMemory, hFits⟩ := not_or.mp hTaken
      split at h
      · rename_i hReady
        cases h
        have hFits : (sent j stepId).bufferSize ≤ (s.sender j).buffer.size := by
          by_contra hLarge
          exact hFits ⟨Nat.lt_of_not_le hLarge, hReady⟩
        exact modifySender_stepOf (.start stepId hMem hReady hFits (hOk hReady hFits))
      · rename_i hBusy
        cases h
        exact modifySender_stepOf (.defer stepId hMem hMemory hBusy)
  · cases h

theorem post_stepOf (h : s.post sent j stepId = .next s') : StepOf sent g s s' j := by
  simp only [post] at h
  split at h
  · rename_i hMem
    split at h
    · rename_i hSizes
      split at h
      · cases h
        constructor
        · convert View.Step.post stepId ?_ ?_ using 1
          · simp
          · exact hMem
          · exact hSizes.elim (fun h => h.1.le) And.left
        · intro k hk
          simp [lane_cons_of_ne hk, update_of_ne (Ne.symm hk)]
      · cases h
    · cases h
  · cases h

theorem putBack_stepOf {request : Option Nat}
    (h : s.putBack j stepId request = .next s') : StepOf sent g s s' j := by
  rw [putBack] at h
  split at h
  · rename_i hMem
    cases h
    exact modifySender_stepOf (.putBack stepId request hMem)
  · cases h

theorem sendRequest_stepOf {size : Nat} (h : s.sendRequest j size = .next s') :
    StepOf sent g s s' j := by
  rw [sendRequest.eq_def] at h
  split at h
  · rename_i mr _
    split at h
    · rename_i hMem
      cases h
      constructor
      · convert View.Step.sendRequest size mr ?_ using 1
        · simp
        · exact hMem
      · intro k hk
        simp [lane_cons_of_ne hk, update_of_ne (Ne.symm hk)]
    · cases h
  · cases h

theorem deliver_stepOf (h : s.deliver = .next s') : ∃ j, StepOf sent g s s' j := by
  rw [deliver.eq_def] at h
  split at h
  · cases h
  · rename_i j w rest hWire
    split at h
    · cases h
      refine ⟨j, ?_, ?_⟩
      · convert View.Step.deliver w (lane j rest) ?_ using 1
        · simp
        · simp [hWire]
      · intro k hk
        simp [hWire, hk, lane_cons_of_ne hk, update_of_ne (Ne.symm hk)]
    · cases h

theorem peerProcessMessage_stepOf (h : s.peerProcessMessage = .next s') :
    ∃ j, StepOf sent g s s' j := by
  rw [peerProcessMessage.eq_def] at h
  split at h
  · rename_i j request rest hCq hTo
    cases h
    refine ⟨j, ?_, ?_⟩
    · convert View.Step.bufferRequest request (lane j rest) ?_ ?_ using 1
      · simp
      · simp [hTo]
      · simp [hCq]
    · intro k hk
      simp [hTo, hCq, lane_cons_of_ne hk, slot_some_of_ne hk, update_of_ne (Ne.symm hk)]
  · cases h

theorem peerProcessSection_stepOf {mr : RemoteMR} (h : s.peerProcessSection mr = .next s') :
    ∃ j, StepOf sent g s s' j := by
  rw [peerProcessSection.eq_def] at h
  split at h
  · rename_i j size hCq
    split at h
    · rename_i buffer hCreate
      cases h
      rw [RdmaBuffer.createCPUBuffer] at hCreate
      split at hCreate
      · cases hCreate
        refine ⟨j, ?_, ?_⟩
        · convert View.Step.createCPUBuffer size mr ?_ using 1
          · simp
          · simp [hCq]
        · intro k hk
          simp [hCq, slot_some_of_ne hk, update_of_ne (Ne.symm hk)]
      · cases hCreate
    · cases h
  · rename_i j size hCq
    split at h
    · rename_i own hSelf
      cases h
      refine ⟨j, ?_, ?_⟩
      · convert View.Step.respond size own ?_ ?_ using 1
        · simp
        · simp [hCq]
        · exact hSelf
      · intro k hk
        simp [hCq, lane_cons_of_ne hk, slot_some_of_ne hk]
    · cases h
  · cases h

theorem peerProcessWrite_stepOf (h : s.peerProcessWrite = .next s') :
    ∃ j, StepOf sent g s s' j := by
  rw [peerProcessWrite.eq_def] at h
  split at h
  · rename_i j rest hCq hArrived
    split at h
    · rename_i stepId hFound
      cases h
      refine ⟨j, ?_, ?_⟩
      · convert View.Step.tensorWrite (rest.count j) stepId ?_ ?_ using 1
        · simp
        · simp [hArrived]
        · exact hFound
      · intro k hk
        simp [hArrived, hk, update_of_ne (Ne.symm hk)]
    · cases h
  · cases h

theorem runRecvCallback_stepOf
    (h : s.runRecvCallback sent j stepId = .next s') : StepOf sent g s s' j := by
  simp only [runRecvCallback] at h
  split at h
  · rename_i hMem
    split at h
    · split at h
      · split at h
        · cases h
        · rename_i found hFound
          split at h
          · cases h
            exact modifyReceiver_stepOf (.recvCallback stepId found hMem hFound)
          · cases h
      · cases h
    · cases h
  · cases h

theorem sendIdle_stepOf (h : s.sendIdle j = .next s') : StepOf sent g s s' j := by
  rw [sendIdle.eq_def] at h
  split at h
  · cases h
  · rename_i idling hIdling
    cases h
    constructor
    · convert View.Step.sendIdle idling ?_ using 1
      · simp
      · exact hIdling
    · intro k hk
      simp [lane_cons_of_ne hk, update_of_ne (Ne.symm hk)]

theorem exists_stepOf {a : Action κ} (hOk : Allowed sent g s a) (h : step sent s a = .next s') :
    ∃ j, StepOf sent g s s' j := by
  cases a with
  | recvFromRemoteAsync k stepId =>
    cases h
    exact ⟨k, recvFromRemoteAsync_stepOf k stepId⟩
  | processMessage => exact processMessage_stepOf h
  | processCompletion => exact processCompletion_stepOf h
  | processSection => exact processSection_stepOf h
  | sendNextItem k => exact ⟨k, sendNextItem_stepOf hOk h⟩
  | recvLocalDone k stepId mr => exact ⟨k, recvLocalDone_stepOf hOk h⟩
  | post k stepId => exact ⟨k, post_stepOf h⟩
  | putBack k stepId request => exact ⟨k, putBack_stepOf h⟩
  | sendRequest k size => exact ⟨k, sendRequest_stepOf h⟩
  | deliver => exact deliver_stepOf h
  | peerProcessMessage => exact peerProcessMessage_stepOf h
  | peerProcessSection mr => exact peerProcessSection_stepOf h
  | peerProcessWrite => exact peerProcessWrite_stepOf h
  | runRecvCallback k stepId => exact ⟨k, runRecvCallback_stepOf h⟩
  | sendIdle k => exact ⟨k, sendIdle_stepOf h⟩

theorem view_invariant {k : κ} (Inv : View → Prop) (hStart : Inv (({} : Channel κ).view k))
    (hStep : ∀ v v', Inv v → View.Step (sent k) (g k) v v' → Inv v')
    (hReach : Reach (step sent) (Allowed sent g) {} s) : Inv (s.view k) := by
  refine hReach.invariant (fun s => Inv (s.view k)) hStart ?_
  intro s a s' hInv hOk hNext
  obtain ⟨j, hOf⟩ := exists_stepOf hOk hNext
  by_cases hj : j = k
  · subst hj
    exact hStep _ _ hInv hOf.own
  · rw [hOf.other k hj]
    exact hInv

end Projection

end Channel

end TensorFlowOnSpark.Rdma
