import TensorFlowOnSpark.Rdma.BufferView

/-!
# A posted tensor write has its buffers for itself

The three sections of the `BUFFER_RESPONSE` handler reset the flags of a buffer without
looking at them.
-/

namespace TensorFlowOnSpark.Rdma

open Framework Transition List Nat

namespace View

def Guards.any : Guards := ⟨fun _ => True, fun _ => True⟩

def Guards.settled : Guards := ⟨fun v => v.unanswered = 0, fun _ => True⟩

def fresh : View where
  send := {}
  recv := {}
  toSender := []
  toReceiver := []
  wire := []
  arrived := 0
  completed := 0
  senderPoint := none
  receiverPoint := none

theorem exclusive_fresh : fresh.ledger.Exclusive := by
  constructor <;> simp [fresh, ledger, outstanding]

def inTransit (v : View) : List Int :=
  v.recv.callbacks ++ (if v.arrived = 0 then [] else v.recv.buffer.contents.toList) ++
    v.wire.map (·.stepId)

structure OwnBytes (v : View) : Prop where
  exclusive : v.ledger.Exclusive
  source : ∀ w ∈ v.wire, v.send.buffer.contents = some w.stepId
  target : ∀ stepId ∈ v.recv.callbacks, v.recv.buffer.contents = some stepId
  decoded : ∀ p ∈ v.recv.decoded, p.1 = p.2
  written : v.send.written = v.recv.decoded.map Prod.fst ++ v.inTransit

variable {sent : Int → Value} {v v' : View}

section

variable (h : v.ledger.Exclusive)

include h

theorem exclusive_step (hStep : Step sent .settled v v') :
    v'.ledger.Exclusive := by
  have hMove : Ledger.Move Ledger.Settled (fun _ => True) v.ledger v'.ledger :=
    hStep.ledger_move id fun _ _ _ => trivial
  exact h.move hMove

theorem idle_of_free
    (hFree : v.send.buffer.localStatus = .none ∨
      v.send.buffer.localStatus = .idle ∧ v.send.buffer.remoteStatus = .idle) :
    v.outstanding = 0 := by
  have hZero : v.send.posting.length + v.outstanding + _ = 0 := h.free hFree
  omega

theorem idle_of_receiverPoint {point : ReceiverPoint}
    (hPoint : v.receiverPoint = some point) : v.outstanding = 0 := by
  have hPos : 0 < v.unanswered := by simp [unanswered, asked, hPoint]
  have hZero : v.send.posting.length + v.outstanding + _ = 0 := h.settled hPos
  omega

theorem idle_of_posting {stepId : Int} (hMem : stepId ∈ v.send.posting) :
    v.outstanding = 0 := by
  have hPos := length_pos_of_mem hMem
  have hOwner : v.send.posting.length + v.outstanding ≤ 1 := h.remoteOwner
  omega

end

theorem nothing_in_transit (h : v.outstanding = 0) :
    v.wire = [] ∧ v.arrived = 0 ∧ v.recv.callbacks = [] := by
  simp only [outstanding, Nat.add_eq_zero_iff, length_eq_zero_iff] at h
  exact ⟨h.1.1.1.1, h.1.1.1.2, h.1.1.2⟩

theorem ownBytes_step (h : v.OwnBytes) (hStep : Step sent .settled v v') : v'.OwnBytes := by
  have hNext := exclusive_step h.exclusive hStep
  obtain ⟨hEx, hSource, hTarget, hDecoded, hWritten⟩ := h
  have hOwner : v.send.posting.length + v.outstanding ≤ 1 := hEx.remoteOwner
  cases hStep with
  | allocate stepId mr mem free =>
    obtain ⟨hWire, -, -⟩ := nothing_in_transit (idle_of_free hEx (free.imp_right And.right))
    exact ⟨hNext, by simp [hWire], hTarget, hDecoded, hWritten⟩
  | post stepId mem fits =>
    obtain ⟨hWire, hArrived, hCallbacks⟩ := nothing_in_transit (idle_of_posting hEx mem)
    refine ⟨hNext, by simp [hWire], hTarget, hDecoded, ?_⟩
    simp only [inTransit] at hWritten ⊢
    simp [hWritten]
  | deliver w rest head =>
    have hCounts : rest.length = 0 ∧ v.arrived = 0 ∧ v.recv.callbacks.length = 0 := by
      simp only [outstanding, head, length_cons] at hOwner
      omega
    obtain ⟨hRest, hArrived, hCallbacks⟩ := hCounts
    rw [length_eq_zero_iff] at hRest hCallbacks
    have hContents := hSource w (by simp [head])
    refine ⟨hNext, by simp [hRest], by simp [hCallbacks], hDecoded, ?_⟩
    simp only [inTransit, head, hArrived, hContents] at hWritten ⊢
    simpa using hWritten
  | createCPUBuffer size mr point =>
    obtain ⟨hWire, hArrived, hCallbacks⟩ := nothing_in_transit (idle_of_receiverPoint hEx point)
    refine ⟨hNext, hSource, by simp [hCallbacks], hDecoded, ?_⟩
    simp only [inTransit, hArrived] at hWritten ⊢
    exact hWritten
  | tensorWrite n stepId head found =>
    have hCounts : n = 0 ∧ v.wire.length = 0 ∧ v.recv.callbacks.length = 0 := by
      simp only [outstanding] at hOwner
      omega
    obtain ⟨rfl, hWire, hCallbacks⟩ := hCounts
    rw [length_eq_zero_iff] at hWire hCallbacks
    refine ⟨hNext, hSource, by simp [hCallbacks, found], hDecoded, ?_⟩
    simp only [inTransit, head, found] at hWritten ⊢
    simpa using hWritten
  | recvCallback stepId found mem contents =>
    have hFound : found = stepId := by
      rw [hTarget stepId mem] at contents
      cases contents
      rfl
    have hCounts : v.arrived = 0 ∧ v.wire.length = 0 ∧ v.recv.callbacks.length = 1 := by
      have hPos := length_pos_of_mem mem
      simp only [outstanding] at hOwner
      omega
    obtain ⟨hArrived, hWire, hCallbacks⟩ := hCounts
    obtain ⟨only, hOnly⟩ := length_eq_one_iff.mp hCallbacks
    have hSame : stepId = only := by simpa [hOnly] using mem
    subst hSame hFound
    refine ⟨hNext, hSource, by simp [hOnly], ?_, ?_⟩
    · intro p hp
      rcases mem_append.mp hp with hOld | hNew
      · exact hDecoded p hOld
      · cases mem_singleton.mp hNew
        rfl
    · simp only [inTransit, hOnly] at hWritten ⊢
      simpa using hWritten
  | _ => exact ⟨hNext, hSource, hTarget, hDecoded, hWritten⟩

theorem undisturbed {g : Guards} (h : v.ledger.Exclusive) (hPos : 0 < v.outstanding)
    (hStep : Step sent g v v') :
    v'.send.written = v.send.written ∧
      v'.send.buffer.allocations = v.send.buffer.allocations ∧
      v'.recv.buffer.allocations = v.recv.buffer.allocations := by
  cases hStep with
  | allocate stepId mr mem free =>
    have hZero := idle_of_free h (free.imp_right And.right)
    omega
  | post stepId mem fits =>
    have hZero := idle_of_posting h mem
    omega
  | createCPUBuffer size mr point =>
    have hZero := idle_of_receiverPoint h point
    omega
  | _ => exact ⟨rfl, rfl, rfl⟩

def learned (known : Nat × Option RemoteMR) : ToSender → Nat × Option RemoteMR
  | .bufferResponse size mr => (size, some mr)
  | .tensorRequest _ | .bufferIdle => known

def believed (v : View) : Nat × Option RemoteMR :=
  v.toSender.foldl learned
    (v.send.buffer.size,
      match v.senderPoint with
      | some (.setRemoteMR mr) => some mr
      | _ => v.send.buffer.remote)

structure Agreement (v : View) : Prop where
  flagged : v.ledger.Flagged
  registered : ∀ size, v.receiverPoint = some (.respond size) → v.recv.buffer.size = size
  believed : v.asked = 0 → v.send.buffer.localStatus ≠ .none →
    v.recv.buffer.self.isSome ∧ v.believed = (v.recv.buffer.size, v.recv.buffer.self)

theorem flagged_fresh : fresh.ledger.Flagged := by
  constructor <;> simp [fresh, ledger, outstanding, unanswered, asked]

theorem allocated_of_unanswered (h : v.ledger.Flagged) (hPos : 0 < v.unanswered) :
    v.send.buffer.localStatus ≠ .none :=
  h.memory (Nat.add_pos_right _ hPos)

theorem allocated_of_completed (h : v.ledger.Flagged) (hPos : 0 < v.completed) :
    v.send.buffer.localStatus ≠ .none := by
  have hUncompleted : 0 < v.ledger.uncompleted := Nat.add_pos_right _ hPos
  exact h.memory (by omega)

attribute [local simp] View.believed learned RdmaBuffer.enqueueItem RdmaBuffer.setBufferStatus

theorem Agreement.of_believed_eq (h : v.Agreement) (hNext : v'.ledger.Flagged)
    (hPoint : v'.receiverPoint = v.receiverPoint) (hMemory : v'.recv.buffer = v.recv.buffer)
    (hAsked : v'.asked = 0 → v.asked = 0)
    (hLocal : v'.send.buffer.localStatus ≠ .none → v.send.buffer.localStatus ≠ .none)
    (hBelieved : v'.believed = v.believed) : v'.Agreement := by
  refine ⟨hNext, ?_, ?_⟩
  · rw [hPoint, hMemory]
    exact h.registered
  · intro hZero hAllocated
    rw [hMemory, hBelieved]
    exact h.believed (hAsked hZero) (hLocal hAllocated)

theorem agreement_step {g : Guards} (h : v.Agreement) (hStep : Step sent g v v') :
    v'.Agreement := by
  have hNext := hStep.flagged h.flagged
  cases hStep with
  | request stepId => exact h.of_believed_eq hNext rfl rfl id id (by simp)
  | tensorRequest stepId rest head free =>
    exact h.of_believed_eq hNext rfl rfl id id (by simp [head, free])
  | bufferIdle rest head free =>
    exact h.of_believed_eq hNext rfl rfl id id (by simp [head, free])
  | bufferResponse size mr rest head free agree =>
    exact h.of_believed_eq hNext rfl rfl id id (by simp [head, agree])
  | completion n head free =>
    have hLocal := allocated_of_completed h.flagged (head ▸ succ_pos n)
    exact h.of_believed_eq hNext rfl rfl id (fun _ => hLocal) (by simp [free])
  | setRemoteMR mr point => exact h.of_believed_eq hNext rfl rfl id id (by simp [point])
  | setLocalIdle point =>
    have hLocal := allocated_of_unanswered h.flagged (by simp [unanswered, point])
    exact h.of_believed_eq hNext rfl rfl id (fun _ => hLocal) (by simp [point])
  | setRemoteIdle point => exact h.of_believed_eq hNext rfl rfl id id (by simp [point])
  | parseCompleted point => exact h.of_believed_eq hNext rfl rfl id id (by simp [point])
  | schedule point => exact h.of_believed_eq hNext rfl rfl id id (by simp [point])
  | popEmpty n task empty ok => exact h.of_believed_eq hNext rfl rfl id id rfl
  | pop n stepId rest task head => exact h.of_believed_eq hNext rfl rfl id id rfl
  | allocate stepId mr mem free =>
    refine ⟨hNext, h.registered, ?_⟩
    intro hAsked
    simp [asked] at hAsked
  | start stepId mem ready fits ok =>
    exact h.of_believed_eq hNext rfl rfl id (fun _ => by simp [ready.1]) rfl
  | defer stepId mem memory busy =>
    exact h.of_believed_eq hNext rfl rfl (by simp [asked]) id rfl
  | post stepId mem fits => exact h.of_believed_eq hNext rfl rfl id id rfl
  | putBack stepId request mem =>
    have hCount := countP_erase_of_mem (fun r => r.2.isSome) mem
    have hAsked : v.send.requeue.countP (·.2.isSome) + v.send.requests.length =
        (v.send.requeue.erase (stepId, request)).countP (·.2.isSome) +
          (v.send.requests ++ request.toList).length := by
      cases request with
      | none => simp [hCount]
      | some size =>
        simp [hCount]
        omega
    exact h.of_believed_eq hNext rfl rfl (by simp only [asked]; omega) id rfl
  | sendRequest size mr mem =>
    refine ⟨hNext, h.registered, ?_⟩
    intro hAsked
    simp [asked] at hAsked
  | deliver w rest head => exact ⟨hNext, h.registered, h.believed⟩
  | bufferRequest request rest head free =>
    refine ⟨hNext, by simp, ?_⟩
    intro hAsked
    simp [asked] at hAsked
  | createCPUBuffer size mr point =>
    refine ⟨hNext, by simp, ?_⟩
    intro hAsked
    simp [asked] at hAsked
  | respond size own point memory =>
    refine ⟨hNext, by simp, ?_⟩
    intro _ _
    simp [memory, h.registered size point]
  | tensorWrite n stepId head found => exact ⟨hNext, h.registered, h.believed⟩
  | recvCallback stepId found mem contents => exact ⟨hNext, h.registered, h.believed⟩
  | sendIdle n callback => exact h.of_believed_eq hNext rfl rfl id id (by simp)

theorem foldl_learned {messages : List ToSender} (h : messages.countP (·.isResponse) = 0)
    (known : Nat × Option RemoteMR) : messages.foldl learned known = known := by
  induction messages with
  | nil => rfl
  | cons m rest ih =>
    rw [countP_cons] at h
    have hRest := ih (by omega)
    cases m with
    | tensorRequest stepId => exact hRest
    | bufferIdle => exact hRest
    | bufferResponse size mr => simp at h

theorem agreement_fresh : fresh.Agreement := by
  refine ⟨flagged_fresh, by simp [fresh], ?_⟩
  intro _ hLocal
  exact absurd rfl hLocal

theorem ownBytes_fresh : fresh.OwnBytes := by
  refine ⟨exclusive_fresh, ?_, ?_, ?_, rfl⟩
  all_goals simp [fresh]

theorem remote_of_owner (hEx : v.ledger.Exclusive) (hAgree : v.Agreement)
    (hPos : 0 < v.send.posting.length + (v.wire.length + v.completed)) :
    v.send.buffer.remote.isSome ∧ v.send.buffer.remote = v.recv.buffer.self ∧
      v.send.buffer.size = v.recv.buffer.size := by
  have hLocal : v.send.buffer.localStatus = .busy := hEx.localBusy hPos
  have hZero : v.unanswered = 0 := by
    by_contra hNe
    have hNone : v.send.posting.length + _ + (v.wire.length + v.completed) = 0 :=
      hEx.settled (pos_of_ne_zero hNe)
    omega
  simp only [unanswered, Nat.add_eq_zero_iff] at hZero
  obtain ⟨⟨hAsked, hResponses⟩, hPoint⟩ := hZero
  obtain ⟨hSome, hBelieved⟩ := hAgree.believed hAsked (by simp [hLocal])
  rw [believed, foldl_learned hResponses, Prod.mk.injEq] at hBelieved
  obtain ⟨hSize, hRemote⟩ := hBelieved
  split at hRemote
  · rename_i mr hSender
    simp [hSender] at hPoint
  · exact ⟨hRemote ▸ hSome, hRemote, hSize⟩

end View

namespace Channel

variable {κ : Type} [DecidableEq κ]

def SendsSettled (sent : κ → Int → Value) : Channel κ → Action κ → Prop :=
  Allowed sent fun _ => .settled

/-- From its posting to its `BUFFER_IDLE` a write of `k` is the only one, and no memory moves. -/
def Undisturbed (sent : κ → Int → Value) (s : Channel κ) (k : κ) : Prop :=
  0 < (s.view k).outstanding → ∀ a s', step sent s a = .next s' →
    (s'.sender k).written = (s.sender k).written ∧
    (s'.sender k).buffer.allocations = (s.sender k).buffer.allocations ∧
    (s'.receiver k).buffer.allocations = (s.receiver k).buffer.allocations

section Runs

variable {sent : κ → Int → Value} {s : Channel κ}

theorem ownBytes_of_reach (h : Reach (step sent) (SendsSettled sent) {} s) (k : κ) :
    (s.view k).OwnBytes :=
  view_invariant View.OwnBytes View.ownBytes_fresh (fun _ _ => View.ownBytes_step) h

theorem agreement_of_reach {g : κ → View.Guards} (h : Reach (step sent) (Allowed sent g) {} s)
    (k : κ) : (s.view k).Agreement :=
  view_invariant View.Agreement View.agreement_fresh (fun _ _ => View.agreement_step) h

theorem allowed_any (s : Channel κ) (a : Action κ) : Allowed sent (fun _ => .any) s a := by
  cases a with
  | recvLocalDone k stepId mr => exact fun _ _ => trivial
  | sendNextItem k => exact fun _ => trivial
  | _ => trivial

theorem undisturbed_of_exclusive {k : κ} (h : (s.view k).ledger.Exclusive) :
    Undisturbed sent s k := by
  intro hPos a s' hStep
  obtain ⟨j, hOwn, hOther⟩ := exists_stepOf (allowed_any s a) hStep
  by_cases hj : j = k
  · subst hj
    exact View.undisturbed h hPos hOwn
  · have hSame := hOther k hj
    have hSend : s'.sender k = s.sender k := congrArg View.send hSame
    have hRecv : s'.receiver k = s.receiver k := congrArg View.recv hSame
    rw [hSend, hRecv]
    exact ⟨rfl, rfl, rfl⟩

end Runs

/-- In a settled run no write is disturbed, and each callback decodes the bytes of its own write. -/
theorem writes_exclusive (sent : κ → Int → Value) (s : Channel κ)
    (hReach : Reach (step sent) (SendsSettled sent) {} s) (k : κ) :
    Undisturbed sent s k ∧ (∀ p ∈ (s.receiver k).decoded, p.1 = p.2) ∧
      (s.receiver k).decoded.map Prod.fst <+: (s.sender k).written := by
  have hOwn := ownBytes_of_reach hReach k
  exact ⟨undisturbed_of_exclusive hOwn.exclusive, hOwn.decoded, ⟨_, hOwn.written.symm⟩⟩

def PostsRegistered (sent : κ → Int → Value) (s : Channel κ) (k : κ) : Prop :=
  ∀ stepId s', step sent s (.post k stepId) = .next s' →
    ∃ w, s'.wire = s.wire ++ [(k, w)] ∧ w.remote.isSome ∧
      w.remote = (s.receiver k).buffer.self ∧ w.bytes ≤ (s.receiver k).buffer.size

theorem post_spec {sent : κ → Int → Value} {s s' : Channel κ} {k : κ} {stepId : Int}
    (h : s.post sent k stepId = .next s') :
    stepId ∈ (s.sender k).posting ∧ (sent k stepId).bufferSize ≤ (s.sender k).buffer.size ∧
      s'.wire = s.wire ++ [(k, {
        stepId := stepId
        bytes := if (sent k stepId).isDead then RdmaMessage.kMessageTotalBytes
          else (sent k stepId).bufferSize
        remote := (s.sender k).buffer.remote
        source := (s.sender k).buffer.allocations })] := by
  simp only [post] at h
  split at h
  · rename_i hMem
    split at h
    · rename_i hSizes
      split at h
      · cases h
        exact ⟨hMem, hSizes.elim (fun h => h.1.le) And.left, rfl⟩
      · cases h
    · cases h
  · cases h

theorem posts_registered (sent : κ → Int → Value) (s : Channel κ)
    (hReach : Reach (step sent) (SendsSettled sent) {} s) (k : κ) : PostsRegistered sent s k := by
  intro stepId s' hPost
  obtain ⟨hMem, hFits, hWire⟩ := post_spec hPost
  obtain ⟨hSome, hRemote, hSize⟩ := View.remote_of_owner (ownBytes_of_reach hReach k).exclusive
    (agreement_of_reach hReach k) (Nat.add_pos_left (length_pos_of_mem hMem) _)
  refine ⟨_, hWire, hSome, hRemote, ?_⟩
  have hSize : (s.sender k).buffer.size = (s.receiver k).buffer.size := hSize
  have hHeader : RdmaMessage.kMessageTotalBytes ≤ (sent k stepId).bufferSize := le_add_right _ _
  simp only
  split
  · omega
  · omega

section Example

def region (n : Nat) : RemoteMR := ⟨UInt64.ofNat (4096 * n), UInt32.ofNat n⟩

def vectors : Unit → Int → Value := fun _ _ => ⟨⟨.float, [2], 8⟩, false⟩

def strings : Unit → Int → Value := fun _ stepId =>
  ⟨⟨.string, [], if stepId = 1 then 11 else 101⟩, false⟩

def negotiate (size : Nat) : List (Action Unit) :=
  [.recvFromRemoteAsync () 1, .recvFromRemoteAsync () 2, .processMessage, .processSection,
    .processMessage, .processSection, .sendNextItem (), .recvLocalDone () 1 (region 1),
    .putBack () 1 (some size), .sendRequest () size, .peerProcessMessage,
    .peerProcessSection (region 2), .peerProcessSection (region 2), .sendNextItem ()]

def overlappingWrites : List (Action Unit) :=
  negotiate (vectors () 1).bufferSize ++
    [.processMessage, .processSection, .recvLocalDone () 2 (region 3), .post () 2,
      .processSection, .processSection, .processSection, .sendNextItem (),
      .recvLocalDone () 1 (region 3)]

def writeWhileGrowing : List (Action Unit) :=
  negotiate (strings () 1).bufferSize ++
    [.processMessage, .processSection, .processSection, .processSection, .processSection,
      .recvFromRemoteAsync () 3, .processMessage, .processSection, .sendNextItem (),
      .sendNextItem (), .recvLocalDone () 2 (region 3), .recvLocalDone () 3 (region 4)]

def settledWrite (size : Nat) : List (Action Unit) :=
  negotiate size ++
    [.processMessage, .processSection, .processSection, .processSection, .processSection,
      .sendNextItem (), .recvLocalDone () 1 (region 3)]

def answerWrite (stepId : Int) : List (Action Unit) :=
  [.deliver, .processCompletion, .processSection, .processSection, .sendNextItem (),
    .peerProcessWrite, .runRecvCallback () stepId, .sendIdle (), .processMessage, .processSection,
    .sendNextItem ()]

/-- The memory grows between the first write and the second. -/
def growingWrite : List (Action Unit) :=
  settledWrite (strings () 1).bufferSize ++ [.post () 1] ++ answerWrite 1 ++
    [.recvLocalDone () 2 (region 3), .putBack () 2 (some (strings () 2).bufferSize),
      .sendRequest () (strings () 2).bufferSize, .peerProcessMessage,
      .peerProcessSection (region 4), .peerProcessSection (region 4), .processMessage,
      .processSection, .processSection, .processSection, .processSection, .sendNextItem (),
      .recvLocalDone () 2 (region 5)]

def settledTest (sent : Unit → Int → Value) (s : Channel Unit) : Action Unit → Bool
  | .recvLocalDone k stepId _ =>
    decide ((s.sender k).buffer.Ready → (sent k stepId).bufferSize ≤ (s.sender k).buffer.size →
      (s.view k).unanswered = 0)
  | _ => true

theorem sendsSettled_of_test {sent : Unit → Int → Value} (s : Channel Unit) (a : Action Unit)
    (h : settledTest sent s a) : SendsSettled sent s a := by
  cases a with
  | recvLocalDone k stepId mr =>
    rw [settledTest, decide_eq_true_eq] at h
    exact h
  | sendNextItem k => exact fun _ => trivial
  | _ => trivial

end Example

theorem settled_write_undisturbed : ∃ s, Reach (step vectors) (SendsSettled vectors) {} s ∧
    0 < (s.view ()).outstanding ∧ Undisturbed vectors s () := by
  obtain ⟨s, hReach, hTest⟩ := exists_reach_of_exec (step vectors) {} (settledTest vectors)
    sendsSettled_of_test (settledWrite (vectors () 1).bufferSize ++ [.post () 1])
    (fun s => decide (0 < (s.view ()).outstanding)) rfl
  exact ⟨s, hReach, of_decide_eq_true hTest, (writes_exclusive vectors s hReach ()).1⟩

theorem overlapping_writes_disturb : ¬∀ (sent : Unit → Int → Value) (s : Channel Unit),
    Reach (step sent) anyStep {} s → ∀ k, Undisturbed sent s k := by
  intro hAll
  obtain ⟨s, hReach, hTest⟩ := exists_reach_of_exec (step vectors) {} always
    anyStep_of_always overlappingWrites (fun s => decide (0 < (s.view ()).outstanding) &&
      (step vectors s (.post () 1)).holds fun s' : Channel Unit =>
        decide ((s'.sender ()).written ≠ (s.sender ()).written)) rfl
  rw [Bool.and_eq_true] at hTest
  obtain ⟨s', hPost, hWritten⟩ := Outcome.holds_iff.mp hTest.2
  have hSame := hAll vectors s hReach () (of_decide_eq_true hTest.1) _ s' hPost
  exact of_decide_eq_true hWritten hSame.1

theorem settled_write_registered : ∃ s s', Reach (step strings) (SendsSettled strings) {} s ∧
    step strings s (.post () 2) = .next s' ∧
    (strings () 1).bufferSize < (s.receiver ()).buffer.size ∧ PostsRegistered strings s () := by
  obtain ⟨s, hReach, hTest⟩ := exists_reach_of_exec (step strings) {} (settledTest strings)
    sendsSettled_of_test growingWrite
    (fun s => decide ((strings () 1).bufferSize < (s.receiver ()).buffer.size) &&
      (step strings s (.post () 2)).holds fun _ => true) rfl
  rw [Bool.and_eq_true] at hTest
  obtain ⟨s', hPost, -⟩ := Outcome.holds_iff.mp hTest.2
  exact ⟨s, s', hReach, hPost, of_decide_eq_true hTest.1, posts_registered strings s hReach ()⟩

theorem growing_write_misses : ¬∀ (sent : Unit → Int → Value) (s : Channel Unit),
    Reach (step sent) anyStep {} s → ∀ k, PostsRegistered sent s k := by
  intro hAll
  obtain ⟨s, hReach, hTest⟩ := exists_reach_of_exec (step strings) {} always
    anyStep_of_always writeWhileGrowing
    (fun s => (step strings s (.post () 3)).holds fun s' : Channel Unit =>
      decide (s.wire = [] ∧ ∀ p ∈ s'.wire, (s.receiver ()).buffer.size < p.2.bytes)) rfl
  obtain ⟨s', hPost, hLarge⟩ := Outcome.holds_iff.mp hTest
  obtain ⟨hEmpty, hLarge⟩ := of_decide_eq_true hLarge
  obtain ⟨w, hWire, -, -, hFits⟩ := hAll strings s hReach () 3 s' hPost
  have hTooLarge := hLarge ((), w) (by simp [hWire])
  exact absurd hFits (not_le.mpr hTooLarge)

end Channel

open Bool

namespace View

/-- No call of `SendNextItem` finds the queue empty while a key is on its way back to it. -/
def Guards.waking : Guards := ⟨fun _ => True, fun v => v.send.requeue = []⟩

def underway (v : View) : Nat :=
  v.send.posting.length + v.send.requeue.countP (·.2.isSome) + v.send.requests.length +
    v.toSender.length + v.toReceiver.length + v.wire.length + v.arrived + v.completed +
    v.recv.callbacks.length + v.recv.idling + v.senderPoint.isSome.toNat +
    v.receiverPoint.isSome.toNat

/-- What will end in a call of `SendNextItem` for the buffer of the key, or is one. -/
def awake (v : View) : Nat := v.send.tasks + v.send.receiving.length + v.underway

structure Woken (v : View) : Prop where
  flagged : v.ledger.Flagged
  awake : v.send.buffer.queue ≠ [] ∨ v.send.requeue ≠ [] → 0 < v.awake

/-- The keys taken by `TENSOR_REQUEST` are written, or still in one of the sender's lists. -/
def Accounted (v : View) : Prop :=
  ∀ stepId, v.send.requested.count stepId =
    v.send.written.count stepId + v.send.buffer.queue.count stepId +
      v.send.receiving.count stepId + v.send.posting.count stepId +
      (v.send.requeue.map Prod.fst).count stepId

variable {sent : Int → Value} {g : Guards} {v v' : View}

theorem counted_le_underway (v : View) :
    v.outstanding ≤ v.underway ∧ v.unanswered ≤ v.underway := by
  have hIdle : v.toSender.countP (·.isIdle) ≤ v.toSender.length := countP_le_length
  have hResponse : v.toSender.countP (·.isResponse) ≤ v.toSender.length := countP_le_length
  have hPoint : (v.senderPoint.any (·.inResponse)).toNat ≤ v.senderPoint.isSome.toNat := by
    cases v.senderPoint with
    | none => rfl
    | some point => exact toNat_le _
  constructor
  · simp only [outstanding, underway]
    omega
  · simp only [unanswered, asked, underway]
    omega

theorem underway_of_busy (h : v.ledger.Flagged) (hMemory : v.send.buffer.localStatus ≠ .none)
    (hBusy : ¬v.send.buffer.Ready) : 0 < v.underway := by
  obtain ⟨hOutstanding, hUnanswered⟩ := counted_le_underway v
  have hPosting : v.send.posting.length + v.wire.length + v.completed ≤ v.underway := by
    simp only [underway]
    omega
  have hPos : 0 < v.send.posting.length + v.outstanding + (v.wire.length + v.completed) +
      v.unanswered := h.pending hMemory hBusy
  omega

theorem woken_step (h : v.Woken) (hStep : Step sent .waking v v') : v'.Woken := by
  refine ⟨hStep.flagged h.flagged, ?_⟩
  cases hStep with
  | popEmpty n task empty ok =>
    have hBack : v.send.requeue = [] := ok
    simp [empty, hBack]
  | defer stepId mem memory busy =>
    intro _
    have hPos := underway_of_busy h.flagged memory busy
    simp only [awake, underway, countP_append] at hPos ⊢
    omega
  | putBack stepId request mem =>
    intro _
    have hPos := h.awake (.inr (ne_nil_of_mem mem))
    have hCount := countP_erase_of_mem (fun r => r.2.isSome) mem
    cases request with
    | none =>
      simp only [awake, underway, hCount, Option.isSome_none, toNat_false] at hPos
      simp only [awake, underway, Option.toList_none, append_nil]
      omega
    | some size =>
      simp [awake, underway]
  | _ =>
    intro _
    simp [awake, underway]

theorem accounted_step (h : v.Accounted) (hStep : Step sent g v v') : v'.Accounted := by
  cases hStep with
  | tensorRequest stepId rest head free =>
    intro x
    have hx := h x
    simp only [RdmaBuffer.enqueueItem, count_append]
    omega
  | pop n stepId rest task head =>
    intro x
    have hx := h x
    simp only [head, count_cons, count_append, count_nil] at hx ⊢
    omega
  | allocate stepId mr mem free =>
    intro x
    have hx := h x
    rw [(perm_cons_erase mem).count_eq, count_cons] at hx
    simp only [map_append, map_cons, map_nil, count_append, count_cons, count_nil]
    omega
  | start stepId mem ready fits ok =>
    intro x
    have hx := h x
    rw [(perm_cons_erase mem).count_eq, count_cons] at hx
    simp only [RdmaBuffer.markBusy, count_append, count_cons, count_nil]
    omega
  | defer stepId mem memory busy =>
    intro x
    have hx := h x
    rw [(perm_cons_erase mem).count_eq, count_cons] at hx
    simp only [map_append, map_cons, map_nil, count_append, count_cons, count_nil]
    omega
  | post stepId mem fits =>
    intro x
    have hx := h x
    rw [(perm_cons_erase mem).count_eq, count_cons] at hx
    simp only [count_append, count_cons, count_nil]
    omega
  | putBack stepId request mem =>
    intro x
    have hx := h x
    rw [((perm_cons_erase mem).map Prod.fst).count_eq, map_cons, count_cons] at hx
    dsimp only at hx
    simp only [RdmaBuffer.enqueueItem, count_append, count_cons, count_nil]
    omega
  | _ => exact h

theorem woken_fresh : fresh.Woken := by
  refine ⟨flagged_fresh, ?_⟩
  simp [fresh]

theorem accounted_fresh : fresh.Accounted := fun _ => rfl

end View

namespace Channel

variable {κ : Type} [DecidableEq κ]

def WakesUp (sent : κ → Int → Value) : Channel κ → Action κ → Prop :=
  Allowed sent fun _ => .waking

structure Quiescent (s : Channel κ) : Prop where
  messages : s.toSender = [] ∧ s.toReceiver = []
  writes : s.wire = [] ∧ s.arrived = [] ∧ s.completed = []
  handlers : s.senderCq = none ∧ s.receiverCq = none
  tasks : ∀ k, (s.sender k).tasks = 0
  receives : ∀ k, (s.sender k).receiving = []
  callbacks : ∀ k, (s.sender k).posting = [] ∧ (s.sender k).requeue = [] ∧
    (s.sender k).requests = []
  answers : ∀ k, (s.receiver k).callbacks = [] ∧ (s.receiver k).idling = 0

variable {s : Channel κ}

theorem Quiescent.awake_eq_zero (h : s.Quiescent) (k : κ) :
    (s.view k).awake = 0 := by
  obtain ⟨hToSender, hToReceiver⟩ := h.messages
  obtain ⟨hWire, hArrived, hCompleted⟩ := h.writes
  obtain ⟨hSender, hReceiver⟩ := h.handlers
  obtain ⟨hPosting, hRequeue, hRequests⟩ := h.callbacks k
  obtain ⟨hCallbacks, hIdling⟩ := h.answers k
  simp [View.awake, View.underway, view, h.tasks k, h.receives k, hToSender, hToReceiver, hWire,
    hArrived, hCompleted, hSender, hReceiver, hPosting, hRequeue, hRequests, hCallbacks, hIdling]

variable {sent : κ → Int → Value}

theorem woken_of_reach (h : Reach (step sent) (WakesUp sent) {} s) (k : κ)
    : (s.view k).Woken :=
  view_invariant View.Woken View.woken_fresh (fun _ _ => View.woken_step) h

theorem accounted_of_reach {g : κ → View.Guards}
    (h : Reach (step sent) (Allowed sent g) {} s) (k : κ) : (s.view k).Accounted :=
  view_invariant View.Accounted View.accounted_fresh (fun _ _ => View.accounted_step) h

def Served (s : Channel κ) (k : κ) : Prop :=
  (s.sender k).buffer.queue = [] ∧ (s.sender k).requested.Perm (s.sender k).written

theorem served_of_quiescent (sent : κ → Int → Value) (s : Channel κ)
    (hReach : Reach (step sent) (WakesUp sent) {} s) (hQuiet : s.Quiescent) (k : κ) :
    s.Served k := by
  have hEmpty : (s.sender k).buffer.queue = [] := by
    by_contra hQueue
    have hPos := (woken_of_reach hReach k).awake (.inl hQueue)
    have hZero := hQuiet.awake_eq_zero k
    omega
  refine ⟨hEmpty, ?_⟩
  rw [perm_iff_count]
  intro stepId
  obtain ⟨hPosting, hRequeue, -⟩ := hQuiet.callbacks k
  have hCount := accounted_of_reach hReach k stepId
  simpa [view, hEmpty, hPosting, hRequeue, hQuiet.receives k] using hCount

section Example

def quiescentTest (s : Channel Unit) : Bool :=
  decide ((s.toSender = [] ∧ s.toReceiver = []) ∧
    (s.wire = [] ∧ s.arrived = [] ∧ s.completed = []) ∧
    (s.senderCq = none ∧ s.receiverCq = none) ∧ (s.sender ()).tasks = 0 ∧
    (s.sender ()).receiving = [] ∧
    ((s.sender ()).posting = [] ∧ (s.sender ()).requeue = [] ∧ (s.sender ()).requests = []) ∧
    (s.receiver ()).callbacks = [] ∧ (s.receiver ()).idling = 0)

theorem quiescent_of_test {s : Channel Unit} (h : quiescentTest s) : s.Quiescent := by
  obtain ⟨hMessages, hWrites, hHandlers, hTasks, hReceives, hCallbacks, hAnswers⟩ :=
    of_decide_eq_true h
  exact ⟨hMessages, hWrites, hHandlers, fun _ => hTasks, fun _ => hReceives,
    fun _ => hCallbacks, fun _ => hAnswers⟩

def wakesUpTest (s : Channel Unit) : Action Unit → Bool
  | .sendNextItem k =>
    decide ((s.sender k).buffer.queue = [] → (s.sender k).requeue = [])
  | _ => true

theorem wakesUp_of_test {sent : Unit → Int → Value} (s : Channel Unit) (a : Action Unit)
    (h : wakesUpTest s a) : WakesUp sent s a := by
  cases a with
  | recvLocalDone k stepId mr => exact fun _ _ => trivial
  | sendNextItem k =>
    rw [wakesUpTest, decide_eq_true_eq] at h
    exact h
  | _ => trivial

def lateReturn : List (Action Unit) :=
  settledWrite (vectors () 1).bufferSize ++ [.post () 1, .recvLocalDone () 2 (region 3)] ++
    answerWrite 1 ++ [.putBack () 2 none]

def inTurn : List (Action Unit) :=
  settledWrite (vectors () 1).bufferSize ++ [.post () 1] ++ answerWrite 1 ++
    [.recvLocalDone () 2 (region 3), .post () 2] ++ answerWrite 2

end Example

theorem writes_in_turn_served : ∃ s, Reach (step vectors) (WakesUp vectors) {} s ∧
    s.Quiescent ∧ (s.sender ()).requested = [1, 2] ∧ s.Served () := by
  obtain ⟨s, hReach, hTest⟩ := exists_reach_of_exec (step vectors) {} wakesUpTest wakesUp_of_test
    inTurn (fun s => quiescentTest s && decide ((s.sender ()).requested = [1, 2])) rfl
  rw [and_eq_true] at hTest
  have hQuiet := quiescent_of_test hTest.1
  have hServed := served_of_quiescent vectors s hReach hQuiet ()
  exact ⟨s, hReach, hQuiet, of_decide_eq_true hTest.2, hServed⟩

theorem late_return_strands : ¬∀ (sent : Unit → Int → Value) (s : Channel Unit),
    Reach (step sent) anyStep {} s → s.Quiescent → ∀ k, s.Served k := by
  intro hAll
  obtain ⟨s, hReach, hTest⟩ := exists_reach_of_exec (step vectors) {} always anyStep_of_always
    lateReturn (fun s => quiescentTest s && decide ((s.sender ()).buffer.queue = [2])) rfl
  rw [and_eq_true] at hTest
  obtain ⟨hEmpty, -⟩ := hAll vectors s hReach (quiescent_of_test hTest.1) ()
  rw [of_decide_eq_true hTest.2] at hEmpty
  cases hEmpty

end Channel

end TensorFlowOnSpark.Rdma
