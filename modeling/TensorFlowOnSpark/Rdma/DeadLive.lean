import TensorFlowOnSpark.Rdma.Exclusive

/-!
# Which values keep the size checks from failing

The memory of a key is sized by the first value that is sent.
-/

namespace TensorFlowOnSpark.Rdma

open Framework Transition List Nat

def ReceiverPoint.size : ReceiverPoint → Nat
  | .createCPUBuffer size | .respond size => size

namespace View

def askedSizes (v : View) : List Nat :=
  v.send.requeue.filterMap Prod.snd ++ v.send.requests ++ v.toReceiver.map (·.size) ++
    (v.receiverPoint.map (·.size)).toList

structure Fitting (sent : Int → Value) (v : View) : Prop where
  grows : v.send.buffer.localStatus ≠ .none →
    ∀ stepId, v.send.buffer.size < (sent stepId).bufferSize → (sent stepId).tensor.dtype = .string
  posting : ∀ stepId ∈ v.send.posting, (sent stepId).bufferSize ≤ v.send.buffer.size ∧
    ((sent stepId).tensor.dtype ≠ .string → (sent stepId).bufferSize = v.send.buffer.size)
  target : v.recv.callbacks ≠ [] →
    ∃ found, v.recv.buffer.contents = some found ∧
      (sent found).bufferSize ≤ v.recv.buffer.size

/-- All values have `n` bytes, so memory is allocated once at either end. -/
structure Uniform (n : Nat) (v : View) : Prop where
  single : v.ledger.Single
  agreement : v.Agreement
  size : v.send.buffer.localStatus ≠ .none → v.send.buffer.size = n
  sizes : ∀ size ∈ v.askedSizes, size = n
  memory : v.recv.buffer.self.isSome → v.recv.buffer.size = n
  known : v.askedSizes ≠ [] → v.send.buffer.remoteStatus = .none
  source : v.wire ≠ [] → v.send.buffer.contents.isSome
  target : 0 < v.arrived ∨ v.recv.callbacks ≠ [] → v.recv.buffer.contents.isSome

variable {sent : Int → Value} {g : Guards} {v v' : View} {n : Nat}

theorem Uniform.step_single (hSize : ∀ stepId, (sent stepId).bufferSize = n) (h : v.Uniform n)
    (hStep : Step sent g v v') : v'.ledger.Single := by
  have hMove : Ledger.Move (fun _ => True) (fun _ => False) v.ledger v'.ledger := by
    refine hStep.ledger_move (fun _ => trivial) ?_
    intro stepId hLarge hReady
    have hSame := h.size (by simp [hReady.1])
    rw [hSize, hSame] at hLarge
    exact lt_irrefl n hLarge
  exact h.single.move hMove

theorem length_askedSizes (v : View) : v.askedSizes.length = v.asked := by
  have hPoint : (v.receiverPoint.map (·.size)).toList.length = v.receiverPoint.isSome.toNat := by
    cases v.receiverPoint with
    | none => rfl
    | some point => rfl
  simp only [askedSizes, asked, length_append, length_map, hPoint, length_filterMap_eq_countP]

theorem Step.mem_askedSizes (hStep : Step sent g v v') {size : Nat} (h : size ∈ v'.askedSizes) :
    size ∈ v.askedSizes ∨ ∃ stepId, size = (sent stepId).bufferSize ∧
      (v.send.buffer.localStatus = .none ∨
        v.send.buffer.size < (sent stepId).bufferSize ∧ v.send.buffer.Ready) := by
  simp only [askedSizes, mem_append, mem_filterMap, mem_map, Option.mem_toList,
    Option.map_eq_some_iff] at h ⊢
  cases hStep with
  | allocate stepId mr mem free =>
    rcases h with ((⟨r, hr, hSize⟩ | hRequests) | hTo) | hPoint
    · rcases mem_append.mp hr with hOld | hNew
      · exact .inl (.inl (.inl (.inl ⟨r, hOld, hSize⟩)))
      · cases mem_singleton.mp hNew
        cases hSize
        exact .inr ⟨stepId, rfl, free⟩
    · exact .inl (.inl (.inl (.inr hRequests)))
    · exact .inl (.inl (.inr hTo))
    · exact .inl (.inr hPoint)
  | defer stepId mem memory busy =>
    refine .inl ?_
    rcases h with ((⟨r, hr, hSize⟩ | hRequests) | hTo) | hPoint
    · rcases mem_append.mp hr with hOld | hNew
      · exact .inl (.inl (.inl ⟨r, hOld, hSize⟩))
      · cases mem_singleton.mp hNew
        cases hSize
    · exact .inl (.inl (.inr hRequests))
    · exact .inl (.inr hTo)
    · exact .inr hPoint
  | putBack stepId request mem =>
    refine .inl ?_
    rcases h with ((⟨r, hr, hSize⟩ | hRequests) | hTo) | hPoint
    · exact .inl (.inl (.inl ⟨r, mem_of_mem_erase hr, hSize⟩))
    · rcases mem_append.mp hRequests with hOld | hNew
      · exact .inl (.inl (.inr hOld))
      · exact .inl (.inl (.inl ⟨_, mem, Option.mem_toList.mp hNew⟩))
    · exact .inl (.inr hTo)
    · exact .inr hPoint
  | sendRequest asked mr mem =>
    refine .inl ?_
    rcases h with ((hRequeue | hRequests) | ⟨r, hr, hSize⟩) | hPoint
    · exact .inl (.inl (.inl hRequeue))
    · exact .inl (.inl (.inr (mem_of_mem_erase hRequests)))
    · rcases mem_append.mp hr with hOld | hNew
      · exact .inl (.inr ⟨r, hOld, hSize⟩)
      · cases mem_singleton.mp hNew
        cases hSize
        exact .inl (.inl (.inr mem))
    · exact .inr hPoint
  | bufferRequest request rest head free =>
    refine .inl ?_
    rcases h with (hSend | ⟨r, hr, hSize⟩) | ⟨point, hPoint, hSize⟩
    · exact .inl (.inl hSend)
    · exact .inl (.inr ⟨r, by simp [head, hr], hSize⟩)
    · cases hPoint
      exact .inl (.inr ⟨request, by simp [head], hSize⟩)
  | createCPUBuffer asked mr point =>
    refine .inl ?_
    rcases h with hOther | ⟨at', hPoint, hSize⟩
    · exact .inl hOther
    · cases hPoint
      exact .inr ⟨_, point, hSize⟩
  | respond asked own point memory =>
    refine .inl ?_
    rcases h with hOther | ⟨at', hPoint, hSize⟩
    · exact .inl hOther
    · cases hPoint
  | _ => exact .inl h

theorem Uniform.idle_of_asked (h : v.Uniform n) (hAsked : v.askedSizes ≠ []) :
    v.outstanding = 0 := by
  by_contra hNe
  have hPos : 0 < v.send.posting.length + v.outstanding := by omega
  exact h.single.writer hPos (h.known hAsked)

theorem Uniform.asked_of_inResponse (h : v.Uniform n)
    (hPoint : v.senderPoint.any (·.inResponse)) : v.askedSizes = [] := by
  have hOne : v.unanswered ≤ 1 := h.single.single
  rw [unanswered, hPoint, Bool.toNat_true, ← length_askedSizes] at hOne
  rw [← length_eq_zero_iff]
  omega

theorem uniform_step (hSize : ∀ stepId, (sent stepId).bufferSize = n) (h : v.Uniform n)
    (hStep : Step sent g v v') : v'.Uniform n := by
  have hSingle := h.step_single hSize hStep
  have hAgree := agreement_step h.agreement hStep
  obtain ⟨hOld, -, hLocal, hOldSizes, hMemory, hOldKnown, hSource, hTarget⟩ := id h
  have hSizes : ∀ size ∈ v'.askedSizes, size = n := by
    intro size hMem
    rcases hStep.mem_askedSizes hMem with hAsked | ⟨stepId, rfl, -⟩
    · exact hOldSizes size hAsked
    · exact hSize stepId
  have hKnown : v'.askedSizes ≠ [] → v.send.buffer.remoteStatus = .none := by
    intro hNe
    obtain ⟨size, hMem⟩ := exists_mem_of_ne_nil _ hNe
    rcases hStep.mem_askedSizes hMem with hAsked | ⟨stepId, -, hFree⟩
    · exact hOldKnown (ne_nil_of_mem hAsked)
    · rcases hFree with hNone | ⟨hLarge, hReady⟩
      · exact hOld.unallocated hNone
      · rw [hSize, hLocal (by simp [hReady.1])] at hLarge
        exact absurd hLarge (lt_irrefl n)
  cases hStep with
  | bufferIdle rest head free =>
    refine ⟨hSingle, hAgree, hLocal, hSizes, hMemory, ?_, hSource, hTarget⟩
    intro hNe
    exact absurd (hKnown hNe) (hOld.writer (by simp [ledger, outstanding, head]))
  | completion m head free =>
    refine ⟨hSingle, hAgree, ?_, hSizes, hMemory, hKnown, hSource, hTarget⟩
    intro _
    exact hLocal (allocated_of_completed hOld.flagged (head ▸ succ_pos m))
  | setRemoteMR mr point =>
    refine ⟨hSingle, hAgree, hLocal, hSizes, hMemory, ?_, hSource, hTarget⟩
    intro hNe
    exact absurd (h.asked_of_inResponse (by simp [point])) hNe
  | setLocalIdle point =>
    refine ⟨hSingle, hAgree, ?_, hSizes, hMemory, hKnown, hSource, hTarget⟩
    intro _
    exact hLocal (allocated_of_unanswered hOld.flagged (by simp [unanswered, point]))
  | setRemoteIdle point =>
    refine ⟨hSingle, hAgree, hLocal, hSizes, hMemory, ?_, hSource, hTarget⟩
    intro hNe
    exact absurd (h.asked_of_inResponse (by simp [point])) hNe
  | allocate stepId mr mem free =>
    refine ⟨hSingle, hAgree, fun _ => hSize stepId, hSizes, hMemory, hKnown, ?_, hTarget⟩
    intro hWire
    rcases free with hNone | ⟨hLarge, hReady⟩
    · have hZero : _ + (v.wire.length + v.completed) + _ = 0 := hOld.flagged.allocated hNone
      have hPos : 0 < v.wire.length := length_pos_of_ne_nil hWire
      omega
    · rw [hSize, hLocal (by simp [hReady.1])] at hLarge
      exact absurd hLarge (lt_irrefl n)
  | start stepId mem ready fits ok =>
    refine ⟨hSingle, hAgree, ?_, hSizes, hMemory, ?_, hSource, hTarget⟩
    · intro _
      exact hLocal (by simp [ready.1])
    · intro hNe
      have hNone := hKnown hNe
      rw [ready.2] at hNone
      cases hNone
  | post stepId mem fits =>
    exact ⟨hSingle, hAgree, hLocal, hSizes, hMemory, hKnown, by simp, hTarget⟩
  | deliver w rest head =>
    have hContents := hSource (by simp [head])
    exact ⟨hSingle, hAgree, hLocal, hSizes, hMemory, hKnown, fun _ => hContents,
      fun _ => hContents⟩
  | createCPUBuffer size mr point =>
    have hAsked : size ∈ v.askedSizes := by simp [askedSizes, point, ReceiverPoint.size]
    have hIdle := h.idle_of_asked (ne_nil_of_mem hAsked)
    obtain ⟨-, hArrived, hCallbacks⟩ := nothing_in_transit hIdle
    refine ⟨hSingle, hAgree, hLocal, hSizes, fun _ => hOldSizes size hAsked, hKnown, hSource, ?_⟩
    simp [hArrived, hCallbacks]
  | tensorWrite m stepId head found =>
    refine ⟨hSingle, hAgree, hLocal, hSizes, hMemory, hKnown, hSource, ?_⟩
    intro _
    simp [found]
  | recvCallback stepId found mem contents =>
    refine ⟨hSingle, hAgree, hLocal, hSizes, hMemory, hKnown, hSource, ?_⟩
    intro _
    simp [contents]
  | _ => exact ⟨hSingle, hAgree, hLocal, hSizes, hMemory, hKnown, hSource, hTarget⟩

theorem Uniform.fitting (hSize : ∀ stepId, (sent stepId).bufferSize = n) (h : v.Uniform n) :
    v.Fitting sent := by
  have hMemory : 0 < v.send.posting.length + v.outstanding →
      v.send.buffer.size = n ∧ v.recv.buffer.size = n := by
    intro hPos
    have hRemote := h.single.writer hPos
    have hLocal : v.send.buffer.localStatus ≠ .none := fun hNone =>
      hRemote (h.single.unallocated hNone)
    have hAsked : v.asked = 0 := by
      rw [← length_askedSizes, length_eq_zero_iff]
      by_contra hNe
      exact hRemote (h.known hNe)
    exact ⟨h.size hLocal, h.memory (h.agreement.believed hAsked hLocal).1⟩
  constructor
  · intro hLocal stepId hLarge
    rw [hSize, h.size hLocal] at hLarge
    exact absurd hLarge (lt_irrefl n)
  · intro stepId hMem
    have hPos := length_pos_of_mem hMem
    rw [hSize, (hMemory (by omega)).1]
    exact ⟨le_refl n, fun _ => rfl⟩
  · intro hCallbacks
    obtain ⟨found, hFound⟩ := Option.isSome_iff_exists.mp (h.target (.inr hCallbacks))
    have hPos := length_pos_of_ne_nil hCallbacks
    refine ⟨found, hFound, ?_⟩
    rw [hSize, (hMemory (by simp only [outstanding]; omega)).2]

theorem uniform_fresh : fresh.Uniform n := by
  refine ⟨⟨flagged_fresh, fun _ => rfl, zero_le 1, ?_⟩, agreement_fresh, ?_, ?_, ?_, ?_, ?_, ?_⟩
  all_goals simp [fresh, ledger, outstanding, askedSizes]

structure Held (sent : Int → Value) (v : View) : Prop where
  own : v.OwnBytes
  agreement : v.Agreement
  posting : ∀ stepId ∈ v.send.posting, (sent stepId).bufferSize ≤ v.send.buffer.size
  source : ∀ stepId, v.send.buffer.contents = some stepId →
    (sent stepId).bufferSize ≤ v.send.buffer.size
  target : ∀ stepId, v.recv.buffer.contents = some stepId →
    (sent stepId).bufferSize ≤ v.recv.buffer.size

theorem held_step (h : v.Held sent) (hStep : Step sent .settled v v') : v'.Held sent := by
  have hOwn := ownBytes_step h.own hStep
  have hAgree := agreement_step h.agreement hStep
  obtain ⟨hOld, hOldAgree, hPosting, hSource, hTarget⟩ := h
  cases hStep with
  | allocate stepId mr mem free =>
    have hZero : v.send.posting.length + _ + _ = 0 :=
      hOld.exclusive.free (free.imp_right And.right)
    have hNone : v.send.posting = [] := length_eq_zero_iff.mp (by omega)
    exact ⟨hOwn, hAgree, by simp [hNone], by simp, hTarget⟩
  | start stepId mem ready fits ok =>
    refine ⟨hOwn, hAgree, ?_, hSource, hTarget⟩
    intro x hx
    rcases mem_append.mp hx with hOldMem | hNew
    · exact hPosting x hOldMem
    · cases mem_singleton.mp hNew
      exact fits
  | post stepId mem fits =>
    refine ⟨hOwn, hAgree, fun x hx => hPosting x (mem_of_mem_erase hx), ?_, hTarget⟩
    intro x hx
    cases hx
    exact fits
  | deliver w rest head =>
    have hPos : 0 < v.send.posting.length + (v.wire.length + v.completed) := by
      simp only [head, length_cons]
      omega
    obtain ⟨-, -, hSame⟩ := remote_of_owner hOld.exclusive hOldAgree hPos
    refine ⟨hOwn, hAgree, hPosting, hSource, ?_⟩
    intro x hx
    exact hSame ▸ hSource x hx
  | createCPUBuffer size mr point => exact ⟨hOwn, hAgree, hPosting, hSource, by simp⟩
  | _ => exact ⟨hOwn, hAgree, hPosting, hSource, hTarget⟩

theorem held_fresh : fresh.Held sent := by
  refine ⟨ownBytes_fresh, agreement_fresh, ?_, ?_, ?_⟩
  all_goals simp [fresh]

theorem Held.fitting (hString : ∀ stepId, (sent stepId).tensor.dtype = .string)
    (h : v.Held sent) : v.Fitting sent := by
  refine ⟨fun _ stepId _ => hString stepId, ?_, ?_⟩
  · intro stepId hMem
    exact ⟨h.posting stepId hMem, fun hNe => absurd (hString stepId) hNe⟩
  · intro hCallbacks
    obtain ⟨stepId, hMem⟩ := exists_mem_of_ne_nil _ hCallbacks
    have hContents := h.own.target stepId hMem
    exact ⟨stepId, hContents, h.target stepId hContents⟩

end View

namespace Channel

variable {κ : Type} [DecidableEq κ] {sent : κ → Int → Value} {s : Channel κ} {k : κ}

/-- No check of `SendNextItem` and none of the receive callback fails for the key. -/
def ChecksPass (sent : κ → Int → Value) (s : Channel κ) (k : κ) : Prop :=
  ∀ stepId mr check,
    (step sent s (.recvLocalDone k stepId mr) = .failed check ∨
      step sent s (.post k stepId) = .failed check ∨
      step sent s (.runRecvCallback k stepId) = .failed check) →
    check.site ≠ .sendNextItem ∧ check.site ≠ .recvCallback

def OneSize (values : Int → Value) : Prop := ∃ n, ∀ stepId, (values stepId).bufferSize = n

def AllStrings (values : Int → Value) : Prop := ∀ stepId, (values stepId).tensor.dtype = .string

section

variable (h : (s.view k).Fitting (sent k))
include h

theorem recvLocalDone_passes (stepId : Int) (mr : RemoteMR)
    (check : Check) : s.recvLocalDone sent k stepId mr ≠ .failed check := by
  intro hFailed
  simp only [recvLocalDone] at hFailed
  split at hFailed
  · split at hFailed
    · split at hFailed
      · rename_i hGrow
        exact hGrow.2.2 (h.grows hGrow.1 stepId hGrow.2.1)
      · have hPos : 0 < (sent k stepId).bufferSize := Nat.add_pos_left (by decide) _
        simp only [RdmaBuffer.createCPUBuffer, if_pos hPos] at hFailed
        cases hFailed
    · split at hFailed
      · cases hFailed
      · cases hFailed
  · cases hFailed

theorem post_passes (stepId : Int) (check : Check) : s.post sent k stepId ≠ .failed check := by
  intro hFailed
  simp only [post] at hFailed
  split at hFailed
  · rename_i hMem
    obtain ⟨hLe, hEq⟩ := h.posting stepId hMem
    have hLe : (sent k stepId).bufferSize ≤ (s.sender k).buffer.size := hLe
    split at hFailed
    · split at hFailed
      · cases hFailed
      · rename_i hTensor
        have hFits : (sent k stepId).tensor.byteSize + RdmaMessage.kTensorBufferStartIndex ≤
            (s.sender k).buffer.size := by
          simp only [Value.bufferSize, RdmaMessage.kMessageTotalBytes] at hLe
          omega
        exact hTensor (.inr hFits)
    · rename_i hSizes
      by_cases hString : (sent k stepId).tensor.dtype = .string
      · exact hSizes (.inr ⟨hLe, hString⟩)
      · exact hSizes (.inl ⟨hEq hString, hString⟩)
  · cases hFailed

theorem runRecvCallback_passes (stepId : Int) (check : Check)
    (hFailed : s.runRecvCallback sent k stepId = .failed check) : check = .callbackFound := by
  simp only [runRecvCallback] at hFailed
  split at hFailed
  · rename_i hMem
    obtain ⟨found, hContents, hLe⟩ := h.target (ne_nil_of_mem hMem)
    have hContents : (s.receiver k).buffer.contents = some found := hContents
    have hLe : RdmaMessage.kMessageTotalBytes + (sent k found).tensor.byteSize ≤
        (s.receiver k).buffer.size := hLe
    split at hFailed
    · rw [if_pos (by omega), hContents] at hFailed
      simp only at hFailed
      rw [if_pos (.inr (by simpa [add_comm] using hLe))] at hFailed
      cases hFailed
    · cases hFailed
      rfl
  · cases hFailed

theorem checksPass_of_fitting : ChecksPass sent s k := by
  rintro stepId mr check (hFailed | hFailed | hFailed)
  · exact absurd hFailed (recvLocalDone_passes h stepId mr check)
  · exact absurd hFailed (post_passes h stepId check)
  · cases runRecvCallback_passes h stepId check hFailed
    simp [Check.site]

end

/-- The checks pass in every run when all values of the key have one size, and in every settled
run when they are all strings. -/
theorem checks_pass (sent : κ → Int → Value) (s : Channel κ) (k : κ)
    (h : OneSize (sent k) ∧ Reach (step sent) anyStep {} s ∨
      AllStrings (sent k) ∧ Reach (step sent) (SendsSettled sent) {} s) :
    ChecksPass sent s k := by
  apply checksPass_of_fitting
  rcases h with ⟨⟨n, hSize⟩, hReach⟩ | ⟨hString, hReach⟩
  · have hUniform : (s.view k).Uniform n :=
      view_invariant (View.Uniform n) View.uniform_fresh (fun _ _ => View.uniform_step hSize)
        (hReach.mono fun s a _ => allowed_any s a)
    exact hUniform.fitting hSize
  · have hHeld : (s.view k).Held (sent k) :=
      view_invariant (View.Held (sent k)) View.held_fresh (fun _ _ => View.held_step) hReach
    exact hHeld.fitting hString

def LiveAlike (values : Int → Value) : Prop :=
  ∃ dtype shape, ∀ stepId, values stepId = Value.dead ∨
    (values stepId).isDead = false ∧ (values stepId).tensor.dtype = dtype ∧
      (values stepId).tensor.shape = shape

def deadAfterLive : Unit → Int → Value := fun _ stepId =>
  if stepId = 1 then ⟨⟨.float, [2], 8⟩, false⟩ else Value.dead

theorem liveAlike_deadAfterLive : LiveAlike (deadAfterLive ()) := by
  refine ⟨.float, [2], ?_⟩
  intro stepId
  by_cases hOne : stepId = 1
  · exact .inr (by simp [deadAfterLive, hOne])
  · exact .inl (by simp [deadAfterLive, hOne])

theorem vectors_and_strings_checks_pass :
    (∃ s, Reach (step vectors) anyStep {} s ∧ (s.sender ()).posting = [1] ∧
      ChecksPass vectors s ()) ∧
    ∃ s, Reach (step strings) (SendsSettled strings) {} s ∧ (s.sender ()).posting = [1] ∧
      ChecksPass strings s () := by
  constructor
  · obtain ⟨s, hReach, hTest⟩ := exists_reach_of_exec (step vectors) {} always anyStep_of_always
      (settledWrite (vectors () 1).bufferSize)
      (fun s => decide ((s.sender ()).posting = [1])) rfl
    have hSize : OneSize (vectors ()) := ⟨(vectors () 1).bufferSize, fun _ => rfl⟩
    exact ⟨s, hReach, of_decide_eq_true hTest, checks_pass vectors s () (.inl ⟨hSize, hReach⟩)⟩
  · obtain ⟨s, hReach, hTest⟩ := exists_reach_of_exec (step strings) {} (settledTest strings)
      sendsSettled_of_test (settledWrite (strings () 1).bufferSize)
      (fun s => decide ((s.sender ()).posting = [1])) rfl
    have hString : AllStrings (strings ()) := fun _ => rfl
    exact ⟨s, hReach, of_decide_eq_true hTest, checks_pass strings s () (.inr ⟨hString, hReach⟩)⟩

theorem dead_after_live_fails : ¬∀ (sent : Unit → Int → Value) (s : Channel Unit),
    Reach (step sent) anyStep {} s → ∀ k, LiveAlike (sent k) → ChecksPass sent s k := by
  intro hAll
  obtain ⟨s, hReach, hTest⟩ := exists_reach_of_exec (step deadAfterLive) {} always
    anyStep_of_always
    (negotiate (deadAfterLive () 1).bufferSize ++
      [.processMessage, .processSection, .processSection, .processSection, .processSection,
        .recvLocalDone () 2 (region 3)])
    (fun s => (step deadAfterLive s (.post () 2)).fails .sizesAgree) rfl
  have hFailed := Outcome.fails_iff.mp hTest
  exact (hAll deadAfterLive s hReach () liveAlike_deadAfterLive 2 (region 3) .sizesAgree
    (.inr (.inl hFailed))).1 rfl

end Channel

end TensorFlowOnSpark.Rdma
