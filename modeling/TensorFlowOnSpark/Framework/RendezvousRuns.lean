import TensorFlowOnSpark.Framework.RendezvousExchange

/-!
# Runs of a rendezvous

What holds after any sequence of calls, for a rendezvous that refuses a second
receiver of a key and for one that tolerates it.
-/

namespace TensorFlowOnSpark.Framework.Rendezvous

open Transition LocalRendezvousImpl List

universe v

variable {V : Type v} [Inhabited V] {keyHash : String → UInt64} {K : Set String}
  {h h' : History V}

/-- The calls that lead from `h` to `h'` are all answered, each once, with the status of `h`. -/
def Refused (h h' : History V) : Prop :=
  ∃ sends recvs invoked, h'.sends = h.sends ++ sends ∧ h'.recvs = h.recvs ++ recvs ∧
    h'.invoked = h.invoked ++ invoked ∧ (∀ r ∈ sends, r.result = h.rendezvous.status) ∧
    invoked.map (·.done) = recvs ∧ ∀ a ∈ invoked, a.status = h.rendezvous.status

/-- What a rendezvous that refuses a second receiver promises after the calls so far. -/
structure Exchanges (keyHash : String → UInt64) (K : Set String) (h : History V) : Prop where
  invokedOnce : h.answered.Nodup
  carried : ∀ a ∈ h.invoked, a.status = .ok →
    ∃ r, h.accepted a.done.key = [r] ∧ Carries a r
  oneReceiver : ∀ a ∈ h.invoked, ∀ b ∈ h.invoked, a.status = .ok → b.status = .ok →
    a.done.key = b.done.key → a.done = b.done
  secondSend : h.rendezvous.status = .ok → ∀ r ∈ h.sends, r.key ∈ K → ∀ args value isDead,
    step keyHash h (.send r.key args value isDead) = .next
      { h with sends := h.sends ++ [⟨r.key, args, value, isDead, duplicatedSend r.key⟩] }
  secondRecv : h.rendezvous.status = .ok → ∀ d ∈ h.recvs, ∀ args,
    step keyHash h (.recvAsync d.key args) = .next
      { h with
        recvs := h.recvs ++ [h.receive d.key args]
        invoked := h.invoked ++ [refuse (h.receive d.key args) (duplicatedRecv d.key) args] }
  abort : h.rendezvous.status = .ok → ∀ status, status ≠ .ok →
    ∃ (h' : History V) (waiting : List Receive), step keyHash h (.startAbort status) = .next h' ∧
      h'.rendezvous.status = status ∧ waiting.Nodup ∧
      (∀ d, d ∈ waiting ↔ d ∈ h.recvs ∧ d ∉ h.answered) ∧
      h'.invoked = h.invoked ++ waiting.map fun d => refuse d status {}
  aborted : h.rendezvous.status ≠ .ok →
    ∀ h', Reach (step keyHash) anyStep h h' → Refused h h'

def ofKeys (K : Set String) (_ : History V) (c : Call V) : Prop := c.In K

def ofKeysPatient (K : Set String) (h : History V) (c : Call V) : Prop := c.In K ∧ h.Patient c

theorem mode_step {c : Call V} (hStep : Step keyHash h c h') :
    h'.rendezvous.tolerateDupRecv = h.rendezvous.tolerateDupRecv := by
  cases hStep <;> rfl

theorem sound_of_strict_run (hInj : Set.InjOn keyHash K)
    (hRun : Reach (step keyHash) (ofKeys K) (History.init false) h) :
    Sound keyHash K h ∧ h.rendezvous.tolerateDupRecv = false := by
  refine hRun.invariant
    (fun h => Sound keyHash K h ∧ h.rendezvous.tolerateDupRecv = false) ?_ ?_
  · exact ⟨sound_init false, rfl⟩
  · rintro h c h' ⟨hSound, hMode⟩ hIn hNext
    have hStep := step_of_next keyHash hNext
    refine ⟨sound_step hInj hSound hIn ?_ hStep, (mode_step hStep).trans hMode⟩
    intro hTolerant
    exact absurd (hMode.symm.trans hTolerant) Bool.false_ne_true

theorem sound_of_patient_run {tolerateDupRecv : Bool} (hInj : Set.InjOn keyHash K)
    (hRun : Reach (step keyHash) (ofKeysPatient K) (History.init tolerateDupRecv) h) :
    Sound keyHash K h := by
  refine hRun.invariant (Sound keyHash K) (sound_init tolerateDupRecv) ?_
  rintro h c h' hSound ⟨hIn, hPatient⟩ hNext
  exact sound_step hInj hSound hIn (fun _ => hPatient) (step_of_next keyHash hNext)

theorem secondSend_refused (hSound : Sound keyHash K h) (hRunning : h.rendezvous.status = .ok)
    {r : Sent V} (hr : r ∈ h.sends) (hKey : r.key ∈ K) (args : Args) (value : V) (isDead : Bool) :
    step keyHash h (.send r.key args value isDead) = .next
      { h with sends := h.sends ++ [⟨r.key, args, value, isDead, duplicatedSend r.key⟩] } := by
  have hOwn := hSound.agrees hRunning r.key hKey
  obtain ⟨h', hNext, hStep⟩ := step_send keyHash h r.key args value isDead
  rw [hNext]
  cases hStep with
  | sendAborted _ _ _ _ aborted => exact absurd hRunning aborted
  | sendStores _ _ _ _ running absent =>
    rw [absent] at hOwn
    exact absurd rfl (hOwn.1 r hr)
  | sendDuplicated _ _ _ _ item running found noWaiter => rfl
  | sendServes _ _ _ _ item waiter running found waits =>
    rw [found] at hOwn
    simp only [Agrees, waits] at hOwn
    exact absurd rfl (hOwn.noMessage r hr)

theorem secondRecv_refused (hSound : Sound keyHash K h) (hRunning : h.rendezvous.status = .ok)
    (hMode : h.rendezvous.tolerateDupRecv = false) {d : Receive} (hd : d ∈ h.recvs) (args : Args) :
    step keyHash h (.recvAsync d.key args) = .next
      { h with
        recvs := h.recvs ++ [h.receive d.key args]
        invoked := h.invoked ++
          [refuse (h.receive d.key args) (duplicatedRecv d.key) args] } := by
  have hOwn := hSound.agrees hRunning d.key (hSound.keys d hd)
  obtain ⟨h', hNext, hStep⟩ := step_recvAsync keyHash h d.key args
  rw [hNext]
  cases hStep with
  | recvAborted _ _ aborted => exact absurd hRunning aborted
  | recvWaits _ _ running absent =>
    rw [absent] at hOwn
    exact absurd rfl (hOwn.2 d hd)
  | recvDuplicated _ _ item running found strict busy => rfl
  | recvTakes _ _ item running found free =>
    rw [found] at hOwn
    rcases free with hTolerant | ⟨hFresh, hWaiter⟩
    · exact absurd (hMode.symm.trans hTolerant) Bool.false_ne_true
    · simp only [Agrees, hWaiter] at hOwn
      exact absurd rfl (hOwn.unread hFresh d hd)

theorem refused_step {c : Call V} (hAborted : h.rendezvous.status ≠ .ok)
    (hStep : Step keyHash h c h') : h'.rendezvous.status = h.rendezvous.status ∧ Refused h h' := by
  cases hStep with
  | sendAborted key args value isDead aborted =>
    exact ⟨rfl, [⟨key, args, value, isDead, h.rendezvous.status⟩], [], [], by simp⟩
  | recvAborted key args aborted =>
    exact ⟨rfl, [], [h.receive key args], [refuse (h.receive key args) h.rendezvous.status args],
      by simp [refuse]⟩
  | abortAgain status error aborted => exact ⟨rfl, [], [], [], by simp⟩
  | sendStores _ _ _ _ running _ => exact absurd running hAborted
  | sendDuplicated _ _ _ _ _ running _ _ => exact absurd running hAborted
  | sendServes _ _ _ _ _ _ running _ _ => exact absurd running hAborted
  | recvWaits _ _ running _ => exact absurd running hAborted
  | recvDuplicated _ _ _ running _ _ _ => exact absurd running hAborted
  | recvTakes _ _ _ running _ _ => exact absurd running hAborted
  | abort _ _ running => exact absurd running hAborted

theorem refused_run (hAborted : h.rendezvous.status ≠ .ok)
    (hRun : Reach (step keyHash) anyStep h h') :
    h'.rendezvous.status = h.rendezvous.status ∧ Refused h h' := by
  refine hRun.invariant
    (fun h' => h'.rendezvous.status = h.rendezvous.status ∧ Refused h h') ?_ ?_
  · exact ⟨rfl, [], [], [], by simp⟩
  · rintro h₁ c h₂ ⟨hStatus, sends, recvs, invoked, hSends, hRecvs, hInvoked, hResults, hDone,
      hStatuses⟩ _ hNext
    obtain ⟨hStatus', sends', recvs', invoked', hSends', hRecvs', hInvoked', hResults', hDone',
      hStatuses'⟩ := refused_step (hStatus.trans_ne hAborted) (step_of_next keyHash hNext)
    rw [hStatus] at hStatus' hResults' hStatuses'
    refine ⟨hStatus', sends ++ sends', recvs ++ recvs', invoked ++ invoked', ?_, ?_, ?_, ?_, ?_,
      ?_⟩
    · rw [hSends', hSends, append_assoc]
    · rw [hRecvs', hRecvs, append_assoc]
    · rw [hInvoked', hInvoked, append_assoc]
    · exact forall_mem_append.mpr ⟨hResults, hResults'⟩
    · rw [map_append, hDone, hDone']
    · exact forall_mem_append.mpr ⟨hStatuses, hStatuses'⟩

theorem strict_run_exchanges (hInj : Set.InjOn keyHash K)
    (hRun : Reach (step keyHash) (ofKeys K) (History.init false) h) : Exchanges keyHash K h := by
  obtain ⟨hSound, hMode⟩ := sound_of_strict_run hInj hRun
  refine ⟨hSound.once, hSound.carried, hSound.single hMode, ?_, ?_, ?_, ?_⟩
  · intro hRunning r hr hKey args value isDead
    exact secondSend_refused hSound hRunning hr hKey args value isDead
  · intro hRunning d hd args
    exact secondRecv_refused hSound hRunning hMode hd args
  · intro hRunning status hError
    obtain ⟨h', hNext, hStep⟩ := step_startAbort keyHash h status hError
    refine ⟨h', h.rendezvous.waiters, hNext, ?_⟩
    cases hStep with
    | abortAgain _ _ aborted => exact absurd hRunning aborted
    | abort _ _ _ => exact ⟨rfl, hSound.nodup_waiters, hSound.waiters_iff, rfl⟩
  · intro hAborted h' hRest
    exact (refused_run hAborted hRest).2

def Call.among (keys : List String) : Call V → Bool
  | .send key _ _ _ => keys.contains key
  | .recvAsync key _ => keys.contains key
  | .startAbort _ => true

omit [Inhabited V] in
theorem ofKeys_of_among (keys : List String) (h : History V) (c : Call V)
    (hTest : c.among keys = true) : ofKeys { key | key ∈ keys } h c := by
  cases c with
  | send key args value isDead => exact contains_iff_mem.mp hTest
  | recvAsync key args => exact contains_iff_mem.mp hTest
  | startAbort status => trivial

def lengthHash (key : String) : UInt64 := key.length.toUInt64

theorem lengthHash_injOn : Set.InjOn lengthHash { key | key ∈ ["a", "bb"] } := by
  intro x hx y hy hEq
  simp only [mem_cons, not_mem_nil, or_false] at hx hy
  rcases hx with rfl | rfl <;> rcases hy with rfl | rfl
  · rfl
  · exact absurd hEq (by decide)
  · exact absurd hEq (by decide)
  · rfl

theorem two_keys_exchanged :
    ∃ h : History Nat, Exchanges lengthHash { key | key ∈ ["a", "bb"] } h ∧
      h.invoked.map (fun a => (a.done.key, a.status, a.value)) =
        [("a", .ok, 7), ("bb", Errors.cancelled "step", 0)] := by
  obtain ⟨h, hRun, hTest⟩ := exists_reach_of_exec (step lengthHash)
    (History.init false : History Nat) (fun _ c => c.among ["a", "bb"]) (ofKeys_of_among _)
    [.send "a" {} 7 false, .recvAsync "bb" {}, .recvAsync "a" {},
      .startAbort (Errors.cancelled "step")]
    (fun h => h.invoked.map (fun a => (a.done.key, a.status, a.value)) =
      [("a", .ok, 7), ("bb", Errors.cancelled "step", 0)])
    (by decide)
  exact ⟨h, strict_run_exchanges lengthHash_injOn hRun, of_decide_eq_true hTest⟩

/-- The second message of a key comes after an abort, and fails with the status of the abort. -/
theorem second_send_after_abort :
    ¬∀ h : History Nat, Reach (step lengthHash) (ofKeys { key | key ∈ ["a", "bb"] })
        (History.init false) h →
      h.sends.Pairwise fun r r' => r.key = r'.key → r'.result.code? = some .aborted := by
  intro hAll
  obtain ⟨h, hRun, hTest⟩ := exists_reach_of_exec (step lengthHash)
    (History.init false : History Nat) (fun _ c => c.among ["a", "bb"]) (ofKeys_of_among _)
    [.send "a" {} 7 false, .startAbort (Errors.cancelled "step"), .send "a" {} 8 false]
    (fun h => h.sends.map (fun r => (r.key, r.result.code?)) =
      [("a", none), ("a", some .cancelled)])
    (by decide)
  have hPairs := (pairwise_map (f := fun r : Sent Nat => (r.key, r.result.code?))
    (R := fun p p' => p.1 = p'.1 → p'.2 = some .aborted)).mpr (hAll h hRun)
  rw [of_decide_eq_true hTest] at hPairs
  simp at hPairs

instance (h : History V) (c : Call V) : Decidable (h.Patient c) :=
  match c with
  | .send _ _ _ _ => inferInstanceAs (Decidable True)
  | .recvAsync key _ => inferInstanceAs (Decidable (∀ d ∈ h.recvs, d.key = key → d ∈ h.answered))
  | .startAbort _ => inferInstanceAs (Decidable True)

/-- A callback of a tolerant rendezvous that is told `OK` has the message of its key. -/
theorem patient_run_carries (hInj : Set.InjOn keyHash K)
    (hRun : Reach (step keyHash) (ofKeysPatient K) (History.init true) h) :
    ∀ a ∈ h.invoked, a.status = .ok → ∃ r, h.accepted a.done.key = [r] ∧ Carries a r :=
  (sound_of_patient_run hInj hRun).carried

omit [Inhabited V] in
theorem ofKeysPatient_of_test (keys : List String) (h : History V) (c : Call V)
    (hTest : (c.among keys && decide (h.Patient c)) = true) :
    ofKeysPatient { key | key ∈ keys } h c := by
  rw [Bool.and_eq_true, decide_eq_true_eq] at hTest
  exact ⟨ofKeys_of_among keys h c hTest.1, hTest.2⟩

theorem late_duplicate_carries :
    ∃ h : History Nat,
      (∀ a ∈ h.invoked, a.status = .ok → ∃ r, h.accepted a.done.key = [r] ∧ Carries a r) ∧
      h.invoked.map (fun a => (a.done.index, a.status, a.value)) = [(0, .ok, 7), (1, .ok, 7)] := by
  obtain ⟨h, hRun, hTest⟩ := exists_reach_of_exec (step lengthHash)
    (History.init true : History Nat) (fun h c => c.among ["a", "bb"] && decide (h.Patient c))
    (ofKeysPatient_of_test _)
    [.recvAsync "a" {}, .send "a" {} 7 false, .recvAsync "a" {}]
    (fun h => h.invoked.map (fun a => (a.done.index, a.status, a.value)) =
      [(0, .ok, 7), (1, .ok, 7)])
    (by decide)
  exact ⟨h, patient_run_carries lengthHash_injOn hRun, of_decide_eq_true hTest⟩

/-- A second receiver finds the item of the first one and takes its empty value. -/
theorem early_duplicate_answered_without_message :
    ¬∀ h : History Nat, Reach (step lengthHash) (ofKeys { key | key ∈ ["a", "bb"] })
        (History.init true) h →
      ∀ a ∈ h.invoked, a.status = .ok →
        ∃ r ∈ h.sends, r.key = a.done.key ∧ a.value = r.value ∧ a.isDead = r.isDead := by
  intro hAll
  obtain ⟨h, hRun, hTest⟩ := exists_reach_of_exec (step lengthHash)
    (History.init true : History Nat) (fun _ c => c.among ["a", "bb"]) (ofKeys_of_among _)
    [.recvAsync "a" {}, .recvAsync "a" {}]
    (fun h => h.invoked.any (fun a => a.status = .ok) && h.sends.isEmpty)
    (by decide)
  rw [Bool.and_eq_true, any_eq_true, List.isEmpty_iff] at hTest
  obtain ⟨⟨a, ha, hOk⟩, hNone⟩ := hTest
  obtain ⟨r, hr, _⟩ := hAll h hRun a ha (of_decide_eq_true hOk)
  rw [hNone] at hr
  cases hr

end TensorFlowOnSpark.Framework.Rendezvous
