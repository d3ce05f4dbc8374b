import Mathlib.Data.Set.Function
import TensorFlowOnSpark.Framework.Rendezvous

/-!
# What a rendezvous exchanges

For each key the table item agrees with the history of the calls on that key.
-/

namespace TensorFlowOnSpark.Framework.Rendezvous

open Transition LocalRendezvousImpl List

universe v

variable {V : Type v} {keyHash : String → UInt64} {h h' : History V}

section Calls

variable [Inhabited V] (keyHash)

def History.find (h : History V) (key : String) : Option (Item Receive V) :=
  h.rendezvous.table.lookup (keyHash key)

def History.put (h : History V) (key : String) (item : Item Receive V) :
    LocalRendezvousImpl Receive V :=
  { h.rendezvous with table := h.rendezvous.table.insert (keyHash key) item }

def History.receive (h : History V) (key : String) (args : Args) : Receive :=
  ⟨h.recvs.length, key, args⟩

def duplicatedSend (key : String) : Status := Errors.aborted ("Duplicated send: " ++ key)

def duplicatedRecv (key : String) : Status := Errors.aborted ("Duplicated recv: " ++ key)

def served (waiter : Receive) (item : Item Receive V) (args : Args) (value : V) (isDead : Bool) :
    Invocation Receive V :=
  ⟨waiter, .ok, args, ⟨item.recvDevContext, item.recvAllocAttrs⟩, value, isDead⟩

def taken (done : Receive) (item : Item Receive V) : Invocation Receive V :=
  ⟨done, .ok, ⟨item.sendDevContext, item.sendAllocAttrs⟩, done.args, item.value, item.isDead⟩

/-- What the calls can do, one constructor for each way through the source. -/
inductive Step (h : History V) : Call V → History V → Prop where
  | sendAborted (key : String) (args : Args) (value : V) (isDead : Bool)
      (aborted : h.rendezvous.status ≠ .ok) :
      Step h (.send key args value isDead)
        { h with sends := h.sends ++ [⟨key, args, value, isDead, h.rendezvous.status⟩] }
  | sendStores (key : String) (args : Args) (value : V) (isDead : Bool)
      (running : h.rendezvous.status = .ok) (absent : h.find keyHash key = none) :
      Step h (.send key args value isDead)
        { h with
          rendezvous := h.put keyHash key (.ofMessage args value isDead)
          sends := h.sends ++ [⟨key, args, value, isDead, .ok⟩] }
  | sendDuplicated (key : String) (args : Args) (value : V) (isDead : Bool)
      (item : Item Receive V) (running : h.rendezvous.status = .ok)
      (found : h.find keyHash key = some item) (noWaiter : item.waiter = none) :
      Step h (.send key args value isDead)
        { h with sends := h.sends ++ [⟨key, args, value, isDead, duplicatedSend key⟩] }
  | sendServes (key : String) (args : Args) (value : V) (isDead : Bool)
      (item : Item Receive V) (waiter : Receive) (running : h.rendezvous.status = .ok)
      (found : h.find keyHash key = some item) (waits : item.waiter = some waiter) :
      Step h (.send key args value isDead)
        { h with
          rendezvous :=
            h.put keyHash key (item.met h.rendezvous.tolerateDupRecv args value isDead)
          sends := h.sends ++ [⟨key, args, value, isDead, .ok⟩]
          invoked := h.invoked ++ [served waiter item args value isDead] }
  | recvAborted (key : String) (args : Args) (aborted : h.rendezvous.status ≠ .ok) :
      Step h (.recvAsync key args)
        { h with
          recvs := h.recvs ++ [h.receive key args]
          invoked := h.invoked ++ [refuse (h.receive key args) h.rendezvous.status args] }
  | recvWaits (key : String) (args : Args) (running : h.rendezvous.status = .ok)
      (absent : h.find keyHash key = none) :
      Step h (.recvAsync key args)
        { h with
          rendezvous := h.put keyHash key (.ofWaiter (h.receive key args) args)
          recvs := h.recvs ++ [h.receive key args] }
  | recvDuplicated (key : String) (args : Args) (item : Item Receive V)
      (running : h.rendezvous.status = .ok) (found : h.find keyHash key = some item)
      (strict : h.rendezvous.tolerateDupRecv = false)
      (busy : item.hasBeenRecvd ∨ item.waiter ≠ none) :
      Step h (.recvAsync key args)
        { h with
          recvs := h.recvs ++ [h.receive key args]
          invoked := h.invoked ++ [refuse (h.receive key args) (duplicatedRecv key) args] }
  | recvTakes (key : String) (args : Args) (item : Item Receive V)
      (running : h.rendezvous.status = .ok) (found : h.find keyHash key = some item)
      (free : h.rendezvous.tolerateDupRecv ∨
        item.hasBeenRecvd = false ∧ item.waiter = none) :
      Step h (.recvAsync key args)
        { h with
          rendezvous := h.put keyHash key (item.taken h.rendezvous.tolerateDupRecv)
          recvs := h.recvs ++ [h.receive key args]
          invoked := h.invoked ++ [taken (h.receive key args) item] }
  | abortAgain (status : Status) (error : status ≠ .ok) (aborted : h.rendezvous.status ≠ .ok) :
      Step h (.startAbort status) h
  | abort (status : Status) (error : status ≠ .ok) (running : h.rendezvous.status = .ok) :
      Step h (.startAbort status)
        { h with
          rendezvous := { h.rendezvous with status := status, table := ∅ }
          invoked := h.invoked ++ h.rendezvous.waiters.map fun waiter =>
            refuse waiter status {} }

theorem step_send (h : History V) (key : String) (args : Args) (value : V) (isDead : Bool) :
    ∃ h', step keyHash h (.send key args value isDead) = .next h' ∧
      Step keyHash h (.send key args value isDead) h' := by
  rcases hSend : h.rendezvous.send keyHash key args value isDead with ⟨result, r, invoked⟩
  refine ⟨_, by rw [step, hSend], ?_⟩
  rw [send.eq_def] at hSend
  split at hSend
  · rename_i hStatus
    cases hSend
    rw [append_nil]
    exact .sendAborted key args value isDead hStatus
  · rename_i hStatus
    have hRunning := not_not.mp hStatus
    split at hSend
    · rename_i hFind
      cases hSend
      rw [append_nil]
      exact .sendStores key args value isDead hRunning hFind
    · rename_i item hFind
      split at hSend
      · rename_i hWaiter
        cases hSend
        rw [append_nil]
        exact .sendDuplicated key args value isDead item hRunning hFind hWaiter
      · rename_i waiter hWaiter
        cases hSend
        exact .sendServes key args value isDead item waiter hRunning hFind hWaiter

theorem step_recvAsync (h : History V) (key : String) (args : Args) :
    ∃ h', step keyHash h (.recvAsync key args) = .next h' ∧
      Step keyHash h (.recvAsync key args) h' := by
  rcases hRecv : h.rendezvous.recvAsync keyHash key args (h.receive key args) with ⟨r, invoked⟩
  rw [History.receive] at hRecv
  refine ⟨_, by rw [step, hRecv], ?_⟩
  rw [recvAsync.eq_def] at hRecv
  split at hRecv
  · rename_i hStatus
    cases hRecv
    exact .recvAborted key args hStatus
  · rename_i hStatus
    have hRunning := not_not.mp hStatus
    split at hRecv
    · rename_i item hFind
      split at hRecv
      · rename_i hRecvd
        cases hRecv
        rw [Bool.and_eq_true, Bool.not_eq_true'] at hRecvd
        exact .recvDuplicated key args item hRunning hFind hRecvd.2 (.inl hRecvd.1)
      · rename_i hRecvd
        split at hRecv
        · rename_i hFree
          cases hRecv
          refine .recvTakes key args item hRunning hFind ?_
          rw [Bool.or_eq_true, Option.isNone_iff_eq_none] at hFree
          grind
        · rename_i hBusy
          cases hRecv
          rw [Bool.or_eq_true, Option.isNone_iff_eq_none, not_or, Bool.not_eq_true] at hBusy
          exact .recvDuplicated key args item hRunning hFind hBusy.2 (.inr hBusy.1)
    · rename_i hFind
      cases hRecv
      rw [append_nil]
      exact .recvWaits key args hRunning hFind

theorem step_startAbort (h : History V) (status : Status) (hError : status ≠ .ok) :
    ∃ h', step keyHash h (.startAbort status) = .next h' ∧
      Step keyHash h (.startAbort status) h' := by
  rcases hAbort : h.rendezvous.startAbort status with ⟨r, invoked⟩
  refine ⟨_, by rw [step, if_neg hError, hAbort], ?_⟩
  rw [startAbort.eq_def] at hAbort
  split at hAbort
  · rename_i hStatus
    cases hAbort
    rw [append_nil]
    exact .abortAgain status hError hStatus
  · rename_i hStatus
    cases hAbort
    exact .abort status hError (not_not.mp hStatus)

theorem step_of_next {c : Call V} (hNext : step keyHash h c = .next h') : Step keyHash h c h' := by
  have of_exists (hSome : ∃ h', step keyHash h c = .next h' ∧ Step keyHash h c h') :
      Step keyHash h c h' := by
    obtain ⟨h'', hStep, hCase⟩ := hSome
    cases hNext.symm.trans hStep
    exact hCase
  cases c with
  | send key args value isDead => exact of_exists (step_send keyHash h key args value isDead)
  | recvAsync key args => exact of_exists (step_recvAsync keyHash h key args)
  | startAbort status =>
    by_cases hError : status = .ok
    · rw [step, if_pos hError] at hNext
      cases hNext
    · exact of_exists (step_startAbort keyHash h status hError)

end Calls

section Invariant

def History.answered (h : History V) : List Receive := h.invoked.map (·.done)

def History.accepted (h : History V) (key : String) : List (Sent V) :=
  h.sends.filter fun r => r.key = key ∧ r.result = .ok

structure Carries (a : Invocation Receive V) (r : Sent V) : Prop where
  value : a.value = r.value
  isDead : a.isDead = r.isDead
  sendArgs : a.sendArgs = r.args
  recvArgs : a.recvArgs = a.done.args

structure Waiting (h : History V) (key : String) (item : Item Receive V) (waiter : Receive) :
    Prop where
  noMessage : ∀ r ∈ h.sends, r.key ≠ key
  args : ⟨item.recvDevContext, item.recvAllocAttrs⟩ = waiter.args
  fresh : item.hasBeenRecvd = false
  noContext : item.sendDevContext = none

def Holds (item : Item Receive V) (r : Sent V) : Prop :=
  item.value = r.value ∧ item.isDead = r.isDead ∧
    ⟨item.sendDevContext, item.sendAllocAttrs⟩ = r.args

structure Arrived (h : History V) (key : String) (item : Item Receive V) : Prop where
  message : ∃ r, h.accepted key = [r] ∧
    (h.rendezvous.tolerateDupRecv ∨ item.hasBeenRecvd = false → Holds item r)
  unread : item.hasBeenRecvd = false → ∀ d ∈ h.recvs, d.key ≠ key

def Agrees (h : History V) (key : String) : Option (Item Receive V) → Prop
  | none => (∀ r ∈ h.sends, r.key ≠ key) ∧ ∀ d ∈ h.recvs, d.key ≠ key
  | some item =>
    match item.waiter with
    | some waiter => Waiting h key item waiter
    | none => Arrived h key item

structure Sound (keyHash : String → UInt64) (K : Set String) (h : History V) : Prop where
  keys : ∀ d ∈ h.recvs, d.key ∈ K
  numbered : ∀ d ∈ h.recvs, d.index < h.recvs.length
  known : ∀ d ∈ h.answered, d ∈ h.recvs
  once : h.answered.Nodup
  carried : ∀ a ∈ h.invoked, a.status = .ok →
    ∃ r, h.accepted a.done.key = [r] ∧ Carries a r
  single : h.rendezvous.tolerateDupRecv = false →
    ∀ a ∈ h.invoked, ∀ b ∈ h.invoked, a.status = .ok → b.status = .ok →
      a.done.key = b.done.key → a.done = b.done
  listed : ∀ x item d, h.rendezvous.table.lookup x = some item → item.waiter = some d →
    x = keyHash d.key ∧ d ∈ h.recvs ∧ d ∉ h.answered
  waiting : ∀ d ∈ h.recvs, d ∉ h.answered →
    ∃ item, h.find keyHash d.key = some item ∧ item.waiter = some d
  agrees : h.rendezvous.status = .ok → ∀ key ∈ K, Agrees h key (h.find keyHash key)

def Call.In (K : Set String) : Call V → Prop
  | .send key _ _ _ => key ∈ K
  | .recvAsync key _ => key ∈ K
  | .startAbort _ => True

def History.Patient (h : History V) : Call V → Prop
  | .recvAsync key _ => ∀ d ∈ h.recvs, d.key = key → d ∈ h.answered
  | .send _ _ _ _ => True
  | .startAbort _ => True

theorem accepted_eq_nil {key : String} (hNone : ∀ r ∈ h.sends, r.key ≠ key) :
    h.accepted key = [] := by
  apply filter_eq_nil_iff.mpr
  intro r hr
  simp [hNone r hr]

theorem accepted_append (r : Sent V) (key : String) :
    History.accepted { h with sends := h.sends ++ [r] } key =
      h.accepted key ++ if r.key = key ∧ r.result = .ok then [r] else [] := by
  rw [History.accepted, filter_append, filter_singleton]
  simp [History.accepted]

/-- The call that leads from `h` to `h'` is on this key. -/
structure Concerns (h h' : History V) (key : String) : Prop where
  mode : h'.rendezvous.tolerateDupRecv = h.rendezvous.tolerateDupRecv
  sends : ∀ r ∈ h'.sends, r ∈ h.sends ∨ r.key = key
  accepted : ∀ key', key' ≠ key → h'.accepted key' = h.accepted key'
  recvs : ∀ d ∈ h'.recvs, d ∈ h.recvs ∨ d.key = key

theorem Agrees.frame {key key' : String} {found : Option (Item Receive V)}
    (hAgrees : Agrees h key' found) (hConcerns : Concerns h h' key) (hNe : key' ≠ key) :
    Agrees h' key' found := by
  have hNoSend (hNone : ∀ r ∈ h.sends, r.key ≠ key') : ∀ r ∈ h'.sends, r.key ≠ key' := by
    intro r hr
    rcases hConcerns.sends r hr with hOld | hKey
    · exact hNone r hOld
    · rw [hKey]
      exact hNe.symm
  have hNoRecv (hNone : ∀ d ∈ h.recvs, d.key ≠ key') : ∀ d ∈ h'.recvs, d.key ≠ key' := by
    intro d hd
    rcases hConcerns.recvs d hd with hOld | hKey
    · exact hNone d hOld
    · rw [hKey]
      exact hNe.symm
  cases found with
  | none => exact ⟨hNoSend hAgrees.1, hNoRecv hAgrees.2⟩
  | some item =>
    rw [Agrees] at hAgrees ⊢
    split at hAgrees
    · exact { hAgrees with noMessage := hNoSend hAgrees.noMessage }
    · obtain ⟨r, hMessage, hHolds⟩ := hAgrees.message
      refine ⟨⟨r, (hConcerns.accepted key' hNe).trans hMessage, ?_⟩, ?_⟩
      · rw [hConcerns.mode]
        exact hHolds
      · intro hFresh
        exact hNoRecv (hAgrees.unread hFresh)

theorem concerns_send (key : String) (args : Args) (value : V) (isDead : Bool) (result : Status)
    (r : LocalRendezvousImpl Receive V) (invoked : List (Invocation Receive V))
    (hMode : r.tolerateDupRecv = h.rendezvous.tolerateDupRecv) :
    Concerns h
      { h with
        rendezvous := r, sends := h.sends ++ [⟨key, args, value, isDead, result⟩],
        invoked := invoked } key where
  mode := hMode
  sends := by
    intro r hr
    rcases mem_append.mp hr with hOld | hNew
    · exact .inl hOld
    · rw [mem_singleton.mp hNew]
      exact .inr rfl
  accepted := by
    intro key' hNe
    exact (accepted_append _ _).trans (by simp [hNe.symm])
  recvs := fun d hd => .inl hd

theorem concerns_recv (key : String) (args : Args) (r : LocalRendezvousImpl Receive V)
    (invoked : List (Invocation Receive V))
    (hMode : r.tolerateDupRecv = h.rendezvous.tolerateDupRecv) :
    Concerns h
      { h with
        rendezvous := r, recvs := h.recvs ++ [h.receive key args], invoked := invoked } key where
  mode := hMode
  sends := fun r hr => .inl hr
  accepted := fun _ _ => rfl
  recvs := by
    intro d hd
    rcases mem_append.mp hd with hOld | hNew
    · exact .inl hOld
    · rw [mem_singleton.mp hNew]
      exact .inr rfl

variable {K : Set String}
variable {key : String} {d : Receive}

theorem Sound.agrees_step (hSound : Sound keyHash K h) (hInj : Set.InjOn keyHash K)
    (hKey : key ∈ K) (hConcerns : Concerns h h' key)
    (hStatus : h'.rendezvous.status = h.rendezvous.status)
    (hFind : ∀ x, x ≠ keyHash key →
      h'.rendezvous.table.lookup x = h.rendezvous.table.lookup x)
    (hOwn : h.rendezvous.status = .ok → Agrees h key (h.find keyHash key) →
      Agrees h' key (h'.find keyHash key)) :
    h'.rendezvous.status = .ok → ∀ key' ∈ K, Agrees h' key' (h'.find keyHash key') := by
  rw [hStatus]
  intro hRunning key' hKey'
  by_cases hEq : key' = key
  · rw [hEq]
    exact hOwn hRunning (hSound.agrees hRunning key hKey)
  · have hSame : h'.find keyHash key' = h.find keyHash key' :=
      hFind _ fun hHash => hEq (hInj hKey' hKey hHash)
    rw [hSame]
    exact (hSound.agrees hRunning key' hKey').frame hConcerns hEq

theorem lookup_put (key : String) (item : Item Receive V) (x : UInt64) :
    (h.put keyHash key item).table.lookup x =
      if x = keyHash key then some item else h.rendezvous.table.lookup x := by
  split
  · rename_i hEq
    rw [hEq]
    exact AList.lookup_insert _
  · rename_i hNe
    exact AList.lookup_insert_ne hNe

section

variable (hSound : Sound keyHash K h)

include hSound

theorem Sound.waiting_put (hInj : Set.InjOn keyHash K) (hKey : key ∈ K)
    (item : Item Receive V) (hd : d ∈ h.recvs) (hNe : d.key ≠ key) (hUnanswered : d ∉ h.answered) :
    ∃ found, (h.put keyHash key item).table.lookup (keyHash d.key) = some found ∧
      found.waiter = some d := by
  obtain ⟨found, hFind, hWaiter⟩ := hSound.waiting d hd hUnanswered
  refine ⟨found, ?_, hWaiter⟩
  rw [lookup_put, if_neg fun hEq => hNe (hInj (hSound.keys d hd) hKey hEq)]
  exact hFind

theorem Sound.no_answer (hNone : ∀ r ∈ h.sends, r.key ≠ key)
    {a : Invocation Receive V} (ha : a ∈ h.invoked) (hOk : a.status = .ok) : a.done.key ≠ key := by
  intro hKey
  obtain ⟨r, hAccepted, _⟩ := hSound.carried a ha hOk
  rw [hKey, accepted_eq_nil hNone] at hAccepted
  cases hAccepted

theorem Sound.refused_send (hInj : Set.InjOn keyHash K)
    (hKey : key ∈ K) (args : Args) (value : V) (isDead : Bool) (result : Status)
    (hRefused : result ≠ .ok)
    (hArrived : h.rendezvous.status = .ok →
      ∃ item, h.find keyHash key = some item ∧ item.waiter = none) :
    Sound keyHash K { h with sends := h.sends ++ [⟨key, args, value, isDead, result⟩] } := by
  have hAccepted (key' : String) :
      History.accepted { h with sends := h.sends ++ [⟨key, args, value, isDead, result⟩] } key' =
        h.accepted key' := by
    rw [accepted_append, if_neg (fun hBoth => hRefused hBoth.2), append_nil]
  refine { hSound with carried := ?_, agrees := ?_ }
  · intro a ha hOk
    rw [hAccepted]
    exact hSound.carried a ha hOk
  · refine hSound.agrees_step hInj hKey (concerns_send key args value isDead result _ _ rfl) rfl
      (fun _ _ => rfl) ?_
    intro hRunning hAgrees
    obtain ⟨item, hFind, hWaiter⟩ := hArrived hRunning
    change Agrees _ key (h.find keyHash key)
    rw [hFind] at hAgrees ⊢
    simp only [Agrees, hWaiter] at hAgrees ⊢
    obtain ⟨r, hMessage, hHolds⟩ := hAgrees.message
    exact ⟨⟨r, (hAccepted key).trans hMessage, hHolds⟩, hAgrees.unread⟩

theorem Sound.sendStores (hInj : Set.InjOn keyHash K)
    (hKey : key ∈ K) (args : Args) (value : V) (isDead : Bool)
    (hRunning : h.rendezvous.status = .ok) (hAbsent : h.find keyHash key = none) :
    Sound keyHash K
      { h with
        rendezvous := h.put keyHash key (.ofMessage args value isDead)
        sends := h.sends ++ [⟨key, args, value, isDead, .ok⟩] } := by
  have hOwn := hSound.agrees hRunning key hKey
  rw [hAbsent] at hOwn
  obtain ⟨hNoSend, hNoRecv⟩ := hOwn
  refine { hSound with carried := ?_, listed := ?_, waiting := ?_, agrees := ?_ }
  · intro a ha hOk
    have hNe := hSound.no_answer hNoSend ha hOk
    obtain ⟨r, hAccepted, hCarries⟩ := hSound.carried a ha hOk
    refine ⟨r, ?_, hCarries⟩
    exact (accepted_append _ _).trans (by simp [hNe.symm, hAccepted])
  · intro x item d hLookup hWaiter
    simp only [lookup_put] at hLookup
    split at hLookup
    · cases hLookup
      cases hWaiter
    · exact hSound.listed x item d hLookup hWaiter
  · intro d hd hUnanswered
    exact hSound.waiting_put hInj hKey _ hd (hNoRecv d hd) hUnanswered
  · refine hSound.agrees_step hInj hKey (concerns_send key args value isDead .ok _ _ rfl) rfl ?_ ?_
    · intro x hNe
      simp only [lookup_put, if_neg hNe]
    · intro _ _
      simp only [History.find, lookup_put]
      refine ⟨⟨⟨key, args, value, isDead, .ok⟩, ?_, ?_⟩, fun _ => hNoRecv⟩
      · exact (accepted_append _ _).trans (by simp [accepted_eq_nil hNoSend])
      · intro _
        exact ⟨rfl, rfl, rfl⟩

end

theorem nodup_append_singleton {ds : List Receive} (hNodup : ds.Nodup)
    (hNew : d ∉ ds) : (ds ++ [d]).Nodup := by
  refine nodup_append.mpr ⟨hNodup, nodup_singleton d, ?_⟩
  rintro a ha b hb rfl
  exact hNew (mem_singleton.mp hb ▸ ha)

section

variable (hSound : Sound keyHash K h)
include hSound

theorem Sound.single_append
    (hMode : h.rendezvous.tolerateDupRecv = false) {c : Invocation Receive V}
    (hFirst : ∀ b ∈ h.invoked, b.status = .ok → b.done.key ≠ c.done.key) :
    ∀ a ∈ h.invoked ++ [c], ∀ b ∈ h.invoked ++ [c], a.status = .ok → b.status = .ok →
      a.done.key = b.done.key → a.done = b.done := by
  intro a ha b hb hOkA hOkB hSame
  rcases mem_append.mp ha with hOldA | hNewA <;>
    rcases mem_append.mp hb with hOldB | hNewB
  · exact hSound.single hMode a hOldA b hOldB hOkA hOkB hSame
  · rw [mem_singleton.mp hNewB] at hSame
    exact absurd hSame (hFirst a hOldA hOkA)
  · rw [mem_singleton.mp hNewA] at hSame
    exact absurd hSame.symm (hFirst b hOldB hOkB)
  · rw [mem_singleton.mp hNewA, mem_singleton.mp hNewB]

theorem Sound.waiter_of_found (hInj : Set.InjOn keyHash K)
    (hKey : key ∈ K) {item : Item Receive V} {waiter : Receive}
    (hFound : h.find keyHash key = some item) (hWaits : item.waiter = some waiter) :
    waiter.key = key ∧ waiter ∈ h.recvs ∧ waiter ∉ h.answered := by
  obtain ⟨hHash, hRecv, hUnanswered⟩ := hSound.listed _ item waiter hFound hWaits
  exact ⟨(hInj hKey (hSound.keys waiter hRecv) hHash).symm, hRecv, hUnanswered⟩

theorem Sound.sendServes (hInj : Set.InjOn keyHash K)
    (hKey : key ∈ K) (args : Args) (value : V) (isDead : Bool)
    (item : Item Receive V) (waiter : Receive) (hRunning : h.rendezvous.status = .ok)
    (hFound : h.find keyHash key = some item) (hWaits : item.waiter = some waiter) :
    Sound keyHash K
      { h with
        rendezvous := h.put keyHash key (item.met h.rendezvous.tolerateDupRecv args value isDead)
        sends := h.sends ++ [⟨key, args, value, isDead, .ok⟩]
        invoked := h.invoked ++ [served waiter item args value isDead] } := by
  obtain ⟨hWaiterKey, hRecv, hUnanswered⟩ := hSound.waiter_of_found hInj hKey hFound hWaits
  have hWaiting : Waiting h key item waiter := by
    have hOwn := hSound.agrees hRunning key hKey
    rw [hFound] at hOwn
    simpa only [Agrees, hWaits] using hOwn
  have hAccepted (key' : String) :
      History.accepted { h with sends := h.sends ++ [⟨key, args, value, isDead, .ok⟩] } key' =
        h.accepted key' ++ if key = key' then [⟨key, args, value, isDead, .ok⟩] else [] := by
    rw [accepted_append]
    simp only [and_true]
  have hMessage := accepted_eq_nil hWaiting.noMessage
  have hMet : (item.met h.rendezvous.tolerateDupRecv args value isDead).waiter = none ∧
      (item.met h.rendezvous.tolerateDupRecv args value isDead).hasBeenRecvd := by
    rw [Item.met]
    split <;> exact ⟨rfl, rfl⟩
  have hAnswered : (h.invoked ++ [served waiter item args value isDead]).map (·.done) =
      h.answered ++ [waiter] := map_append
  refine
    { hSound with
      known := ?_, once := ?_, carried := ?_, single := ?_, listed := ?_, waiting := ?_,
      agrees := ?_ }
  · intro d hd
    rw [History.answered, hAnswered, mem_append, mem_singleton] at hd
    exact hd.elim (hSound.known d) fun hEq => hEq ▸ hRecv
  · rw [History.answered, hAnswered]
    exact nodup_append_singleton hSound.once hUnanswered
  · intro a ha hOk
    rcases mem_append.mp ha with hOld | hNew
    · have hNe := hSound.no_answer hWaiting.noMessage hOld hOk
      obtain ⟨r, hSent, hCarries⟩ := hSound.carried a hOld hOk
      exact ⟨r, (hAccepted _).trans (by rw [if_neg hNe.symm, hSent, append_nil]), hCarries⟩
    · rw [mem_singleton.mp hNew]
      refine ⟨⟨key, args, value, isDead, .ok⟩, ?_, rfl, rfl, rfl, hWaiting.args⟩
      change History.accepted { h with sends := _ } waiter.key = _
      rw [hAccepted, hWaiterKey, if_pos rfl, hMessage, nil_append]
  · intro hMode
    refine hSound.single_append hMode ?_
    intro b hb hOk
    rw [served, hWaiterKey]
    exact hSound.no_answer hWaiting.noMessage hb hOk
  · intro x found d hLookup hWaiter
    simp only [lookup_put] at hLookup
    split at hLookup
    · cases hLookup
      rw [hMet.1] at hWaiter
      cases hWaiter
    · rename_i hNe
      obtain ⟨hHash, hd, hOpen⟩ := hSound.listed x found d hLookup hWaiter
      refine ⟨hHash, hd, ?_⟩
      rw [History.answered, hAnswered, mem_append, mem_singleton, not_or]
      refine ⟨hOpen, ?_⟩
      rintro rfl
      rw [hWaiterKey] at hHash
      exact hNe hHash
  · intro d hd hOpen
    rw [History.answered, hAnswered, mem_append, mem_singleton, not_or] at hOpen
    refine hSound.waiting_put hInj hKey _ hd ?_ hOpen.1
    rintro rfl
    obtain ⟨found, hFind, hWaiter⟩ := hSound.waiting d hd hOpen.1
    cases hFound.symm.trans hFind
    cases hWaits.symm.trans hWaiter
    exact hOpen.2 rfl
  · refine hSound.agrees_step hInj hKey (concerns_send key args value isDead .ok _ _ rfl) rfl ?_ ?_
    · intro x hNe
      simp only [lookup_put, if_neg hNe]
    · intro _ _
      simp only [History.find, lookup_put, if_true, Agrees, hMet.1]
      refine ⟨⟨⟨key, args, value, isDead, .ok⟩, ?_, ?_⟩, ?_⟩
      · exact (hAccepted key).trans (by rw [if_pos rfl, hMessage, nil_append])
      · intro hKept
        have hMode : h.rendezvous.tolerateDupRecv :=
          hKept.resolve_right (by simp only [hMet.2, Bool.true_eq_false, not_false_eq_true])
        simp [Holds, Item.met, hMode, hWaiting.noContext]
      · intro hFresh
        rw [hMet.2] at hFresh
        cases hFresh

theorem Sound.keys_append (hKey : key ∈ K)
    (args : Args) : ∀ d ∈ h.recvs ++ [h.receive key args], d.key ∈ K := by
  intro d hd
  rcases mem_append.mp hd with hOld | hNew
  · exact hSound.keys d hOld
  · rw [mem_singleton.mp hNew]
    exact hKey

theorem Sound.numbered_append (key : String) (args : Args) :
    ∀ d ∈ h.recvs ++ [h.receive key args],
      d.index < (h.recvs ++ [h.receive key args]).length := by
  intro d hd
  rw [length_append]
  rcases mem_append.mp hd with hOld | hNew
  · exact Nat.lt_succ_of_lt (hSound.numbered d hOld)
  · rw [mem_singleton.mp hNew]
    exact Nat.lt_succ_self _

theorem Sound.new_receive (key : String) (args : Args) : h.receive key args ∉ h.recvs := by
  intro hMem
  exact Nat.lt_irrefl _ (hSound.numbered _ hMem)

theorem Sound.new_unanswered (key : String) (args : Args) : h.receive key args ∉ h.answered := by
  intro hMem
  exact hSound.new_receive key args (hSound.known _ hMem)

section

variable (hInj : Set.InjOn keyHash K)

include hInj

theorem Sound.recvWaits [Inhabited V] (hKey : key ∈ K) (args : Args)
    (hRunning : h.rendezvous.status = .ok) (hAbsent : h.find keyHash key = none) :
    Sound keyHash K
      { h with
        rendezvous := h.put keyHash key (.ofWaiter (h.receive key args) args)
        recvs := h.recvs ++ [h.receive key args] } := by
  have hOwn := hSound.agrees hRunning key hKey
  rw [hAbsent] at hOwn
  obtain ⟨hNoSend, hNoRecv⟩ := hOwn
  refine
    { hSound with
      keys := hSound.keys_append hKey args, numbered := hSound.numbered_append key args,
      known := ?_, listed := ?_, waiting := ?_, agrees := ?_ }
  · intro d hd
    exact mem_append_left _ (hSound.known d hd)
  · intro x item d hLookup hWaiter
    simp only [lookup_put] at hLookup
    split at hLookup
    · rename_i hEq
      cases hLookup
      cases hWaiter
      exact ⟨hEq, mem_append_right _ (mem_singleton_self _),
        hSound.new_unanswered key args⟩
    · obtain ⟨hHash, hd, hOpen⟩ := hSound.listed x item d hLookup hWaiter
      exact ⟨hHash, mem_append_left _ hd, hOpen⟩
  · intro d hd hOpen
    rcases mem_append.mp hd with hOld | hNew
    · exact hSound.waiting_put hInj hKey _ hOld (hNoRecv d hOld) hOpen
    · rw [mem_singleton.mp hNew]
      refine ⟨_, (lookup_put key _ _).trans (if_pos rfl), rfl⟩
  · refine hSound.agrees_step hInj hKey (concerns_recv key args _ _ rfl) rfl ?_ ?_
    · intro x hNe
      simp only [lookup_put, if_neg hNe]
    · intro _ _
      simp only [History.find, lookup_put]
      exact ⟨hNoSend, rfl, rfl, rfl⟩

theorem Sound.refused_recv
    [Inhabited V] (hKey : key ∈ K) (args : Args) (status : Status)
    (hRefused : status ≠ .ok)
    (hBusy : h.rendezvous.status = .ok →
      ∃ item, h.find keyHash key = some item ∧
        (item.hasBeenRecvd ∨ item.waiter ≠ none)) :
    Sound keyHash K
      { h with
        recvs := h.recvs ++ [h.receive key args]
        invoked := h.invoked ++ [refuse (h.receive key args) status args] } := by
  have hAnswered : (h.invoked ++ [refuse (h.receive key args) status args]).map Invocation.done =
      h.answered ++ [h.receive key args] := map_append
  have hOk {a : Invocation Receive V}
      (ha : a ∈ h.invoked ++ [refuse (h.receive key args) status args]) (hOk : a.status = .ok) :
      a ∈ h.invoked := by
    rcases mem_append.mp ha with hOld | hNew
    · exact hOld
    · rw [mem_singleton.mp hNew] at hOk
      exact absurd hOk hRefused
  refine
    { hSound with
      keys := hSound.keys_append hKey args, numbered := hSound.numbered_append key args,
      known := ?_, once := ?_, carried := ?_, single := ?_, listed := ?_, waiting := ?_,
      agrees := ?_ }
  · intro d hd
    rw [History.answered, hAnswered] at hd
    exact (mem_append.mp hd).elim (fun hOld => mem_append_left _ (hSound.known d hOld))
      (mem_append_right _)
  · rw [History.answered, hAnswered]
    exact nodup_append_singleton hSound.once (hSound.new_unanswered key args)
  · intro a ha hStatus
    exact hSound.carried a (hOk ha hStatus) hStatus
  · intro hMode a ha b hb hOkA hOkB
    exact hSound.single hMode a (hOk ha hOkA) b (hOk hb hOkB) hOkA hOkB
  · intro x item d hLookup hWaiter
    obtain ⟨hHash, hd, hOpen⟩ := hSound.listed x item d hLookup hWaiter
    refine ⟨hHash, mem_append_left _ hd, ?_⟩
    rw [History.answered, hAnswered, mem_append, mem_singleton, not_or]
    refine ⟨hOpen, ?_⟩
    rintro rfl
    exact hSound.new_receive key args hd
  · intro d hd hOpen
    rw [History.answered, hAnswered, mem_append, not_or] at hOpen
    rcases mem_append.mp hd with hOld | hNew
    · exact hSound.waiting d hOld hOpen.1
    · exact absurd hNew hOpen.2
  · refine hSound.agrees_step hInj hKey (concerns_recv key args _ _ rfl) rfl (fun _ _ => rfl) ?_
    intro hRunning hAgrees
    obtain ⟨item, hFind, hState⟩ := hBusy hRunning
    change Agrees _ key (h.find keyHash key)
    rw [hFind] at hAgrees ⊢
    simp only [Agrees] at hAgrees ⊢
    split at hAgrees
    · exact { hAgrees with }
    · rename_i hWaiter
      refine { hAgrees with unread := ?_ }
      intro hFresh
      rw [hFresh, hWaiter] at hState
      simp at hState

theorem Sound.recvTakes [Inhabited V] (hKey : key ∈ K) (args : Args)
    (item : Item Receive V) (hRunning : h.rendezvous.status = .ok)
    (hFound : h.find keyHash key = some item) (hWaiter : item.waiter = none)
    (hUnread : h.rendezvous.tolerateDupRecv ∨ item.hasBeenRecvd = false) :
    Sound keyHash K
      { h with
        rendezvous := h.put keyHash key (item.taken h.rendezvous.tolerateDupRecv)
        recvs := h.recvs ++ [h.receive key args]
        invoked := h.invoked ++ [taken (h.receive key args) item] } := by
  have hArrived : Arrived h key item := by
    have hOwn := hSound.agrees hRunning key hKey
    rw [hFound] at hOwn
    simpa only [Agrees, hWaiter] using hOwn
  obtain ⟨r, hMessage, hHolds⟩ := hArrived.message
  obtain ⟨hValue, hDead, hArgs⟩ := hHolds hUnread
  have hAnswered : (h.invoked ++ [taken (h.receive key args) item]).map Invocation.done =
      h.answered ++ [h.receive key args] := map_append
  refine
    { hSound with
      keys := hSound.keys_append hKey args, numbered := hSound.numbered_append key args,
      known := ?_, once := ?_, carried := ?_, single := ?_, listed := ?_, waiting := ?_,
      agrees := ?_ }
  · intro d hd
    rw [History.answered, hAnswered] at hd
    exact (mem_append.mp hd).elim (fun hOld => mem_append_left _ (hSound.known d hOld))
      (mem_append_right _)
  · rw [History.answered, hAnswered]
    exact nodup_append_singleton hSound.once (hSound.new_unanswered key args)
  · intro a ha hOk
    rcases mem_append.mp ha with hOld | hNew
    · exact hSound.carried a hOld hOk
    · rw [mem_singleton.mp hNew]
      exact ⟨r, hMessage, hValue, hDead, hArgs, rfl⟩
  · intro hMode
    refine hSound.single_append hMode ?_
    intro b hb _
    have hFresh : item.hasBeenRecvd = false := by
      rcases hUnread with hTolerant | hFresh
      · exact absurd (hMode.symm.trans hTolerant) Bool.false_ne_true
      · exact hFresh
    exact hArrived.unread hFresh b.done (hSound.known _ (mem_map_of_mem hb))
  · intro x found d hLookup hWaits
    simp only [lookup_put] at hLookup
    split at hLookup
    · cases hLookup
      cases hWaiter.symm.trans hWaits
    · obtain ⟨hHash, hd, hOpen⟩ := hSound.listed x found d hLookup hWaits
      refine ⟨hHash, mem_append_left _ hd, ?_⟩
      rw [History.answered, hAnswered, mem_append, mem_singleton, not_or]
      refine ⟨hOpen, ?_⟩
      rintro rfl
      exact hSound.new_receive key args hd
  · intro d hd hOpen
    rw [History.answered, hAnswered, mem_append, not_or] at hOpen
    rcases mem_append.mp hd with hOld | hNew
    · refine hSound.waiting_put hInj hKey _ hOld ?_ hOpen.1
      rintro rfl
      obtain ⟨found, hFind, hWaits⟩ := hSound.waiting d hOld hOpen.1
      cases hFound.symm.trans hFind
      cases hWaiter.symm.trans hWaits
    · exact absurd hNew hOpen.2
  · refine hSound.agrees_step hInj hKey (concerns_recv key args _ _ rfl) rfl ?_ ?_
    · intro x hNe
      simp only [lookup_put, if_neg hNe]
    · intro _ _
      have hTaken : (item.taken h.rendezvous.tolerateDupRecv).waiter = none := hWaiter
      simp only [History.find, lookup_put, if_true, Agrees, hTaken]
      refine ⟨⟨r, hMessage, ?_⟩, ?_⟩
      · intro hKept
        have hMode : h.rendezvous.tolerateDupRecv :=
          hKept.resolve_right (by simp [Item.taken])
        simp only [hMode]
        exact ⟨hValue, hDead, hArgs⟩
      · intro hFresh
        cases hFresh

end

end

theorem mem_waiters {r : LocalRendezvousImpl Receive V} :
    d ∈ r.waiters ↔ ∃ x item, r.table.lookup x = some item ∧ item.waiter = some d := by
  rw [waiters, mem_filterMap]
  constructor
  · rintro ⟨⟨x, item⟩, hMem, hWaiter⟩
    exact ⟨x, item, AList.mem_lookup_iff.mpr hMem, hWaiter⟩
  · rintro ⟨x, item, hLookup, hWaiter⟩
    exact ⟨⟨x, item⟩, AList.mem_lookup_iff.mp hLookup, hWaiter⟩

theorem Sound.nodup_waiters (hSound : Sound keyHash K h) : h.rendezvous.waiters.Nodup := by
  rw [waiters, Nodup, pairwise_filterMap]
  have hKeys := nodupKeys_iff_pairwise.mp h.rendezvous.table.nodupKeys
  refine hKeys.imp_of_mem ?_
  rintro ⟨x, item⟩ ⟨y, item'⟩ hx hy hNe d hd d' hd' rfl
  have hx' := (hSound.listed x item d (AList.mem_lookup_iff.mpr hx) hd).1
  have hy' := (hSound.listed y item' d (AList.mem_lookup_iff.mpr hy) hd').1
  exact hNe (hx'.trans hy'.symm)

theorem Sound.waiters_iff (hSound : Sound keyHash K h) (d : Receive) :
    d ∈ h.rendezvous.waiters ↔ d ∈ h.recvs ∧ d ∉ h.answered := by
  rw [mem_waiters]
  constructor
  · rintro ⟨x, item, hLookup, hWaiter⟩
    exact (hSound.listed x item d hLookup hWaiter).2
  · rintro ⟨hd, hOpen⟩
    obtain ⟨item, hFind, hWaiter⟩ := hSound.waiting d hd hOpen
    exact ⟨_, item, hFind, hWaiter⟩

theorem Sound.abort [Inhabited V] (hSound : Sound keyHash K h) (status : Status)
    (hError : status ≠ .ok) :
    Sound keyHash K
      { h with
        rendezvous := { h.rendezvous with status := status, table := ∅ }
        invoked := h.invoked ++ h.rendezvous.waiters.map fun waiter =>
          refuse waiter status {} } := by
  have hAnswered :
      (h.invoked ++ h.rendezvous.waiters.map fun waiter => refuse waiter status {}).map
        Invocation.done = h.answered ++ h.rendezvous.waiters := by
    rw [map_append, map_map]
    exact congrArg _ (map_id _)
  have hOld {a : Invocation Receive V}
      (ha : a ∈ h.invoked ++ h.rendezvous.waiters.map fun waiter => refuse waiter status {})
      (hOk : a.status = .ok) : a ∈ h.invoked := by
    rcases mem_append.mp ha with hOld | hNew
    · exact hOld
    · obtain ⟨waiter, _, rfl⟩ := mem_map.mp hNew
      exact absurd hOk hError
  refine
    { hSound with
      known := ?_, once := ?_, carried := ?_, single := ?_, listed := ?_, waiting := ?_,
      agrees := ?_ }
  · intro d hd
    rw [History.answered, hAnswered] at hd
    exact (mem_append.mp hd).elim (hSound.known d) fun hNew =>
      ((hSound.waiters_iff d).mp hNew).1
  · rw [History.answered, hAnswered]
    refine nodup_append.mpr ⟨hSound.once, hSound.nodup_waiters, ?_⟩
    rintro d hd d' hd' rfl
    exact ((hSound.waiters_iff d).mp hd').2 hd
  · intro a ha hOk
    exact hSound.carried a (hOld ha hOk) hOk
  · intro hMode a ha b hb hOkA hOkB
    exact hSound.single hMode a (hOld ha hOkA) b (hOld hb hOkB) hOkA hOkB
  · intro x item d hLookup
    cases hLookup
  · intro d hd hOpen
    rw [History.answered, hAnswered, mem_append, not_or] at hOpen
    exact absurd ((hSound.waiters_iff d).mpr ⟨hd, hOpen.1⟩) hOpen.2
  · intro hRunning
    exact absurd hRunning hError

theorem sound_init (tolerateDupRecv : Bool) :
    Sound keyHash K (History.init tolerateDupRecv : History V) where
  keys := by simp [History.init]
  numbered := by simp [History.init]
  known := by simp [History.init, History.answered]
  once := nodup_nil
  carried := by simp [History.init]
  single := by simp [History.init]
  listed := by simp [History.init]
  waiting := by simp [History.init]
  agrees := by
    intro _ key _
    exact ⟨by simp [History.init], by simp [History.init]⟩

theorem sound_step [Inhabited V] {c : Call V} (hInj : Set.InjOn keyHash K)
    (hSound : Sound keyHash K h) (hIn : c.In K)
    (hPatient : h.rendezvous.tolerateDupRecv → h.Patient c)
    (hStep : Step keyHash h c h') : Sound keyHash K h' := by
  cases hStep with
  | sendAborted key args value isDead aborted =>
    exact hSound.refused_send hInj hIn args value isDead _ aborted fun hRunning =>
      absurd hRunning aborted
  | sendStores key args value isDead running absent =>
    exact hSound.sendStores hInj hIn args value isDead running absent
  | sendDuplicated key args value isDead item running found noWaiter =>
    exact hSound.refused_send hInj hIn args value isDead _ nofun fun _ => ⟨item, found, noWaiter⟩
  | sendServes key args value isDead item waiter running found waits =>
    exact hSound.sendServes hInj hIn args value isDead item waiter running found waits
  | recvAborted key args aborted =>
    exact hSound.refused_recv hInj hIn args _ aborted fun hRunning => absurd hRunning aborted
  | recvWaits key args running absent => exact hSound.recvWaits hInj hIn args running absent
  | recvDuplicated key args item running found strict busy =>
    exact hSound.refused_recv hInj hIn args _ nofun fun _ => ⟨item, found, busy⟩
  | recvTakes key args item running found free =>
    have hWaiter : item.waiter = none := by
      rcases free with hMode | ⟨_, hNone⟩
      · cases hWaits : item.waiter with
        | none => rfl
        | some waiter =>
          obtain ⟨hWaiterKey, hRecv, hOpen⟩ := hSound.waiter_of_found hInj hIn found hWaits
          exact absurd (hPatient hMode waiter hRecv hWaiterKey) hOpen
      · exact hNone
    exact hSound.recvTakes hInj hIn args item running found hWaiter (free.imp_right And.left)
  | abortAgain status error aborted => exact hSound
  | abort status error running => exact hSound.abort status error

end Invariant

end TensorFlowOnSpark.Framework.Rendezvous
