import TensorFlowOnSpark.CommonRuntime.PendingCounts

/-!
# The table of the pending counts

The whole of `PendingCounts`: the array of packed counts and the table `overflow_`.
-/

namespace TensorFlowOnSpark.CommonRuntime

open Function Nat

structure PackedCounts where
  pending : Fin 8
  deadCount : Fin 8
  hasStarted : Bool
  isLarge : Bool
deriving DecidableEq, Repr

structure LargeCounts where
  pending : Int := 0
  deadCount : Int := 0
deriving DecidableEq, Repr

/-- `counts_` and `overflow_`. -/
structure PendingCounts where
  counts : Nat → PackedCounts
  overflow : Nat → Option LargeCounts

def threeBits (i : Int) : Fin 8 := Fin.ofNat 8 (i % 8).toNat

namespace PendingCounts

variable (t : PendingCounts) (id : Nat)

def isLarge : Bool := (t.counts id).isLarge

/-- `overflow_[id]`, which makes an entry if there is none. -/
def large : LargeCounts := (t.overflow id).getD {}

def setCounts (c : PackedCounts) : PendingCounts :=
  { t with counts := update t.counts id c }

def setLarge (c : LargeCounts) : PendingCounts :=
  { t with overflow := update t.overflow id (some c) }

def setInitialCount (pendingCount maxDeadCount : Nat) : PendingCounts :=
  if pendingCount > kMaxCountForPackedCounts ∨ maxDeadCount > kMaxCountForPackedCounts then
    (t.setLarge id ⟨pendingCount, 0⟩).setCounts id ⟨0, 0, false, true⟩
  else t.setCounts id ⟨threeBits pendingCount, 0, false, false⟩

def nodeStatePacked : NodeState :=
  if (t.counts id).hasStarted then
    if (t.counts id).pending = 0 then .started else .completed
  else if (t.counts id).pending = 0 then .pendingReady
  else .pendingNotReady

def nodeStateLarge : NodeState :=
  if (t.large id).pending > 0 then .pendingNotReady
  else if (t.large id).pending = 0 then .pendingReady
  else if (t.large id).pending = -1 then .started
  else .completed

def nodeState : NodeState := if t.isLarge id then t.nodeStateLarge id else t.nodeStatePacked id

def markStarted : PendingCounts :=
  if t.isLarge id then t.setLarge id { t.large id with pending := -1 }
  else t.setCounts id { t.counts id with hasStarted := true }

def markCompleted : PendingCounts :=
  if t.isLarge id then t.setLarge id { t.large id with pending := -2 }
  else t.setCounts id { t.counts id with pending := 1 }

def pending : Int :=
  if t.isLarge id then
    if t.nodeStateLarge id = .pendingNotReady then (t.large id).pending else 0
  else if t.nodeStatePacked id = .pendingNotReady then ((t.counts id).pending.val : Int)
  else 0

def decrementPending (v : Int) : PendingCounts :=
  if t.isLarge id then t.setLarge id { t.large id with pending := (t.large id).pending - v }
  else t.setCounts id
    { t.counts id with pending := threeBits ((t.counts id).pending.val - v) }

def markLive : PendingCounts :=
  if t.isLarge id then
    if t.nodeStateLarge id = .pendingNotReady then
      t.setLarge id { t.large id with pending := (t.large id).pending - (t.large id).pending % 2 }
    else t
  else if t.nodeStatePacked id = .pendingNotReady then
    t.setCounts id { t.counts id with pending := (t.counts id).pending &&& 6 }
  else t

def deadCount : Int :=
  if t.isLarge id then (t.large id).deadCount else ((t.counts id).deadCount.val : Int)

def incrementDeadCount : PendingCounts :=
  if t.isLarge id then
    if t.nodeStateLarge id = .pendingNotReady then
      t.setLarge id { t.large id with deadCount := (t.large id).deadCount + 1 }
    else t
  else if t.nodeStatePacked id = .pendingNotReady then
    t.setCounts id { t.counts id with deadCount := threeBits ((t.counts id).deadCount.val + 1) }
  else t

end PendingCounts

inductive CountsCall where
  | decrementPending (v : Int)
  | incrementDeadCount
  | markLive
  | markStarted
  | markCompleted
deriving DecidableEq, Repr

namespace PendingCounts

inductive TableCall where
  | setInitialCount (id pendingCount maxDeadCount : Nat)
  | call (id : Nat) (c : CountsCall)
deriving DecidableEq, Repr

def TableCall.id : TableCall → Nat
  | .setInitialCount id _ _ => id
  | .call id _ => id

def apply (t : PendingCounts) (id : Nat) : CountsCall → PendingCounts
  | .decrementPending v => t.decrementPending id v
  | .incrementDeadCount => t.incrementDeadCount id
  | .markLive => t.markLive id
  | .markStarted => t.markStarted id
  | .markCompleted => t.markCompleted id

def applyCall (t : PendingCounts) : TableCall → PendingCounts
  | .setInitialCount id pendingCount maxDeadCount => t.setInitialCount id pendingCount maxDeadCount
  | .call id c => t.apply id c

def run (t : PendingCounts) (calls : List TableCall) : PendingCounts := calls.foldl applyCall t

def Checked (t : PendingCounts) (id : Nat) : CountsCall → Prop
  | .decrementPending v => v ≤ t.pending id
  | .incrementDeadCount => t.isLarge id = false → t.nodeStatePacked id = .pendingNotReady →
      (t.counts id).deadCount < 7
  | .markLive => True
  | .markStarted => if t.isLarge id then (t.large id).pending = 0
      else (t.counts id).pending = 0 ∧ (t.counts id).hasStarted = false
  | .markCompleted => if t.isLarge id then (t.large id).pending = -1
      else (t.counts id).pending = 0 ∧ (t.counts id).hasStarted

end PendingCounts

inductive CountsPhase where
  | waiting | started | completed
deriving DecidableEq, Repr

structure CountsMachine where
  phase : CountsPhase
  count : Int
  dead : Int
deriving DecidableEq, Repr

namespace CountsMachine

def init (pendingCount : Nat) : CountsMachine := ⟨.waiting, pendingCount, 0⟩

variable (m : CountsMachine)

def nodeState : NodeState :=
  match m.phase with
  | .waiting => if m.count > 0 then .pendingNotReady else .pendingReady
  | .started => .started
  | .completed => .completed

def pending : Int := if m.nodeState = .pendingNotReady then m.count else 0

def apply (m : CountsMachine) : CountsCall → CountsMachine
  | .decrementPending v => if m.phase = .waiting then { m with count := m.count - v } else m
  | .incrementDeadCount =>
    if m.nodeState = .pendingNotReady then { m with dead := m.dead + 1 } else m
  | .markLive =>
    if m.nodeState = .pendingNotReady then { m with count := m.count - m.count % 2 } else m
  | .markStarted => { m with phase := .started }
  | .markCompleted => { m with phase := .completed }

def run (m : CountsMachine) (calls : List CountsCall) : CountsMachine := calls.foldl apply m

end CountsMachine

namespace PendingCounts

def callsTo (id : Nat) (calls : List TableCall) : List CountsCall :=
  calls.filterMap fun call =>
    match call with
    | .setInitialCount _ _ _ => none
    | .call id' c => if id' = id then some c else none

def CheckedRun (id : Nat) : PendingCounts → List TableCall → Prop
  | _, [] => True
  | t, call :: rest =>
    (match call with
      | .setInitialCount id' _ _ => id' ≠ id
      | .call id' c => id' = id → t.Checked id c) ∧ CheckedRun id (t.applyCall call) rest

instance decidableChecked (t : PendingCounts) (id : Nat) (c : CountsCall) :
    Decidable (t.Checked id c) :=
  match c with
  | .decrementPending v => inferInstanceAs (Decidable (v ≤ t.pending id))
  | .incrementDeadCount => inferInstanceAs (Decidable (t.isLarge id = false →
      t.nodeStatePacked id = .pendingNotReady → (t.counts id).deadCount < 7))
  | .markLive => isTrue trivial
  | .markStarted => inferInstanceAs (Decidable (if t.isLarge id then (t.large id).pending = 0
      else (t.counts id).pending = 0 ∧ (t.counts id).hasStarted = false))
  | .markCompleted => inferInstanceAs (Decidable (if t.isLarge id then (t.large id).pending = -1
      else (t.counts id).pending = 0 ∧ (t.counts id).hasStarted))

instance decidableCheckedRun (id : Nat) :
    (t : PendingCounts) → (calls : List TableCall) → Decidable (CheckedRun id t calls)
  | _, [] => isTrue trivial
  | t, .setInitialCount id' p maxDead :: rest =>
    have := decidableCheckedRun id (t.applyCall (.setInitialCount id' p maxDead)) rest
    inferInstanceAs (Decidable (id' ≠ id ∧ CheckedRun id _ rest))
  | t, .call id' c :: rest =>
    have := decidableCheckedRun id (t.applyCall (.call id' c)) rest
    inferInstanceAs (Decidable ((id' = id → t.Checked id c) ∧ CheckedRun id _ rest))

def Shows (t : PendingCounts) (id : Nat) (m : CountsMachine) : Prop :=
  t.nodeState id = m.nodeState ∧ t.pending id = m.pending ∧ t.deadCount id = m.dead

section Entries

variable {t : PendingCounts} {id other : Nat}

def entry (t : PendingCounts) (id : Nat) : Counts :=
  if t.isLarge id then .large (t.large id).pending (t.large id).deadCount
  else .packed (t.counts id).pending (t.counts id).deadCount (t.counts id).hasStarted

theorem nodeState_eq : t.nodeState id = (t.entry id).nodeState := by
  unfold nodeState entry
  cases t.isLarge id <;> rfl

theorem pending_eq : t.pending id = (t.entry id).pending := by
  unfold pending entry
  cases t.isLarge id <;> rfl

theorem deadCount_eq : t.deadCount id = (t.entry id).deadCount := by
  unfold deadCount entry
  cases t.isLarge id <;> rfl

theorem threeBits_sub (i : Fin 8) (v : Nat) : threeBits (i.val - v) = i - Fin.ofNat 8 v := by
  apply Fin.ext
  rw [Fin.sub_def]
  simp only [threeBits, Fin.val_ofNat]
  omega

theorem threeBits_succ (i : Fin 8) : threeBits (i.val + 1) = i + 1 := by
  revert i
  decide

theorem threeBits_natCast {n : Nat} : threeBits n = Fin.ofNat 8 n := by
  apply Fin.ext
  simp only [threeBits, Fin.val_ofNat]
  omega

theorem entry_large (h : t.isLarge id) :
    t.entry id = .large (t.large id).pending (t.large id).deadCount := if_pos h

theorem entry_packed (h : t.isLarge id = false) : t.entry id =
    .packed (t.counts id).pending (t.counts id).deadCount (t.counts id).hasStarted :=
  if_neg (Bool.eq_false_iff.mp h)

theorem entry_setLarge (h : t.isLarge id) (c : LargeCounts) :
    (t.setLarge id c).entry id = .large c.pending c.deadCount := by
  have hSet : (t.setLarge id c).large id = c := by
    simp only [large, setLarge, update_self, Option.getD_some]
  rw [entry_large (t := t.setLarge id c) h, hSet]

theorem entry_setCounts (c : PackedCounts) (h : c.isLarge = false) :
    (t.setCounts id c).entry id = .packed c.pending c.deadCount c.hasStarted := by
  have hSet : (t.setCounts id c).counts id = c := update_self ..
  rw [entry_packed (by rw [isLarge, hSet, h]), hSet]

theorem entry_setLarge_of_ne (hNe : id ≠ other) (c : LargeCounts) :
    (t.setLarge other c).entry id = t.entry id := by
  have hLarge : (t.setLarge other c).large id = t.large id := by
    have hMap : (t.setLarge other c).overflow id = t.overflow id := update_of_ne hNe ..
    rw [large, large, hMap]
  unfold entry
  rw [hLarge]
  rfl

theorem entry_setCounts_of_ne (hNe : id ≠ other) (c : PackedCounts) :
    (t.setCounts other c).entry id = t.entry id := by
  have hCounts : (t.setCounts other c).counts id = t.counts id := update_of_ne hNe ..
  unfold entry isLarge
  rw [hCounts]
  rfl

theorem entry_setInitialCount (p maxDead : Nat) :
    (t.setInitialCount id p maxDead).entry id = .setInitialCount p maxDead := by
  unfold setInitialCount Counts.setInitialCount
  split
  · have hLarge : ((t.setLarge id ⟨p, 0⟩).setCounts id ⟨0, 0, false, true⟩).isLarge id := by
      simp only [isLarge, setCounts, update_self]
    rw [entry_large hLarge]
    simp only [large, setCounts, setLarge, update_self, Option.getD_some]
  · rw [entry_setCounts _ rfl, threeBits_natCast]

theorem entry_mark : (t.markStarted id).entry id = (t.entry id).markStarted ∧
    (t.markCompleted id).entry id = (t.entry id).markCompleted := by
  unfold markStarted markCompleted
  cases h : t.isLarge id with
  | true =>
    rw [if_pos rfl, if_pos rfl, entry_setLarge h, entry_setLarge h, entry_large h]
    exact ⟨rfl, rfl⟩
  | false =>
    rw [if_neg Bool.false_ne_true, if_neg Bool.false_ne_true, entry_setCounts _ (by exact h),
      entry_setCounts _ (by exact h), entry_packed h]
    exact ⟨rfl, rfl⟩

theorem entry_decrementPending (v : Nat) :
    (t.decrementPending id v).entry id = (t.entry id).decrementPending v := by
  unfold decrementPending
  cases h : t.isLarge id with
  | true =>
    rw [if_pos rfl, entry_setLarge h, entry_large h]
    rfl
  | false =>
    rw [if_neg Bool.false_ne_true, entry_setCounts _ (by exact h), entry_packed h, threeBits_sub]
    rfl

theorem entry_markLive : (t.markLive id).entry id = (t.entry id).markLive := by
  have hState : t.nodeState id = (t.entry id).nodeState := nodeState_eq
  unfold nodeState at hState
  unfold markLive Counts.markLive
  rw [← hState]
  cases h : t.isLarge id with
  | true =>
    simp only [if_true]
    split
    · rw [entry_setLarge h, entry_large h]
    · rfl
  | false =>
    simp only [Bool.false_eq_true, if_false]
    split
    · rw [entry_setCounts _ (by exact h), entry_packed h]
    · rfl

theorem entry_incrementDeadCount :
    (t.incrementDeadCount id).entry id = (t.entry id).incrementDeadCount := by
  have hState : t.nodeState id = (t.entry id).nodeState := nodeState_eq
  unfold nodeState at hState
  unfold incrementDeadCount Counts.incrementDeadCount
  rw [← hState]
  cases h : t.isLarge id with
  | true =>
    simp only [if_true]
    split
    · rw [entry_setLarge h, entry_large h]
    · rfl
  | false =>
    simp only [Bool.false_eq_true, if_false]
    split
    · rw [entry_setCounts _ (by exact h), entry_packed h, threeBits_succ]
    · rfl

/-- A call for one node leaves the entries of the others. -/
theorem entry_applyCall_of_ne {call : TableCall} (hNe : call.id ≠ id) :
    (t.applyCall call).entry id = t.entry id := by
  cases call with
  | setInitialCount other p maxDead =>
    have hOther : id ≠ other := Ne.symm hNe
    change (t.setInitialCount other p maxDead).entry id = _
    unfold setInitialCount
    split
    · rw [entry_setCounts_of_ne hOther, entry_setLarge_of_ne hOther]
    · rw [entry_setCounts_of_ne hOther]
  | call other c =>
    have hOther : id ≠ other := Ne.symm hNe
    cases c with
    | decrementPending v =>
      change (t.decrementPending other v).entry id = _
      unfold decrementPending
      split
      · rw [entry_setLarge_of_ne hOther]
      · rw [entry_setCounts_of_ne hOther]
    | incrementDeadCount =>
      change (t.incrementDeadCount other).entry id = _
      unfold incrementDeadCount
      split <;> split
      · rw [entry_setLarge_of_ne hOther]
      · rfl
      · rw [entry_setCounts_of_ne hOther]
      · rfl
    | markLive =>
      change (t.markLive other).entry id = _
      unfold markLive
      split <;> split
      · rw [entry_setLarge_of_ne hOther]
      · rfl
      · rw [entry_setCounts_of_ne hOther]
      · rfl
    | markStarted =>
      change (t.markStarted other).entry id = _
      unfold markStarted
      split
      · rw [entry_setLarge_of_ne hOther]
      · rw [entry_setCounts_of_ne hOther]
    | markCompleted =>
      change (t.markCompleted other).entry id = _
      unfold markCompleted
      split
      · rw [entry_setLarge_of_ne hOther]
      · rw [entry_setCounts_of_ne hOther]

end Entries

end PendingCounts

section Machines

variable {c : Counts} {n : Nat} {m : CountsMachine}

def Counts.Rests (c : Counts) (packed : Fin 8) (large dead : Int) : Prop :=
  match c with
  | .packed pending deadCount hasStarted =>
    pending = packed ∧ hasStarted ∧ (deadCount.val : Int) = dead
  | .large pending deadCount => pending = large ∧ deadCount = dead

/-- The counts and the machine are in the same state; `room` more dead inputs can come. -/
def Counts.Tracks (c : Counts) (n room : Nat) (m : CountsMachine) : Prop :=
  match m.phase with
  | .waiting => ∃ p d : Nat, m.count = p ∧ m.dead = d ∧ c.Holds n p d ∧ d + room ≤ n
  | .started => c.Rests 0 (-1) m.dead
  | .completed => c.Rests 1 (-2) m.dead

variable {room : Nat}

theorem Counts.Tracks.nodeState_eq (h : c.Tracks n room m) : c.nodeState = m.nodeState := by
  obtain ⟨phase, count, dead⟩ := m
  cases phase with
  | waiting =>
    obtain ⟨p, d, rfl, rfl, hHolds, _⟩ := h
    simp only [CountsMachine.nodeState]
    split
    · rename_i hPos
      exact hHolds.notReady_iff.mpr (by omega)
    · rename_i hPos
      have hZero : p = 0 := by omega
      subst hZero
      cases c with
      | packed pending deadCount hasStarted =>
        obtain ⟨_, hPending, _, rfl⟩ := hHolds
        have hPending : pending = 0 := Fin.ext hPending
        simp [Counts.nodeState, hPending]
      | large pending deadCount =>
        obtain ⟨rfl, _⟩ := hHolds
        rfl
  | started =>
    cases c with
    | packed pending deadCount hasStarted =>
      obtain ⟨rfl, rfl, _⟩ := h
      rfl
    | large pending deadCount =>
      obtain ⟨rfl, _⟩ := h
      rfl
  | completed =>
    cases c with
    | packed pending deadCount hasStarted =>
      obtain ⟨rfl, rfl, _⟩ := h
      rfl
    | large pending deadCount =>
      obtain ⟨rfl, _⟩ := h
      rfl

theorem Counts.Tracks.pending_eq (h : c.Tracks n room m) : c.pending = m.pending := by
  unfold Counts.pending CountsMachine.pending
  rw [h.nodeState_eq]
  split
  · rename_i hState
    obtain ⟨phase, count, dead⟩ := m
    cases phase with
    | waiting =>
      obtain ⟨p, d, rfl, _, hHolds, _⟩ := h
      exact hHolds.stored_eq
    | started => cases hState
    | completed => cases hState
  · rfl

theorem Counts.Rests.deadCount_eq {packed : Fin 8} {large dead : Int}
    (h : c.Rests packed large dead) : c.deadCount = dead := by
  cases c with
  | packed pending deadCount hasStarted => exact h.2.2
  | large pending deadCount => exact h.2

theorem Counts.Tracks.deadCount_eq (h : c.Tracks n room m) : c.deadCount = m.dead := by
  obtain ⟨phase, count, dead⟩ := m
  cases phase with
  | waiting =>
    obtain ⟨p, d, _, rfl, hHolds, _⟩ := h
    exact hHolds.deadCount_eq
  | started => exact Counts.Rests.deadCount_eq h
  | completed => exact Counts.Rests.deadCount_eq h

theorem Counts.tracks_init (p maxDead : Nat) :
    (Counts.setInitialCount p maxDead).Tracks maxDead maxDead (CountsMachine.init p) :=
  ⟨p, 0, rfl, rfl, holds_setInitialCount maxDead p, le_of_eq (zero_add _)⟩

theorem Counts.Tracks.mono {room' : Nat} (h : c.Tracks n room m) (hLe : room' ≤ room) :
    c.Tracks n room' m := by
  obtain ⟨phase, count, dead⟩ := m
  cases phase with
  | waiting =>
    obtain ⟨p, d, hCount, hDead, hHolds, hRoom⟩ := h
    exact ⟨p, d, hCount, hDead, hHolds, by omega⟩
  | started => exact h
  | completed => exact h

theorem Counts.Rests.decrement_zero {packed : Fin 8} {large dead : Int}
    (h : c.Rests packed large dead) : (c.decrementPending 0).Rests packed large dead := by
  cases c with
  | packed pending deadCount hasStarted =>
    obtain ⟨rfl, hStarted, hDead⟩ := h
    have hSame : ∀ i : Fin 8, i - Fin.ofNat 8 0 = i := by decide
    exact ⟨hSame pending, hStarted, hDead⟩
  | large pending deadCount =>
    obtain ⟨rfl, hDead⟩ := h
    exact ⟨Int.sub_zero _, hDead⟩

theorem Counts.Rests.settled_of_tracks (h : c.Tracks n room m)
    (hState : m.nodeState ≠ .pendingNotReady) : c.Settled := fun hNotReady =>
  hState (h.nodeState_eq.symm.trans hNotReady)

theorem Counts.Tracks.decrementPending {v : Nat} (h : c.Tracks n room m)
    (hChecked : (v : Int) ≤ c.pending) :
    (c.decrementPending v).Tracks n room (m.apply (.decrementPending v)) := by
  rw [h.pending_eq] at hChecked
  obtain ⟨phase, count, dead⟩ := m
  cases phase with
  | waiting =>
    obtain ⟨p, d, rfl, rfl, hHolds, hRoom⟩ := h
    have hLe : v ≤ p := by
      simp only [CountsMachine.pending] at hChecked
      split at hChecked <;> omega
    exact ⟨p - v, d, (Int.ofNat_sub hLe).symm, rfl, hHolds.decrementPending hLe, hRoom⟩
  | started =>
    obtain rfl : v = 0 := by
      simp only [CountsMachine.pending, CountsMachine.nodeState] at hChecked
      simpa using hChecked
    exact Counts.Rests.decrement_zero h
  | completed =>
    obtain rfl : v = 0 := by
      simp only [CountsMachine.pending, CountsMachine.nodeState] at hChecked
      simpa using hChecked
    exact Counts.Rests.decrement_zero h

theorem Counts.Tracks.incrementDeadCount (h : c.Tracks n (room + 1) m) :
    c.incrementDeadCount.Tracks n room (m.apply .incrementDeadCount) := by
  by_cases hState : m.nodeState = .pendingNotReady
  · have hStep : m.apply .incrementDeadCount = { m with dead := m.dead + 1 } := if_pos hState
    rw [hStep]
    obtain ⟨phase, count, dead⟩ := m
    cases phase with
    | waiting =>
      have hNotReady := h.nodeState_eq.trans hState
      obtain ⟨p, d, rfl, rfl, hHolds, hRoom⟩ := h
      exact ⟨p, d + 1, rfl, rfl,
        hHolds.incrementDeadCount (hHolds.notReady_iff.mp hNotReady) (by omega), by omega⟩
    | started => cases hState
    | completed => cases hState
  · have hStep : m.apply .incrementDeadCount = m := if_neg hState
    rw [hStep, (Counts.Rests.settled_of_tracks h hState).incrementDeadCount_eq]
    exact h.mono (le_succ _)

theorem Counts.Tracks.markLive (h : c.Tracks n room m) :
    c.markLive.Tracks n room (m.apply .markLive) := by
  by_cases hState : m.nodeState = .pendingNotReady
  · have hStep : m.apply .markLive = { m with count := m.count - m.count % 2 } := if_pos hState
    rw [hStep]
    obtain ⟨phase, count, dead⟩ := m
    cases phase with
    | waiting =>
      obtain ⟨p, d, rfl, rfl, hHolds, hRoom⟩ := h
      refine ⟨p / 2 * 2, d, ?_, rfl, hHolds.markLive, hRoom⟩
      change (p : Int) - p % 2 = _
      omega
    | started => cases hState
    | completed => cases hState
  · have hStep : m.apply .markLive = m := if_neg hState
    rw [hStep, (Counts.Rests.settled_of_tracks h hState).markLive_eq]
    exact h

/-- The check of `mark_started`, and that of `mark_completed`, on an entry. -/
def Counts.MayStart : Counts → Prop
  | .packed pending _ hasStarted => pending = 0 ∧ hasStarted = false
  | .large pending _ => pending = 0

def Counts.MayComplete : Counts → Prop
  | .packed pending _ hasStarted => pending = 0 ∧ hasStarted
  | .large pending _ => pending = -1

theorem Counts.Tracks.markStarted (h : c.Tracks n room m) (hStart : c.MayStart) :
    c.markStarted.Tracks n room (m.apply .markStarted) := by
  obtain ⟨phase, count, dead⟩ := m
  cases phase with
  | waiting =>
    obtain ⟨p, d, rfl, rfl, hHolds, hRoom⟩ := h
    cases c with
    | packed pending deadCount hasStarted =>
      exact ⟨hStart.1, rfl, congrArg Nat.cast hHolds.2.2.1⟩
    | large pending deadCount => exact ⟨rfl, hHolds.2⟩
  | started =>
    cases c with
    | packed pending deadCount hasStarted => cases hStart.2.symm.trans h.2.1
    | large pending deadCount => cases (h.1 : pending = -1).symm.trans hStart
  | completed =>
    cases c with
    | packed pending deadCount hasStarted => cases hStart.2.symm.trans h.2.1
    | large pending deadCount => cases (h.1 : pending = -2).symm.trans hStart

theorem Counts.Tracks.markCompleted (h : c.Tracks n room m)
    (hComplete : c.MayComplete) : c.markCompleted.Tracks n room (m.apply .markCompleted) := by
  obtain ⟨phase, count, dead⟩ := m
  cases phase with
  | waiting =>
    obtain ⟨p, d, rfl, rfl, hHolds, hRoom⟩ := h
    cases c with
    | packed pending deadCount hasStarted => cases hHolds.2.2.2.symm.trans hComplete.2
    | large pending deadCount =>
      have hStored : pending = -1 := hComplete
      have hCount : pending = p := hHolds.1
      omega
  | started =>
    cases c with
    | packed pending deadCount hasStarted => exact ⟨rfl, hComplete.2, h.2.2⟩
    | large pending deadCount => exact ⟨rfl, h.2⟩
  | completed =>
    cases c with
    | packed pending deadCount hasStarted => cases (h.1 : pending = 1).symm.trans hComplete.1
    | large pending deadCount => cases (h.1 : pending = -2).symm.trans hComplete

end Machines

namespace PendingCounts

variable {t : PendingCounts} {id room n : Nat} {m : CountsMachine}

theorem may_of_checked : (t.Checked id .markStarted → (t.entry id).MayStart) ∧
    (t.Checked id .markCompleted → (t.entry id).MayComplete) := by
  unfold Checked
  cases hLarge : t.isLarge id with
  | true =>
    rw [entry_large hLarge]
    exact ⟨fun h => h, fun h => h⟩
  | false =>
    rw [entry_packed hLarge]
    exact ⟨fun h => h, fun h => h⟩

theorem tracks_apply {c : CountsCall} (h : (t.entry id).Tracks n room m) (hChecked : t.Checked id c)
    (hForward : ∀ v, c = .decrementPending v → 0 ≤ v) {rest : Nat}
    (hRoom : rest + (if c = .incrementDeadCount then 1 else 0) ≤ room) :
    ((t.apply id c).entry id).Tracks n rest (m.apply c) := by
  cases c with
  | decrementPending v =>
    obtain ⟨k, rfl⟩ := Int.eq_ofNat_of_zero_le (hForward v rfl)
    have hLe : (k : Int) ≤ (t.entry id).pending := by
      rw [← pending_eq]
      exact hChecked
    rw [apply, entry_decrementPending]
    exact (h.decrementPending hLe).mono hRoom
  | incrementDeadCount =>
    rw [apply, entry_incrementDeadCount]
    exact (h.mono hRoom).incrementDeadCount
  | markLive =>
    rw [apply, entry_markLive]
    exact h.markLive.mono hRoom
  | markStarted =>
    rw [apply, entry_mark.1]
    exact (h.markStarted (may_of_checked.1 hChecked)).mono hRoom
  | markCompleted =>
    rw [apply, entry_mark.2]
    exact (h.markCompleted (may_of_checked.2 hChecked)).mono hRoom

def Forward (id : Nat) (calls : List TableCall) : Prop :=
  ∀ v, .call id (.decrementPending v) ∈ calls → 0 ≤ v

theorem tracks_run {calls : List TableCall} (h : (t.entry id).Tracks n room m)
    (hChecked : CheckedRun id t calls) (hForward : Forward id calls)
    (hRoom : calls.count (.call id .incrementDeadCount) ≤ room) :
    ((t.run calls).entry id).Tracks n 0 (m.run (callsTo id calls)) := by
  induction calls generalizing t room m with
  | nil => exact h.mono (zero_le _)
  | cons call rest ih =>
    obtain ⟨hCall, hRest⟩ := hChecked
    have hForward' : Forward id rest := fun v hv => hForward v (List.mem_cons_of_mem _ hv)
    rw [List.count_cons] at hRoom
    by_cases hId : call.id = id
    · cases call with
      | setInitialCount other p maxDead => exact absurd hId hCall
      | call other c =>
        obtain rfl : other = id := hId
        have hNext : rest.count (.call other .incrementDeadCount) +
            (if c = .incrementDeadCount then 1 else 0) ≤ room := by
          refine le_trans (le_of_eq ?_) hRoom
          simp
        have hFirst : ∀ v, c = .decrementPending v → 0 ≤ v := by
          rintro v rfl
          exact hForward v List.mem_cons_self
        have hStep := tracks_apply h (hCall rfl) hFirst hNext
        have hCalls : callsTo other (.call other c :: rest) = c :: callsTo other rest := by
          simp [callsTo]
        rw [hCalls]
        exact ih hStep hRest hForward' (le_refl _)
    · have hSame : (t.applyCall call).entry id = t.entry id := entry_applyCall_of_ne hId
      have hCalls : callsTo id (call :: rest) = callsTo id rest := by
        cases call with
        | setInitialCount other p maxDead => rfl
        | call other c =>
          have hNe : other ≠ id := hId
          simp [callsTo, hNe]
      rw [hCalls]
      exact ih (hSame ▸ h) hRest hForward' (by omega)

theorem Counts.Tracks.shows (h : (t.entry id).Tracks n room m) : Shows t id m :=
  ⟨nodeState_eq.trans h.nodeState_eq, pending_eq.trans h.pending_eq,
    deadCount_eq.trans h.deadCount_eq⟩

/-- For every node and all initial counts, what a checked run of calls for all nodes shows of the
node is what its own calls do to a machine on unbounded counts. -/
theorem counts_agree (t : PendingCounts) (id pendingCount maxDeadCount : Nat)
    (calls : List TableCall)
    (hChecked : CheckedRun id (t.setInitialCount id pendingCount maxDeadCount) calls)
    (hForward : Forward id calls)
    (hDead : calls.count (.call id .incrementDeadCount) ≤ maxDeadCount) :
    Shows ((t.setInitialCount id pendingCount maxDeadCount).run calls) id
        ((CountsMachine.init pendingCount).run (callsTo id calls)) ∧
      ∀ (t' : PendingCounts) (call : TableCall), call.id ≠ id →
        (t'.applyCall call).nodeState id = t'.nodeState id ∧
        (t'.applyCall call).pending id = t'.pending id ∧
        (t'.applyCall call).deadCount id = t'.deadCount id := by
  constructor
  · have hInit : ((t.setInitialCount id pendingCount maxDeadCount).entry id).Tracks maxDeadCount
        maxDeadCount (CountsMachine.init pendingCount) := by
      rw [entry_setInitialCount]
      exact Counts.tracks_init pendingCount maxDeadCount
    exact Counts.Tracks.shows (tracks_run hInit hChecked hForward hDead)
  · intro t' call hNe
    have hSame := entry_applyCall_of_ne (t := t') hNe
    simp only [nodeState_eq, pending_eq, deadCount_eq, hSame, and_self]

def empty : PendingCounts := ⟨fun _ => ⟨0, 0, false, false⟩, fun _ => none⟩

/-- A `Merge` with seven dead inputs to come, in the packed form. -/
def mergeCalls : List TableCall :=
  [.call 0 .incrementDeadCount, .call 1 .markLive, .call 0 .markLive,
    .call 0 (.decrementPending 2), .call 0 .markStarted, .call 0 .markCompleted]

theorem merge_calls_agree :
    Shows ((empty.setInitialCount 0 3 7).run mergeCalls) 0
      ((CountsMachine.init 3).run (callsTo 0 mergeCalls)) :=
  (counts_agree empty 0 3 7 mergeCalls (by decide)
    (by simp [Forward, mergeCalls]) (by decide)).1

/-- A packed count of 7 that is decremented by -1 wraps to 0. -/
theorem negative_decrement_wraps :
    ¬∀ (t : PendingCounts) (id pendingCount maxDeadCount : Nat) (calls : List TableCall),
      CheckedRun id (t.setInitialCount id pendingCount maxDeadCount) calls →
      calls.count (.call id .incrementDeadCount) ≤ maxDeadCount →
      Shows ((t.setInitialCount id pendingCount maxDeadCount).run calls) id
        ((CountsMachine.init pendingCount).run (callsTo id calls)) := by
  intro hAlways
  have hShows := hAlways empty 0 7 0 [.call 0 (.decrementPending (-1))] (by decide) (by decide)
  exact absurd hShows.1 (by decide)

end PendingCounts

end TensorFlowOnSpark.CommonRuntime
