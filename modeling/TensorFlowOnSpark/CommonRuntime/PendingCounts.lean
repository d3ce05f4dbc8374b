import Mathlib.Algebra.GroupWithZero.Nat
import Mathlib.Data.Fin.Basic
import Mathlib.Tactic.Cases

/-!
# Pending counts

`PendingCounts` of `common_runtime/pending_counts.h`, for one node.
-/

namespace TensorFlowOnSpark.CommonRuntime

open Nat Int

scoped instance instNeZeroPacked : NeZero 8 := instNeZeroSucc

inductive NodeState where
  | pendingNotReady | pendingReady | started | completed
deriving DecidableEq, Repr

def kMaxCountForPackedCounts : Nat := 7

/-- `PackedCounts` without `is_large`, or the `LargeCounts` of a node for which it is set. -/
inductive Counts where
  | packed (pending deadCount : Fin 8) (hasStarted : Bool)
  | large (pending deadCount : Int)
deriving DecidableEq, Repr

namespace Counts

def setInitialCount (pendingCount maxDeadCount : Nat) : Counts :=
  if pendingCount > kMaxCountForPackedCounts ∨ maxDeadCount > kMaxCountForPackedCounts then
    .large pendingCount 0
  else .packed (Fin.ofNat 8 pendingCount) 0 false

def nodeState : Counts → NodeState
  | .packed pending _ hasStarted =>
    if hasStarted then
      if pending = 0 then .started else .completed
    else
      if pending = 0 then .pendingReady else .pendingNotReady
  | .large pending _ =>
    if pending > 0 then .pendingNotReady
    else if pending = 0 then .pendingReady
    else if pending = -1 then .started
    else .completed

def markStarted : Counts → Counts
  | .packed pending deadCount _ => .packed pending deadCount true
  | .large _ deadCount => .large (-1) deadCount

def markCompleted : Counts → Counts
  | .packed _ deadCount hasStarted => .packed 1 deadCount hasStarted
  | .large _ deadCount => .large (-2) deadCount

/-- The stored count, which `decrement_pending` returns. -/
def stored : Counts → Int
  | .packed pending _ _ => pending.val
  | .large pending _ => pending

def pending (c : Counts) : Int :=
  if c.nodeState = .pendingNotReady then c.stored else 0

def decrementPending (c : Counts) (v : Nat) : Counts :=
  match c with
  | .packed pending deadCount hasStarted =>
    .packed (pending - Fin.ofNat 8 v) deadCount hasStarted
  | .large pending deadCount => .large (pending - v) deadCount

def markLive (c : Counts) : Counts :=
  if c.nodeState = .pendingNotReady then
    match c with
    | .packed pending deadCount hasStarted => .packed (pending &&& 6) deadCount hasStarted
    | .large pending deadCount => .large (pending - pending % 2) deadCount
  else c

def deadCount : Counts → Int
  | .packed _ deadCount _ => deadCount.val
  | .large _ deadCount => deadCount

def incrementDeadCount (c : Counts) : Counts :=
  if c.nodeState = .pendingNotReady then
    match c with
    | .packed pending deadCount hasStarted => .packed pending (deadCount + 1) hasStarted
    | .large pending deadCount => .large pending (deadCount + 1)
  else c

/-- The counts of a node with `n` in-edges that has not started: `p` pending, `d` dead. -/
def Holds (c : Counts) (n p d : Nat) : Prop :=
  match c with
  | .packed pending deadCount hasStarted =>
    n ≤ kMaxCountForPackedCounts ∧ pending.val = p ∧ deadCount.val = d ∧ hasStarted = false
  | .large pending deadCount => pending = p ∧ deadCount = d

theorem holds_setInitialCount (n p : Nat) : (setInitialCount p n).Holds n p 0 := by
  unfold setInitialCount
  split
  · exact ⟨rfl, rfl⟩
  · rename_i hSmall
    rw [not_or, not_lt, not_lt] at hSmall
    refine ⟨hSmall.2, ?_, rfl, rfl⟩
    exact mod_eq_of_lt (lt_succ_of_le hSmall.1)

variable {c : Counts} {n p d : Nat}

section

variable (h : c.Holds n p d)
include h

theorem Holds.stored_eq : c.stored = p := by
  cases c with
  | packed pending deadCount hasStarted =>
    obtain ⟨-, hPending, -, -⟩ := h
    exact congrArg Nat.cast hPending
  | large pending deadCount => exact h.1

theorem Holds.deadCount_eq : c.deadCount = d := by
  cases c with
  | packed pending deadCount hasStarted =>
    obtain ⟨-, -, hDead, -⟩ := h
    exact congrArg Nat.cast hDead
  | large pending deadCount => exact h.2

theorem Holds.notReady_iff : c.nodeState = .pendingNotReady ↔ 0 < p := by
  cases c with
  | packed pending deadCount hasStarted =>
    obtain ⟨-, rfl, -, rfl⟩ := h
    by_cases hZero : pending = 0
    · simp [nodeState, hZero]
    · simp [nodeState, hZero, Fin.pos_iff_ne_zero.mpr hZero]
  | large pending deadCount =>
    obtain ⟨rfl, -⟩ := h
    simp only [nodeState]
    split
    · rename_i hPos
      exact iff_of_true rfl (natCast_pos.mp hPos)
    · rename_i hPos
      rw [gt_iff_lt, natCast_pos] at hPos
      have hZero : (p : Int) = 0 := by omega
      rw [if_pos hZero]
      exact iff_of_false nofun hPos

theorem Holds.pending_eq : c.pending = p := by
  unfold pending
  split
  · exact h.stored_eq
  · rename_i hReady
    rw [h.notReady_iff, Nat.pos_iff_ne_zero, not_not] at hReady
    rw [hReady]
    rfl

theorem Holds.decrementPending {v : Nat} (hLe : v ≤ p) :
    (c.decrementPending v).Holds n (p - v) d := by
  cases c with
  | packed pending deadCount hasStarted =>
    obtain ⟨hSmall, rfl, hDead, hStarted⟩ := h
    refine ⟨hSmall, ?_, hDead, hStarted⟩
    have hLess : v % 8 = v := mod_eq_of_lt (by omega)
    rw [Fin.sub_def]
    simp only [Fin.val_ofNat]
    omega
  | large pending deadCount =>
    obtain ⟨rfl, hDead⟩ := h
    exact ⟨(ofNat_sub hLe).symm, hDead⟩

theorem Holds.incrementDeadCount (hPending : 0 < p) (hLess : d < n) :
    c.incrementDeadCount.Holds n p (d + 1) := by
  unfold Counts.incrementDeadCount
  rw [if_pos (h.notReady_iff.mpr hPending)]
  cases c with
  | packed pending deadCount hasStarted =>
    obtain ⟨hSmall, hPendingEq, rfl, hStarted⟩ := h
    refine ⟨hSmall, hPendingEq, ?_, hStarted⟩
    have hBound : deadCount.val + 1 < 8 := lt_succ_of_le (le_trans hLess hSmall)
    exact Fin.val_add_one_of_lt' hBound
  | large pending deadCount =>
    obtain ⟨hPendingEq, rfl⟩ := h
    exact ⟨hPendingEq, by push_cast; rfl⟩

end

theorem and_six_val (i : Fin 8) : (i &&& 6).val = i.val / 2 * 2 := by
  revert i
  decide

theorem Holds.markLive (h : c.Holds n p d) : c.markLive.Holds n (p / 2 * 2) d := by
  unfold Counts.markLive
  split
  · cases c with
    | packed pending deadCount hasStarted =>
      obtain ⟨hSmall, rfl, hDead, hStarted⟩ := h
      refine ⟨hSmall, ?_, hDead, hStarted⟩
      exact and_six_val pending
    | large pending deadCount =>
      obtain ⟨rfl, hDead⟩ := h
      exact ⟨by omega, hDead⟩
  · rename_i hReady
    rw [h.notReady_iff, Nat.pos_iff_ne_zero, not_not] at hReady
    subst hReady
    exact h

def Settled (c : Counts) : Prop := c.nodeState ≠ .pendingNotReady

theorem Settled.pending_eq (h : c.Settled) : c.pending = 0 := if_neg h

theorem Settled.incrementDeadCount_eq (h : c.Settled) : c.incrementDeadCount = c := if_neg h

theorem Settled.markLive_eq (h : c.Settled) : c.markLive = c := if_neg h

theorem Holds.settled (h : c.Holds n 0 d) : c.Settled := by
  intro hState
  exact absurd (h.notReady_iff.mp hState) (lt_irrefl 0)

/-- A node of which `mark_started` has been told. -/
def Begun : Counts → Prop
  | .packed _ _ hasStarted => hasStarted
  | .large pending _ => pending < 0

theorem begun_markStarted (c : Counts) : c.markStarted.Begun := by
  cases c with
  | packed pending deadCount hasStarted => rfl
  | large pending deadCount => exact negSucc_lt_zero 0

theorem Begun.markCompleted (h : c.Begun) : c.markCompleted.Begun := by
  cases c with
  | packed pending deadCount hasStarted => exact h
  | large pending deadCount => exact negSucc_lt_zero 1

theorem Begun.settled (h : c.Begun) : c.Settled := by
  unfold Settled
  cases c with
  | packed pending deadCount hasStarted =>
    cases h
    by_cases hZero : pending = 0
    · simp [nodeState, hZero]
    · simp [nodeState, hZero]
  | large pending deadCount =>
    have hNeg : pending < 0 := h
    simp only [nodeState]
    rw [if_neg (by omega), if_neg (by omega)]
    split <;> simp

end Counts

end TensorFlowOnSpark.CommonRuntime
