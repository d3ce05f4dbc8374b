import Mathlib.Data.List.Nodup
import Mathlib.Data.List.Perm.Subperm
import Mathlib.Data.List.Flatten

/-!
# Counting down to readiness

Every task has a number of signals that it waits for.
-/

namespace TensorFlowOnSpark.Countdown

open Function

universe u

open List

structure Tasks (I : Type u) where
  start : List I
  outputs : I → List I
  need : I → Int
  start_nodup : start.Nodup
  start_free : ∀ i ∈ start, ∀ o, i ∉ outputs o

structure State (I : Type u) where
  ready : List I
  pending : I → Int

variable {I : Type u} [DecidableEq I]

def signal (s : State I) (i : I) : State I :=
  { ready := if s.pending i - 1 = 0 then i :: s.ready else s.ready
    pending := update s.pending i (s.pending i - 1) }

def signals (s : State I) (outputs : List I) : State I := outputs.foldl signal s

def takeOrder (outputs : I → List I) : Nat → State I → List I
  | 0, _ => []
  | fuel + 1, s =>
    match s.ready with
    | [] => []
    | o :: rest => o :: takeOrder outputs fuel (signals ⟨rest, s.pending⟩ (outputs o))

variable (t : Tasks I)

/-- What is ready or has finished when the tasks of `log` have been signalled. -/
def Started (log : List I) (i : I) : Prop :=
  i ∈ t.start ∨ 0 < t.need i ∧ t.need i ≤ log.count i

inductive Admissible : List I → Prop
  | nil : Admissible []
  | cons {i : I} {rest : List I} : i ∉ rest → Started t (rest.flatMap t.outputs) i →
      Admissible rest → Admissible (i :: rest)

/-- The state when the tasks of `done` have finished and those of `log` been signalled. -/
structure Inv (done log : List I) (s : State I) : Prop where
  nodup : (s.ready ++ done).Nodup
  pending : ∀ i, s.pending i = t.need i - log.count i
  started : ∀ i, i ∈ s.ready ++ done ↔ Started t log i

variable {t}

theorem Started.mono {log log' : List I} {i : I} (h : Started t log i)
    (hCount : log.count i ≤ log'.count i) : Started t log' i := by
  apply h.imp_right
  rintro ⟨hPos, hNeed⟩
  exact ⟨hPos, Int.le_trans hNeed (by exact_mod_cast hCount)⟩

theorem started_nil {i : I} : Started t [] i ↔ i ∈ t.start := by
  constructor
  · rintro (hStart | ⟨hPos, hNeed⟩)
    · exact hStart
    · rw [count_nil] at hNeed
      exact absurd hNeed (by omega)
  · exact Or.inl

variable {order : List I}

theorem Admissible.nodup (h : Admissible t order) : order.Nodup := by
  induction h with
  | nil => exact nodup_nil
  | cons hNew _ _ ih => exact nodup_cons.mpr ⟨hNew, ih⟩

theorem Admissible.map {J : Type u} [DecidableEq J] {t' : Tasks J} (h : Admissible t order)
    (rename : I → J) (hInj : ∀ i ∈ order, ∀ j ∈ order, rename i = rename j → i = j)
    (hStart : ∀ i ∈ order, i ∈ t.start → rename i ∈ t'.start)
    (hNeed : ∀ i ∈ order, t'.need (rename i) = t.need i) (hCount : ∀ i ∈ order, ∀ o ∈ order,
      (t'.outputs (rename o)).count (rename i) = (t.outputs o).count i) :
    Admissible t' (order.map rename) := by
  induction h with
  | nil => exact .nil
  | @cons i rest hNew hStarted hRest ih =>
    have hTail : ∀ j ∈ rest, j ∈ i :: rest := fun j hMem => mem_cons_of_mem i hMem
    have hMap := ih (fun j hj k hk => hInj j (hTail j hj) k (hTail k hk))
      (fun j hj => hStart j (hTail j hj)) (fun j hj => hNeed j (hTail j hj))
      fun j hj o ho => hCount j (hTail j hj) o (hTail o ho)
    have hSame : ((rest.map rename).flatMap t'.outputs).count (rename i) =
        (rest.flatMap t.outputs).count i := by
      rw [flatMap_map, count_flatMap, count_flatMap]
      congr 1
      apply map_congr_left
      intro o ho
      exact hCount i mem_cons_self o (hTail o ho)
    apply Admissible.cons ?_ ?_ hMap
    · intro hMem
      obtain ⟨j, hj, hEq⟩ := mem_map.mp hMem
      rw [hInj j (hTail j hj) i mem_cons_self hEq] at hj
      exact hNew hj
    · rcases hStarted with hFirst | ⟨hPos, hReached⟩
      · exact Or.inl (hStart i mem_cons_self hFirst)
      · right
        rw [hNeed i mem_cons_self, hSame]
        exact ⟨hPos, hReached⟩

namespace Inv

variable {done log : List I} {s : State I}
variable {pending : I → Int} {o : I} {rest : List I}

theorem initial {ready : List I} (hReady : ready.Perm t.start)
    (hPending : ∀ i, pending i = t.need i) : Inv t [] [] ⟨ready, pending⟩ := by
  constructor
  · rw [append_nil]
    exact hReady.nodup_iff.mpr t.start_nodup
  · intro i
    simp [hPending]
  · intro i
    rw [append_nil, started_nil]
    exact hReady.mem_iff

/-- A signal leaves a task alone unless it is the last one that the task waits for. -/
theorem signal {i : I} (h : Inv t done log s) (hFree : i ∉ t.start) :
    Inv t done (i :: log) (Countdown.signal s i) := by
  have hPending : s.pending i - 1 = t.need i - (i :: log).count i := by
    rw [h.pending, count_cons_self]
    omega
  have hOther : ∀ j, j ≠ i → (Started t (i :: log) j ↔ Started t log j) := by
    intro j hNe
    unfold Started
    rw [count_cons_of_ne hNe.symm]
  constructor
  · by_cases hLast : s.pending i - 1 = 0
    · have hNew : i ∉ s.ready ++ done := by
        rw [h.started]
        rintro (hStart | ⟨_, hNeed⟩)
        · exact hFree hStart
        · have := h.pending i
          omega
      simp only [Countdown.signal, if_pos hLast]
      exact nodup_cons.mpr ⟨hNew, h.nodup⟩
    · simp only [Countdown.signal, if_neg hLast]
      exact h.nodup
  · intro j
    by_cases hEq : j = i
    · subst hEq
      simp only [Countdown.signal, update_self]
      exact hPending
    · simp only [Countdown.signal, update_of_ne hEq]
      rw [count_cons_of_ne (Ne.symm hEq)]
      exact h.pending j
  · intro j
    by_cases hEq : j = i
    · subst hEq
      have hBefore := h.started j
      have hCount := h.pending j
      by_cases hLast : s.pending j - 1 = 0
      · simp only [Countdown.signal, if_pos hLast, cons_append, mem_cons_self, true_iff]
        right
        omega
      · simp only [Countdown.signal, if_neg hLast]
        rw [hBefore]
        constructor
        · rintro (hStart | ⟨hPos, hNeed⟩)
          · exact Or.inl hStart
          · exact Or.inr ⟨hPos, by omega⟩
        · rintro (hStart | ⟨hPos, hNeed⟩)
          · exact Or.inl hStart
          · exact Or.inr ⟨hPos, by omega⟩
    · rw [hOther j hEq, ← h.started j]
      unfold Countdown.signal
      split
      · simp [hEq]
      · rfl

theorem signals {outputs : List I} (h : Inv t done log s) (hFree : ∀ i ∈ outputs, i ∉ t.start) :
    Inv t done (outputs.reverse ++ log) (Countdown.signals s outputs) := by
  unfold Countdown.signals
  induction outputs generalizing s log with
  | nil => exact h
  | cons i rest ih =>
    rw [forall_mem_cons] at hFree
    rw [reverse_cons, append_assoc]
    exact ih (h.signal hFree.1) hFree.2

theorem ofPerm {log' : List I} (h : Inv t done log s) (hPerm : log.Perm log') :
    Inv t done log' s := by
  constructor
  · exact h.nodup
  · intro i
    rw [h.pending, hPerm.count_eq]
  · intro i
    rw [h.started, Started, Started, hPerm.count_eq]

theorem pop (h : Inv t done log ⟨o :: rest, pending⟩) : Inv t (o :: done) log ⟨rest, pending⟩ := by
  have hPerm : (o :: rest ++ done).Perm (rest ++ o :: done) := perm_middle.symm
  constructor
  · exact hPerm.nodup_iff.mp h.nodup
  · exact h.pending
  · intro i
    rw [← h.started i]
    exact hPerm.mem_iff.symm

section

variable (h : Inv t done (done.flatMap t.outputs) ⟨o :: rest, pending⟩)

include h

theorem finish :
    Inv t (o :: done) ((o :: done).flatMap t.outputs)
      (Countdown.signals ⟨rest, pending⟩ (t.outputs o)) := by
  have hFree : ∀ i ∈ t.outputs o, i ∉ t.start :=
    fun i hMem hStart => t.start_free i hStart o hMem
  exact (h.pop.signals hFree).ofPerm ((reverse_perm _).append_right _)

theorem admissible
    (hDone : Admissible t done) : Admissible t (o :: done) := by
  have hNodup := h.pop.nodup
  have hNew : o ∉ done := (nodup_cons.mp (nodup_append.mp hNodup).2.1).1
  exact .cons hNew ((h.started o).mp (by simp)) hDone

end

theorem complete (h : Inv t done (done.flatMap t.outputs) ⟨[], pending⟩)
    (hOrder : Admissible t order) : order ⊆ done := by
  induction hOrder with
  | nil => exact nil_subset _
  | @cons i earlier hNew hStarted hEarlier ih =>
    have hSubperm : earlier.Subperm done := hEarlier.nodup.subperm ih
    obtain ⟨sub, hPerm, hSub⟩ := hSubperm
    have hCount : (earlier.flatMap t.outputs).count i ≤ (done.flatMap t.outputs).count i := by
      rw [← (hPerm.flatMap_right t.outputs).count_eq]
      exact (hSub.flatMap t.outputs).count_le i
    have hMem := (h.started i).mpr (hStarted.mono hCount)
    exact cons_subset.mpr ⟨hMem, ih⟩

end Inv

end TensorFlowOnSpark.Countdown
