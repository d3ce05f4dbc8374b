import Mathlib.Data.List.Nodup
import Mathlib.Data.List.Perm.Subperm

/-!
# Breadth first search

A search takes the first element of its queue and enqueues what comes before it and has
not been visited.
-/

namespace TensorFlowOnSpark.BreadthFirst

universe u

open List

variable {N : Type u} [DecidableEq N]

structure State (N : Type u) where
  queue : List N
  visited : List N

def visit (s : State N) (m : N) : State N :=
  if m ∈ s.visited then s else ⟨s.queue ++ [m], s.visited ++ [m]⟩

def search (prev : N → List N) : Nat → State N → List N
  | 0, s => s.visited
  | fuel + 1, s =>
    match s.queue with
    | [] => s.visited
    | n :: queue => search prev fuel ((prev n).foldl visit ⟨queue, s.visited⟩)

/-- What is visited is in `all`, and what is left to do stands in the queue. -/
structure Inv (prev : N → List N) (all : List N) (fuel : Nat) (s : State N) : Prop where
  queued : s.queue ⊆ s.visited
  nodup : s.visited.Nodup
  bound : s.visited ⊆ all
  done : ∀ n ∈ s.visited, n ∈ s.queue ∨ prev n ⊆ s.visited
  fuel : all.length + s.queue.length ≤ fuel + s.visited.length

variable {prev : N → List N} {all : List N} {fuel : Nat} {s : State N}

theorem foldl_visit (ms : List N) (s : State N) : ∃ new : List N,
    ms.foldl visit s = ⟨s.queue ++ new, s.visited ++ new⟩ ∧ new ⊆ ms ∧
      ms ⊆ s.visited ++ new ∧ (s.visited.Nodup → (s.visited ++ new).Nodup) := by
  induction ms generalizing s with
  | nil => exact ⟨[], by simp, by simp, by simp, by simp⟩
  | cons m ms ih =>
    rw [foldl_cons]
    obtain ⟨new, hFold, hNew, hAll, hNodup⟩ := ih (visit s m)
    rw [hFold]
    unfold visit at hAll hNodup ⊢
    by_cases hSeen : m ∈ s.visited
    · rw [if_pos hSeen] at hAll hNodup ⊢
      exact ⟨new, rfl, Subset.trans hNew (subset_cons_self m ms),
        cons_subset.mpr ⟨mem_append_left _ hSeen, hAll⟩, hNodup⟩
    · rw [if_neg hSeen] at hAll hNodup ⊢
      refine ⟨m :: new, by simp, cons_subset_cons m hNew, ?_, ?_⟩
      · rw [cons_subset]
        refine ⟨by simp, fun x hx => ?_⟩
        simpa using hAll hx
      · intro h
        have hOnce : (s.visited ++ [m]).Nodup := by
          rw [nodup_append]
          refine ⟨h, nodup_singleton m, ?_⟩
          rintro x hx y hy rfl
          exact hSeen (mem_singleton.mp hy ▸ hx)
        simpa using hNodup hOnce

theorem Inv.step (hClosed : ∀ n ∈ all, prev n ⊆ all) {n : N} {queue : List N}
    (h : Inv prev all (fuel + 1) s) (hQueue : s.queue = n :: queue) :
    Inv prev all fuel ((prev n).foldl visit ⟨queue, s.visited⟩) := by
  obtain ⟨new, hFold, hNew, hAll, hNodup⟩ := foldl_visit (prev n) ⟨queue, s.visited⟩
  have hQueued : n :: queue ⊆ s.visited := hQueue ▸ h.queued
  rw [cons_subset] at hQueued
  rw [hFold]
  constructor
  · intro x hx
    rcases mem_append.mp hx with hx | hx
    · exact mem_append_left _ (hQueued.2 hx)
    · exact mem_append_right _ hx
  · exact hNodup h.nodup
  · intro x hx
    rcases mem_append.mp hx with hx | hx
    · exact h.bound hx
    · exact hClosed n (h.bound hQueued.1) (hNew hx)
  · intro x hx
    rcases mem_append.mp hx with hx | hx
    · rcases h.done x hx with hIn | hDone
      · rw [hQueue] at hIn
        rcases mem_cons.mp hIn with rfl | hIn
        · exact Or.inr hAll
        · exact Or.inl (mem_append_left _ hIn)
      · exact Or.inr (Subset.trans hDone (subset_append_left _ _))
    · exact Or.inl (mem_append_right _ hx)
  · have hFuel := h.fuel
    rw [hQueue, length_cons] at hFuel
    simp only [length_append]
    omega

theorem search_closed (hClosed : ∀ n ∈ all, prev n ⊆ all) (h : Inv prev all fuel s) :
    s.visited ⊆ search prev fuel s ∧ ∀ n ∈ search prev fuel s, prev n ⊆ search prev fuel s := by
  induction fuel generalizing s with
  | zero =>
    have hLength := (h.nodup.subperm h.bound).length_le
    have hFuel := h.fuel
    have hQueue : s.queue = [] := length_eq_zero_iff.mp (by omega)
    refine ⟨Subset.refl _, fun n hn => ?_⟩
    rcases h.done n hn with hIn | hDone
    · rw [hQueue] at hIn
      cases hIn
    · exact hDone
  | succ fuel ih =>
    rw [search]
    cases hQueue : s.queue with
    | nil =>
      refine ⟨Subset.refl _, fun n hn => ?_⟩
      rcases h.done n hn with hIn | hDone
      · rw [hQueue] at hIn
        cases hIn
      · exact hDone
    | cons n queue =>
      obtain ⟨hStart, hEnd⟩ := ih (h.step hClosed hQueue)
      obtain ⟨new, hFold, -, -, -⟩ := foldl_visit (prev n) ⟨queue, s.visited⟩
      have hKept : s.visited ⊆ ((prev n).foldl visit ⟨queue, s.visited⟩).visited := by
        rw [hFold]
        exact subset_append_left _ _
      exact ⟨Subset.trans hKept hStart, hEnd⟩

end TensorFlowOnSpark.BreadthFirst
