import Mathlib.Data.Finset.Sort

/-!
# Sets of edges

`EdgeSet` of `graph/edgeset.h`: two words in place, and a tree from the third edge on.
-/

namespace TensorFlowOnSpark

open Finset List

abbrev EdgeAddress := Nat

/-- A word of `ptrs_`. `self` is `this`, and `tree` points to a `std::set` that is the set's own. -/
inductive EdgeSet.Word where
  | null
  | edge (e : EdgeAddress)
  | self
  | tree (edges : Finset EdgeAddress)
deriving DecidableEq

structure EdgeSet where
  ptr0 : EdgeSet.Word
  ptr1 : EdgeSet.Word
deriving DecidableEq

namespace EdgeSet

def Word.edges : Word → Finset EdgeAddress
  | .edge e => {e}
  | .tree edges => edges
  | _ => ∅

def new : EdgeSet := ⟨.null, .null⟩

/-- `get_set`; the cast of `ptrs_[1]` is to what it points to. -/
def getSet (s : EdgeSet) : Option (Finset EdgeAddress) :=
  if s.ptr0 = .self then some s.ptr1.edges else none

def ptr (s : EdgeSet) (i : Nat) : Word := if i = 0 then s.ptr0 else s.ptr1

def setPtr (s : EdgeSet) (i : Nat) (w : Word) : EdgeSet :=
  if i = 0 then { s with ptr0 := w } else { s with ptr1 := w }

def size (s : EdgeSet) : Nat :=
  match s.getSet with
  | some edges => edges.card
  | none => (if s.ptr0 = .null then 0 else 1) + if s.ptr1 = .null then 0 else 1

def empty (s : EdgeSet) : Bool := s.size = 0

/-- `insert`, with the flag of the pair. -/
def insert (s : EdgeSet) (value : EdgeAddress) : EdgeSet × Bool :=
  match s.getSet with
  | some edges => ({ s with ptr1 := .tree (Insert.insert value edges) }, value ∉ edges)
  | none =>
    if s.ptr0 = .edge value ∨ s.ptr1 = .edge value then (s, false)
    else if s.ptr0 = .null then ({ s with ptr0 := .edge value }, true)
    else if s.ptr1 = .null then ({ s with ptr1 := .edge value }, true)
    else
      let edges := s.ptr0.edges ∪ s.ptr1.edges
      (⟨.self, .tree (Insert.insert value edges)⟩, value ∉ edges)

def moveLast (s : EdgeSet) (i : Nat) : EdgeSet :=
  (s.setPtr i (s.ptr (s.size - 1))).setPtr (s.size - 1) .null

def erase (s : EdgeSet) (key : EdgeAddress) : EdgeSet × Nat :=
  match s.getSet with
  | some edges => ({ s with ptr1 := .tree (edges.erase key) }, if key ∈ edges then 1 else 0)
  | none =>
    if s.ptr0 = .edge key then (s.moveLast 0, 1)
    else if s.ptr1 = .edge key then (s.moveLast 1, 1)
    else (s, 0)

def Word.asEdge : Word → Option EdgeAddress
  | .edge e => some e
  | _ => none

/-- The edges from `begin()` to `end()`. A `std::set` is in the order of the addresses. -/
def iterate (s : EdgeSet) : List EdgeAddress :=
  match s.getSet with
  | some edges => edges.sort (· ≤ ·)
  | none => ([s.ptr0, s.ptr1].take s.size).filterMap Word.asEdge

def front (s : EdgeSet) : Option EdgeAddress := s.iterate.head?

def elements (s : EdgeSet) : Finset EdgeAddress := s.ptr0.edges ∪ s.ptr1.edges

inductive Proper : EdgeSet → Prop where
  | none : Proper new
  | one (a : EdgeAddress) : Proper ⟨.edge a, .null⟩
  | two {a b : EdgeAddress} (distinct : a ≠ b) : Proper ⟨.edge a, .edge b⟩
  | tree (edges : Finset EdgeAddress) : Proper ⟨.self, .tree edges⟩

structure Behaves (s : EdgeSet) : Prop where
  insert_elements : ∀ value, (s.insert value).1.elements = Insert.insert value s.elements
  insert_flag : ∀ value, (s.insert value).2 ↔ value ∉ s.elements
  erase_elements : ∀ key, (s.erase key).1.elements = s.elements.erase key
  erase_count : ∀ key, (s.erase key).2 = if key ∈ s.elements then 1 else 0
  size_eq : s.size = s.elements.card
  iterate_nodup : s.iterate.Nodup
  mem_iterate : ∀ e, e ∈ s.iterate ↔ e ∈ s.elements

@[simp] theorem elements_new : new.elements = ∅ := rfl

@[simp] theorem elements_one (a : EdgeAddress) : elements ⟨.edge a, .null⟩ = {a} := rfl

@[simp] theorem elements_two (a b : EdgeAddress) : elements ⟨.edge a, .edge b⟩ = {a, b} := rfl

@[simp] theorem elements_tree (edges : Finset EdgeAddress) :
    elements ⟨.self, .tree edges⟩ = edges := by
  simp [elements, Word.edges]

namespace Proper

variable {s : EdgeSet}

variable (h : s.Proper)
include h

theorem insert_proper (value : EdgeAddress) : (s.insert value).1.Proper := by
  cases h with
  | none => exact .one value
  | one a =>
    by_cases hEq : a = value
    · simpa [insert, getSet, hEq] using one value
    · simpa [insert, getSet, hEq] using two hEq
  | @two a b distinct =>
    by_cases hEq : a = value ∨ b = value
    · simpa [insert, getSet, hEq] using two distinct
    · simpa [insert, getSet, hEq] using tree _
  | tree edges => simpa [insert, getSet] using tree _

theorem erase_proper (key : EdgeAddress) : (s.erase key).1.Proper := by
  cases h with
  | none => exact .none
  | one a =>
    by_cases hEq : a = key
    · simpa [erase, getSet, hEq, moveLast, size, ptr, setPtr] using! none
    · simpa [erase, getSet, hEq] using one a
  | @two a b distinct =>
    by_cases hFirst : a = key
    · simpa [erase, getSet, hFirst, moveLast, size, ptr, setPtr] using one b
    · by_cases hSecond : b = key
      · simpa [erase, getSet, hFirst, hSecond, moveLast, size, ptr, setPtr] using one a
      · simpa [erase, getSet, hFirst, hSecond] using two distinct
  | tree edges => simpa [erase, getSet] using tree _

theorem insert_elements (value : EdgeAddress) :
    (s.insert value).1.elements = Insert.insert value s.elements := by
  cases h with
  | none => rfl
  | one a =>
    by_cases hEq : a = value
    · simp [insert, getSet, hEq]
    · simp [insert, getSet, hEq, pair_comm]
  | @two a b distinct =>
    by_cases hEq : a = value ∨ b = value
    · have hMem : value ∈ ({a, b} : Finset EdgeAddress) := by
        rcases hEq with rfl | rfl <;> simp
      simp [insert, getSet, hEq, insert_eq_of_mem hMem]
    · simp [insert, getSet, hEq, Word.edges]
  | tree edges => simp [insert, getSet, Word.edges]

theorem insert_flag (value : EdgeAddress) : (s.insert value).2 ↔ value ∉ s.elements := by
  cases h with
  | none => simp [insert, getSet, new, elements, Word.edges]
  | one a => by_cases hEq : a = value <;> simp [insert, getSet, hEq, eq_comm (a := value)]
  | @two a b distinct =>
    by_cases hEq : a = value ∨ b = value
    · have hMem : value = a ∨ value = b := hEq.imp Eq.symm Eq.symm
      simp [insert, getSet, hEq, hMem]
    · simp [insert, getSet, hEq, Word.edges]
  | tree edges => simp [insert, getSet, Word.edges]

theorem erase_elements (key : EdgeAddress) : (s.erase key).1.elements = s.elements.erase key := by
  cases h with
  | none => rfl
  | one a =>
    by_cases hEq : a = key
    · simp [erase, getSet, hEq, moveLast, size, setPtr, elements, Word.edges]
    · simp [erase, getSet, hEq, Ne.symm hEq]
  | @two a b distinct =>
    by_cases hFirst : a = key
    · subst hFirst
      simp [erase, getSet, moveLast, size, ptr, setPtr, distinct]
    · by_cases hSecond : b = key
      · subst hSecond
        simp [erase, getSet, hFirst, moveLast, size, setPtr, pair_comm a b, Ne.symm hFirst]
      · have hMem : key ∉ ({a, b} : Finset EdgeAddress) := by
          simp [Ne.symm hFirst, Ne.symm hSecond]
        simp [erase, getSet, hFirst, hSecond, erase_eq_of_notMem hMem]
  | tree edges => simp [erase, getSet, Word.edges]

theorem erase_count (key : EdgeAddress) : (s.erase key).2 = if key ∈ s.elements then 1 else 0 := by
  cases h with
  | none => rfl
  | one a => by_cases hEq : a = key <;> simp [erase, getSet, hEq, eq_comm (a := key)]
  | @two a b distinct =>
    by_cases hFirst : a = key
    · simp [erase, getSet, hFirst]
    · by_cases hSecond : b = key
      · simp [erase, getSet, hFirst, hSecond]
      · simp [erase, getSet, hFirst, hSecond, Ne.symm hFirst, Ne.symm hSecond]
  | tree edges => simp [erase, getSet, Word.edges]

theorem size_eq : s.size = s.elements.card := by
  cases h with
  | none => rfl
  | one a => rfl
  | two distinct => simp [size, getSet, card_pair distinct]
  | tree edges => simp [size, getSet, Word.edges]

theorem iterate_nodup : s.iterate.Nodup := by
  cases h with
  | none => exact nodup_nil
  | one a => exact nodup_singleton a
  | two distinct => simp [iterate, getSet, size, Word.asEdge, distinct]
  | tree edges => simp [iterate, getSet]

theorem mem_iterate (e : EdgeAddress) : e ∈ s.iterate ↔ e ∈ s.elements := by
  cases h with
  | none => simp [iterate, getSet, new, size, elements, Word.edges]
  | one a => simp [iterate, getSet, size, Word.asEdge]
  | two distinct => simp [iterate, getSet, size, Word.asEdge]
  | tree edges => simp [iterate, getSet, Word.edges]

theorem behaves : s.Behaves where
  insert_elements := h.insert_elements
  insert_flag := h.insert_flag
  erase_elements := h.erase_elements
  erase_count := h.erase_count
  size_eq := h.size_eq
  iterate_nodup := h.iterate_nodup
  mem_iterate := h.mem_iterate

theorem empty_iff : s.empty ↔ s.elements = ∅ := by
  rw [empty, decide_eq_true_eq, h.size_eq, card_eq_zero]

theorem front_of_nonempty (hNonempty : s.elements.Nonempty) :
    ∃ e ∈ s.elements, s.front = some e := by
  obtain ⟨e, hMem⟩ := hNonempty
  have hIterate := (h.mem_iterate e).mpr hMem
  cases hEdges : s.iterate with
  | nil => simp [hEdges] at hIterate
  | cons first rest =>
    refine ⟨first, ?_, by rw [front, hEdges, head?_cons]⟩
    exact (h.mem_iterate first).mp (hEdges ▸ mem_cons_self)

end Proper

end EdgeSet

end TensorFlowOnSpark
