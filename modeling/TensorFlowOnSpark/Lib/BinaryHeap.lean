import Mathlib.Data.List.Range
import Mathlib.Data.List.Sort

/-!
# Priority queues of keyed elements

A heap in a vector, as the C++ library keeps it: pushing and popping rearrange the
elements, and where each of them goes depends on the keys only.
-/

namespace TensorFlowOnSpark.BinaryHeap

universe u v w

open List

variable {α : Type u} {β : Type v} {κ : Type w}

def arrange (order : List Nat) (l : List α) : List α := order.filterMap fun i => l[i]?

theorem arrange_map (f : α → β) (order : List Nat) (l : List α) :
    arrange order (l.map f) = (arrange order l).map f := by
  simp only [arrange, getElem?_map, map_filterMap]

theorem arrange_append (order order' : List Nat) (l : List α) :
    arrange (order ++ order') l = arrange order l ++ arrange order' l :=
  filterMap_append

theorem arrange_range (l : List α) : arrange (range l.length) l = l := by
  rw [arrange]
  induction l with
  | nil => rfl
  | cons x l ih =>
    rw [length_cons, range_succ_eq_map, filterMap_cons, filterMap_map]
    exact congrArg (x :: ·) ih

theorem arrange_perm {order : List Nat} {l : List α} (h : order.Perm (range l.length)) :
    (arrange order l).Perm l := by
  have hPerm := h.filterMap fun i => l[i]?
  rwa [← arrange, ← arrange, arrange_range] at hPerm

section Keys

variable [LinearOrder κ]

def IsHeap (keys : List κ) : Prop :=
  ∀ i x y, 0 < i → keys[(i - 1) / 2]? = some x → keys[i]? = some y → x ≤ y

variable {keys : List κ}

theorem IsHeap.root_le (h : IsHeap keys) {root : κ} (hRoot : keys[0]? = some root) {y : κ}
    (hy : y ∈ keys) : root ≤ y := by
  obtain ⟨i, hi⟩ := mem_iff_getElem?.mp hy
  clear hy
  induction i using Nat.strongRecOn generalizing y with
  | ind i ih =>
    rcases Nat.eq_zero_or_pos i with rfl | hPos
    · rw [hRoot, Option.some.injEq] at hi
      exact hi.le
    · have hParent : (i - 1) / 2 < i := by omega
      obtain ⟨hLength, -⟩ := List.getElem?_eq_some_iff.mp hi
      have hAbove : keys[(i - 1) / 2]? = some keys[(i - 1) / 2] :=
        getElem?_eq_getElem (by omega)
      exact (ih _ hParent hAbove).trans (h i _ y hPos hAbove hi)

theorem isHeap_of_pairwise (h : keys.Pairwise (· ≤ ·)) : IsHeap keys := by
  intro i x y hPos hx hy
  obtain ⟨hParent, rfl⟩ := List.getElem?_eq_some_iff.mp hx
  obtain ⟨hChild, rfl⟩ := List.getElem?_eq_some_iff.mp hy
  exact pairwise_iff_getElem.mp h _ _ hParent hChild (by omega)

/-- `std::push_heap` and `std::pop_heap` of a vector with the given keys, as the positions from
which the elements come: the last element is pushed, and the popped one comes last. -/
structure HeapOrder (κ : Type w) [LinearOrder κ] where
  push : List κ → List Nat
  pop : List κ → List Nat
  push_perm : ∀ keys, (push keys).Perm (range keys.length)
  push_isHeap : ∀ keys, IsHeap keys.dropLast → IsHeap (arrange (push keys) keys)
  pop_perm : ∀ keys, (pop keys).Perm (range keys.length)
  pop_last : ∀ keys, keys ≠ [] → ∃ order, pop keys = order ++ [0]
  pop_isHeap : ∀ keys, IsHeap keys → IsHeap (arrange (pop keys) keys).dropLast

variable {rest : List α}

namespace HeapOrder

variable (H : HeapOrder κ) (key : α → κ)

def emplace (heap : List α) (x : α) : List α :=
  arrange (H.push ((heap ++ [x]).map key)) (heap ++ [x])

def popTop (heap : List α) : List α := (arrange (H.pop (heap.map key)) heap).dropLast

variable {H key} {heap : List α}

theorem emplace_perm (x : α) : (H.emplace key heap x).Perm (heap ++ [x]) := by
  apply arrange_perm
  have hPerm := H.push_perm ((heap ++ [x]).map key)
  rwa [length_map] at hPerm

theorem isHeap_emplace (x : α) (h : IsHeap (heap.map key)) :
    IsHeap ((H.emplace key heap x).map key) := by
  rw [emplace, ← arrange_map]
  apply H.push_isHeap
  rwa [map_append, map_singleton, dropLast_concat]

theorem emplace_map (f : α → β) (key' : β → κ) (x : α) (h : ∀ y ∈ heap ++ [x], key' (f y) = key y) :
    H.emplace key' (heap.map f) (f x) = (H.emplace key heap x).map f := by
  have hAll : heap.map f ++ [f x] = (heap ++ [x]).map f := by simp
  have hKeys : ((heap ++ [x]).map f).map key' = (heap ++ [x]).map key := by
    rw [map_map]
    exact map_congr_left h
  rw [emplace, hAll, hKeys, arrange_map, ← emplace]

theorem arrange_pop {x : α} (hHeap : heap = x :: rest) :
    arrange (H.pop (heap.map key)) heap = H.popTop key heap ++ [x] := by
  obtain ⟨order, hOrder⟩ := H.pop_last (heap.map key) (by simp [hHeap])
  have hTop : arrange [0] heap = [x] := by simp [arrange, hHeap]
  rw [popTop, hOrder, arrange_append, hTop, dropLast_concat]

theorem popTop_perm (H : HeapOrder κ) (key : α → κ) {x : α} (hHeap : heap = x :: rest)
    : (x :: H.popTop key heap).Perm heap := by
  have hPerm := H.pop_perm (heap.map key)
  rw [length_map] at hPerm
  have hAll := arrange_perm hPerm
  rw [arrange_pop hHeap] at hAll
  exact (perm_append_singleton _ _).symm.trans hAll

theorem isHeap_popTop (h : IsHeap (heap.map key)) : IsHeap ((H.popTop key heap).map key) := by
  rw [popTop, map_dropLast, ← arrange_map]
  exact H.pop_isHeap _ h

theorem popTop_map (f : α → β) (key' : β → κ) (h : ∀ y ∈ heap, key' (f y) = key y) :
    H.popTop key' (heap.map f) = (H.popTop key heap).map f := by
  have hKeys : (heap.map f).map key' = heap.map key := by
    rw [map_map]
    exact map_congr_left h
  rw [popTop, hKeys, arrange_map, popTop, map_dropLast]

end HeapOrder

variable {key : α → κ}

theorem top_le {x : α} (h : IsHeap ((x :: rest).map key)) {y : α} (hy : y ∈ x :: rest)
    : key x ≤ key y :=
  h.root_le rfl (mem_map_of_mem hy)

inductive TakesLeast (key : α → κ) : List α → List α → List α → Prop where
  | stop (content : List α) : TakesLeast key content [] content
  | take {content rest taken left : List α} {x : α} (removed : (x :: rest).Perm content)
      (least : ∀ y ∈ content, key x ≤ key y) (next : TakesLeast key rest taken left) :
      TakesLeast key content (x :: taken) left

variable {content taken left : List α}

theorem TakesLeast.perm (h : TakesLeast key content taken left)
    : (taken ++ left).Perm content := by
  induction h with
  | stop content => exact .refl _
  | take removed _ _ ih => exact (ih.cons _).trans removed

theorem TakesLeast.sorted (h : TakesLeast key content taken left)
    : taken.Pairwise fun x y => key x ≤ key y := by
  induction h with
  | stop content => exact .nil
  | take removed least next ih =>
    refine pairwise_cons.mpr ⟨?_, ih⟩
    intro y hy
    have hRest := next.perm.mem_iff.mp (mem_append_left _ hy)
    exact least y (removed.mem_iff.mp (mem_cons_of_mem _ hRest))

section Sorted

variable [Inhabited κ]

def Lesser (keys : List κ) (i j : Nat) : Prop := keys.getD i default ≤ keys.getD j default

instance (keys : List κ) : DecidableRel (Lesser keys) :=
    fun _ _ => inferInstanceAs (Decidable (_ ≤ _))

instance (keys : List κ) : Std.Total (Lesser keys) := ⟨fun _ _ => le_total _ _⟩

instance (keys : List κ) : IsTrans Nat (Lesser keys) := ⟨fun _ _ _ => le_trans⟩

theorem isHeap_arrange {order : List Nat} (h : order.Pairwise (Lesser keys)) :
    IsHeap (arrange order keys) := by
  apply isHeap_of_pairwise
  refine pairwise_filterMap.mpr (h.imp ?_)
  intro i j hLe x hx y hy
  rwa [Lesser, getD_eq_getElem?_getD, getD_eq_getElem?_getD, hx, hy] at hLe

/-- The vector is kept sorted, with the elements of one key in the order of their arrival. -/
def sortedOrder (κ : Type w) [LinearOrder κ] [Inhabited κ] : HeapOrder κ where
  push keys := (range keys.length).insertionSort (Lesser keys)
  pop keys :=
    ((range keys.length).drop 1).insertionSort (Lesser keys) ++ (range keys.length).take 1
  push_perm keys := perm_insertionSort _ _
  push_isHeap keys _ := isHeap_arrange (pairwise_insertionSort _ _)
  pop_perm keys := by
    refine ((perm_insertionSort _ _).append_right _).trans ?_
    refine perm_append_comm.trans ?_
    rw [take_append_drop]
  pop_last keys h := by
    obtain ⟨key, rest, rfl⟩ := exists_cons_of_ne_nil h
    refine ⟨_, congrArg _ ?_⟩
    rw [length_cons, range_succ_eq_map]
    rfl
  pop_isHeap keys _ := by
    cases keys with
    | nil => exact isHeap_of_pairwise .nil
    | cons key rest =>
      have hTop : arrange ((range (rest.length + 1)).take 1) (key :: rest) = [key] := by
        rw [range_succ_eq_map]
        rfl
      rw [length_cons, arrange_append, hTop, dropLast_concat]
      exact isHeap_arrange (pairwise_insertionSort _ _)

end Sorted

end Keys

end TensorFlowOnSpark.BinaryHeap
