import Mathlib.Algebra.BigOperators.Ring.List
import Mathlib.Algebra.BigOperators.Ring.Nat

/-!
# Reservoir sampling

`_ReservoirBucket.AddItem` of `python/summary/impl/reservoir.py`.
-/

namespace TensorFlowOnSpark.Summary

open List Nat

variable {α β : Type*}

/-- A call of `AddItem`, with what `randint` returns if the call draws. -/
structure Call (α β : Type*) where
  item : α
  f : α → β
  random : Nat

def Call.value (call : Call α β) : β := call.f call.item

structure ReservoirBucket (β : Type*) where
  items : List β
  numItemsSeen : Nat

namespace ReservoirBucket

def new : ReservoirBucket β := ⟨[], 0⟩

def addItem (maxSize : Nat) (alwaysKeepLast : Bool) (b : ReservoirBucket β) (call : Call α β) :
    ReservoirBucket β where
  items :=
    if b.items.length < maxSize ∨ maxSize = 0 then b.items ++ [call.value]
    else if call.random < maxSize then b.items.eraseIdx call.random ++ [call.value]
    else if alwaysKeepLast then b.items.dropLast ++ [call.value]
    else b.items
  numItemsSeen := b.numItemsSeen + 1

def addItems (maxSize : Nat) (alwaysKeepLast : Bool) (calls : List (Call α β)) :
    ReservoirBucket β :=
  calls.foldl (addItem maxSize alwaysKeepLast) new

structure Keeps (maxSize : Nat) (alwaysKeepLast : Bool) (b : ReservoirBucket β)
    (stream : List β) : Prop where
  seen : b.numItemsSeen = stream.length
  sublist : b.items <+ stream
  length : b.items.length = if maxSize = 0 then stream.length else min stream.length maxSize
  last : alwaysKeepLast → b.items.getLast? = stream.getLast?

variable {maxSize : Nat} {alwaysKeepLast : Bool} {b : ReservoirBucket β} {stream : List β}

theorem Keeps.addItem (h : Keeps maxSize alwaysKeepLast b stream) (call : Call α β) :
    Keeps maxSize alwaysKeepLast (b.addItem maxSize alwaysKeepLast call)
      (stream ++ [call.value]) := by
  have hSublist {kept : List β} (hKept : kept <+ stream) :
      kept ++ [call.value] <+ stream ++ [call.value] := hKept.append (Sublist.refl _)
  have hLength := h.length
  refine ⟨?_, ?_, ?_, ?_⟩
  · rw [ReservoirBucket.addItem, h.seen, length_append, length_singleton]
  · simp only [ReservoirBucket.addItem]
    split_ifs
    · exact hSublist h.sublist
    · exact hSublist ((eraseIdx_sublist ..).trans h.sublist)
    · exact hSublist ((dropLast_sublist _).trans h.sublist)
    · exact h.sublist.trans (sublist_append_left ..)
  · simp only [ReservoirBucket.addItem, length_append, length_singleton]
    split_ifs at hLength ⊢
    all_goals simp only [length_append, hLength]
    all_goals grind
  · intro hLast
    simp only [ReservoirBucket.addItem]
    split_ifs <;> simp

theorem addItems_keeps (maxSize : Nat) (alwaysKeepLast : Bool) (calls : List (Call α β)) :
    Keeps maxSize alwaysKeepLast (addItems maxSize alwaysKeepLast calls)
      (calls.map Call.value) := by
  have hRun : ∀ {b : ReservoirBucket β} {stream : List β}, Keeps maxSize alwaysKeepLast b stream →
      Keeps maxSize alwaysKeepLast (calls.foldl (addItem maxSize alwaysKeepLast) b)
        (stream ++ calls.map Call.value) := by
    induction calls with
    | nil =>
      intro b stream h
      rwa [map_nil, append_nil]
    | cons call calls ih =>
      intro b stream h
      have hRest := ih (h.addItem call)
      rwa [append_assoc] at hRest
  exact hRun ⟨rfl, .slnil, by simp [new], fun _ => rfl⟩

/-- What the call after `n` others may draw; a call that does not draw has one entry as well. -/
def draws (maxSize n : Nat) : List Nat := if n < maxSize then [0] else range (n + 1)

def choices (maxSize : Nat) : Nat → List (List Nat)
  | 0 => [[]]
  | n + 1 => (choices maxSize n).flatMap fun random =>
    (draws maxSize n).map fun r => random ++ [r]

/-- The places in the stream of the items that are kept. -/
def kept (maxSize n : Nat) (random : List Nat) : List Nat :=
  (addItems maxSize false (zipWith (Call.mk · id ·) (range n) random)).items

def ways (maxSize n : Nat) (s : Finset Nat) : Nat :=
  (choices maxSize n).countP fun random => (kept maxSize n random).toFinset = s

def weight (maxSize : Nat) : Nat → Nat
  | 0 => 1
  | n + 1 => (if n < maxSize then 1 else n + 1 - maxSize) * weight maxSize n

variable {n : Nat} {random : List Nat}

theorem length_of_mem_choices (h : random ∈ choices maxSize n) :
    random.length = n := by
  induction n generalizing random with
  | zero => rw [mem_singleton.mp h, length_nil]
  | succ n ih =>
    obtain ⟨before, hBefore, hDraw⟩ := mem_flatMap.mp h
    obtain ⟨r, -, rfl⟩ := mem_map.mp hDraw
    rw [length_append, ih hBefore, length_singleton]

theorem kept_keeps (h : random.length = n) :
    Keeps maxSize false (addItems maxSize false (zipWith (Call.mk · id ·) (range n) random))
      (range n) := by
  have hKeeps := addItems_keeps maxSize false (zipWith (Call.mk · id ·) (range n) random)
  rw [map_zipWith] at hKeeps
  have hStream : zipWith (fun item r => (Call.mk item id r : Call Nat Nat).value) (range n)
      random = range n := by
    apply ext_getElem <;> simp [h, Call.value]
  rwa [hStream] at hKeeps

theorem toFinset_concat {l : List Nat} {s : Finset Nat} (hNew : n ∉ l) :
    (l ++ [n]).toFinset = s ↔ n ∈ s ∧ l.toFinset = s.erase n := by
  rw [toFinset_append, toFinset_cons, toFinset_nil, insert_empty_eq, Finset.union_comm,
    ← Finset.insert_eq]
  constructor
  · rintro rfl
    rw [Finset.erase_insert (by rwa [mem_toFinset])]
    exact ⟨Finset.mem_insert_self .., rfl⟩
  · rintro ⟨hMem, hEq⟩
    rw [hEq, Finset.insert_erase hMem]

theorem countP_getElem (l : List Nat) (p : Nat → Bool) :
    ((range l.length).countP fun r => p (l.getD r 0)) = l.countP p := by
  have hMap : (range l.length).map (fun r => l.getD r 0) = l := by
    apply ext_getElem <;> simp +contextual
  conv_rhs => rw [← hMap, countP_map]
  rfl

/-- A list without one of its elements is `s` in as many ways as an element can be added to
`s`. -/
theorem countP_eraseIdx {l : List Nat} (hNodup : l.Nodup) (hRange : ∀ x ∈ l, x < n)
    (s : Finset Nat) : ((range l.length).countP fun r => (l.eraseIdx r).toFinset = s) =
      ∑ y ∈ Finset.range n \ s, if l.toFinset = insert y s then 1 else 0 := by
  have hErase : ∀ r ∈ range l.length, (l.eraseIdx r).toFinset = s ↔
      l.toFinset.erase (l.getD r 0) = s := by
    intro r hr
    have hLess := mem_range.mp hr
    have hSame : (l.erase l[r]).toFinset = l.toFinset.erase l[r] := by
      ext x
      rw [mem_toFinset, hNodup.mem_erase_iff, Finset.mem_erase, mem_toFinset]
    rw [getD_eq_getElem?_getD, getElem?_eq_getElem hLess, Option.getD_some, ← hSame,
      hNodup.erase_getElem r hLess]
  have hCount : (range l.length).countP (fun r => (l.eraseIdx r).toFinset = s) =
      (range l.length).countP fun r => l.toFinset.erase (l.getD r 0) = s :=
    countP_congr fun r hr => by simpa only [decide_eq_true_eq] using hErase r hr
  rw [hCount, countP_getElem l fun x => l.toFinset.erase x = s, countP_eq_length_filter,
    ← toFinset_card_of_nodup (hNodup.filter _), toFinset_filter, ← Finset.card_filter]
  congr 1
  ext y
  simp only [Finset.mem_filter, mem_toFinset, decide_eq_true_eq, Finset.mem_sdiff, Finset.mem_range]
  constructor
  · rintro ⟨hMem, rfl⟩
    exact ⟨⟨hRange y hMem, Finset.notMem_erase _ _⟩,
      (Finset.insert_erase (mem_toFinset.mpr hMem)).symm⟩
  · rintro ⟨⟨-, hNot⟩, hEq⟩
    rw [← mem_toFinset, hEq]
    exact ⟨Finset.mem_insert_self .., Finset.erase_insert hNot⟩

theorem countP_range_ite (k m : Nat) (p : Nat → Prop) [DecidablePred p] (q : Prop) [Decidable q] :
    ((range (k + m)).countP fun r => decide (if r < k then p r else q)) =
      ((range k).countP fun r => p r) + m * if q then 1 else 0 := by
  rw [range_add, countP_append]
  congr 1
  · exact countP_congr fun r hr => by simp [mem_range.mp hr]
  · split_ifs with hq <;> simp [Function.comp_def, hq]

theorem sum_map_sum {ι : Type} (l : List (List Nat)) (s : Finset ι) (f : List Nat → ι → Nat) :
    (l.map fun random => ∑ y ∈ s, f random y).sum =
      ∑ y ∈ s, (l.map fun random => f random y).sum := by
  induction l with
  | nil => simp
  | cons random l ih => simp [ih, Finset.sum_add_distrib]

theorem sum_map_ite (l : List (List Nat)) (p : List Nat → Prop) [DecidablePred p] :
    (l.map fun random => if p random then 1 else 0).sum = l.countP fun random => p random := by
  induction l with
  | nil => rfl
  | cons random l ih =>
    rw [map_cons, sum_cons, ih, countP_cons, add_comm]
    simp

section Uniform

variable {n : Nat} {random : List Nat} {s : Finset Nat}

theorem ways_succ (s : Finset Nat) : ways maxSize (n + 1) s =
    ((choices maxSize n).map fun random => (draws maxSize n).countP fun r =>
      (kept maxSize (n + 1) (random ++ [r])).toFinset = s).sum := by
  rw [ways, choices, countP_flatMap]
  congr 1
  refine map_congr_left fun random _ => ?_
  rw [Function.comp_apply, countP_map]
  rfl

theorem kept_lt (h : random.length = n) : ∀ x ∈ kept maxSize n random, x < n :=
  fun _ hx => mem_range.mp ((kept_keeps h).sublist.subset hx)

variable (hPos : 0 < maxSize)

include hPos

section

variable (h : random.length = n)

include h

theorem length_kept : (kept maxSize n random).length = min n maxSize := by
  rw [kept, (kept_keeps h).length, if_neg hPos.ne', length_range]

theorem kept_concat (r : Nat) :
    kept maxSize (n + 1) (random ++ [r]) =
      if n < maxSize then kept maxSize n random ++ [n]
      else if r < maxSize then (kept maxSize n random).eraseIdx r ++ [n]
      else kept maxSize n random := by
  have hRoom : (kept maxSize n random).length < maxSize ∨ maxSize = 0 ↔ n < maxSize := by
    rw [length_kept hPos h]
    omega
  have hStep : kept maxSize (n + 1) (random ++ [r]) =
      ((addItems maxSize false (zipWith (Call.mk · id ·) (range n) random)).addItem maxSize
        false ⟨n, id, r⟩).items := by
    rw [kept, range_succ, zipWith_append (by rw [length_range, h]), addItems, foldl_append]
    rfl
  rw [hStep]
  exact if_congr hRoom rfl rfl

theorem toFinset_kept_concat (r : Nat) :
    (kept maxSize (n + 1) (random ++ [r])).toFinset = s ↔
      if n < maxSize then n ∈ s ∧ (kept maxSize n random).toFinset = s.erase n
      else if r < maxSize then n ∈ s ∧ ((kept maxSize n random).eraseIdx r).toFinset = s.erase n
      else (kept maxSize n random).toFinset = s := by
  have hNew : n ∉ kept maxSize n random := fun hn => lt_irrefl n (kept_lt h n hn)
  rw [kept_concat hPos h]
  split_ifs
  · exact toFinset_concat hNew
  · exact toFinset_concat fun hn => hNew (mem_of_mem_eraseIdx hn)
  · exact Iff.rfl

/-- How many draws lead from what is kept to `s`. -/
theorem countP_draws :
    ((draws maxSize n).countP fun r => (kept maxSize (n + 1) (random ++ [r])).toFinset = s) =
      if n < maxSize then if n ∈ s ∧ (kept maxSize n random).toFinset = s.erase n then 1 else 0
      else if n ∈ s then ∑ y ∈ Finset.range n \ s.erase n,
        if (kept maxSize n random).toFinset = insert y (s.erase n) then 1 else 0
      else (n + 1 - maxSize) * if (kept maxSize n random).toFinset = s then 1 else 0 := by
  simp only [toFinset_kept_concat hPos h]
  rw [draws]
  split_ifs with hRoom hKept hMem hOld
  · simp [hKept]
  · simp [hKept]
  · have hLength : (kept maxSize n random).length = maxSize := by
      rw [length_kept hPos h]
      omega
    have hSplit : n + 1 = maxSize + (n + 1 - maxSize) := by omega
    have hNodup : (kept maxSize n random).Nodup := (kept_keeps h).sublist.nodup nodup_range
    have hOld : (kept maxSize n random).toFinset ≠ s := by
      rintro rfl
      exact lt_irrefl n (kept_lt h n (mem_toFinset.mp hMem))
    have hErase := countP_eraseIdx hNodup (kept_lt h) (s.erase n)
    rw [hLength] at hErase
    rw [hSplit, countP_range_ite, if_neg hOld]
    simp only [hMem, true_and]
    exact hErase
  all_goals
    have hSplit : n + 1 = maxSize + (n + 1 - maxSize) := by omega
    conv_lhs => rw [hSplit, countP_range_ite]
    simp [hMem, hOld]

end

theorem ways_eq (n : Nat) {s : Finset Nat} (hs : s ⊆ Finset.range n)
    (hCard : s.card = min n maxSize) : ways maxSize n s = weight maxSize n := by
  induction n generalizing s with
  | zero =>
    obtain rfl : s = ∅ := by simpa using hs
    rfl
  | succ n ih =>
    have hErase : s.erase n ⊆ Finset.range n := by
      intro x hx
      have hLess := Finset.mem_range.mp (hs (Finset.mem_of_mem_erase hx))
      have hNe := Finset.ne_of_mem_erase hx
      exact Finset.mem_range.mpr (by omega)
    have hDraws : ∀ random ∈ choices maxSize n, _ := fun random hRandom =>
      countP_draws (s := s) hPos (length_of_mem_choices hRandom)
    rw [ways_succ, map_congr_left hDraws, weight]
    have hCardErase := Finset.card_erase_add_one (s := s) (a := n)
    split_ifs with hRoom hMem
    · have hMem : n ∈ s := by
        have hEq := Finset.eq_of_subset_of_card_le hs (by rw [Finset.card_range]; omega)
        exact hEq ▸ Finset.self_mem_range_succ n
      simp only [hMem, true_and]
      rw [sum_map_ite, one_mul, ← ih hErase (by have := hCardErase hMem; omega), ways]
    · rw [sum_map_sum]
      have hTerm : ∀ y ∈ Finset.range n \ s.erase n, ((choices maxSize n).map fun random =>
          if (kept maxSize n random).toFinset = insert y (s.erase n) then 1 else 0).sum =
            weight maxSize n := by
        intro y hy
        obtain ⟨hy, hNot⟩ := Finset.mem_sdiff.mp hy
        rw [sum_map_ite, ← ih (Finset.insert_subset hy hErase) (by
          rw [Finset.card_insert_of_notMem hNot, hCardErase hMem]
          omega), ways]
      rw [Finset.sum_congr rfl hTerm, Finset.sum_const, nsmul_eq_mul, cast_id,
        Finset.card_sdiff_of_subset hErase, Finset.card_range]
      have hOne := hCardErase hMem
      congr 1
      omega
    · rw [Finset.erase_eq_of_notMem hMem] at hErase
      rw [sum_map_mul_left, sum_map_ite, ← ih hErase (by omega), ways]

end Uniform

/-- What is kept comes from the stream in its order, and every subset of the right size is kept
equally often. -/
theorem addItems_samples (maxSize : Nat) :
    (∀ (alwaysKeepLast : Bool) (calls : List (Call α β)),
      (addItems maxSize alwaysKeepLast calls).items <+ calls.map Call.value ∧
      (maxSize = 0 → (addItems maxSize alwaysKeepLast calls).items = calls.map Call.value) ∧
      (0 < maxSize → (addItems maxSize alwaysKeepLast calls).items.length ≤ maxSize) ∧
      (alwaysKeepLast → (addItems maxSize alwaysKeepLast calls).items.getLast? =
        (calls.map Call.value).getLast?)) ∧
    (0 < maxSize → ∀ (n : Nat) (s t : Finset Nat), s ⊆ Finset.range n → t ⊆ Finset.range n →
      s.card = min n maxSize → t.card = min n maxSize → ways maxSize n s = ways maxSize n t) := by
  refine ⟨fun alwaysKeepLast calls => ?_, fun hPos n s t hs ht hCard hCard' => ?_⟩
  · have hKeeps := addItems_keeps maxSize alwaysKeepLast calls
    have hLength := hKeeps.length
    refine ⟨hKeeps.sublist, fun hZero => ?_, fun hPos => ?_, hKeeps.last⟩
    · rw [if_pos hZero] at hLength
      exact hKeeps.sublist.eq_of_length hLength
    · rw [if_neg hPos.ne'] at hLength
      exact hLength ▸ min_le_right ..
  · rw [ways_eq hPos n hs hCard, ways_eq hPos n ht hCard']

end ReservoirBucket

end TensorFlowOnSpark.Summary
