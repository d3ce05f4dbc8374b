import Mathlib
import TensorFlowOnSpark.Framework.Status

/-!
# Sparse tensors

`IndicesValid` and `Reorder` of `util/sparse/sparse_tensor.h`.
-/

namespace TensorFlowOnSpark.Sparse

open List Function

open Framework (Status Errors.invalidArgument)

abbrev Row (rank : Nat) := Fin rank → Int

structure SparseTensor (α : Type) (entries rank : Nat) where
  ix : Fin entries → Row rank
  vals : Fin entries → α
  shape : Fin rank → Nat
  shape_lt : ∀ d, shape d < 2 ^ 63
  order : List Int
  order_length : order.length = rank

variable {α : Type} {entries rank : Nat}

def toInt (x : Int) : Int := (BitVec.ofInt 32 x).toInt

/-- The first number that is negative as an `int`. -/
@[irreducible] def rowLimit : Nat := 2 ^ 31

def column (d : Int) : Option (Fin rank) :=
  if h : 0 ≤ d ∧ d.toNat < rank then some ⟨d.toNat, h.2⟩ else none

/-- `DimComparator`, which goes through the dimensions in order. -/
def less (x y : Row rank) : List (Fin rank) → Bool
  | [] => false
  | d :: cols => if x d < y d then true else if x d > y d then false else less x y cols

def Inside (shape : Fin rank → Nat) (row : Row rank) : Prop := ∀ d, 0 ≤ row d ∧ row d < shape d

instance (shape : Fin rank → Nat) (row : Row rank) : Decidable (Inside shape row) :=
  inferInstanceAs (Decidable (∀ d, 0 ≤ row d ∧ row d < shape d))

theorem toInt_of_lt {n : Nat} (h : n < rowLimit) : toInt n = n := by
  simp only [rowLimit] at h
  exact (BitVec.toInt_ofInt ..).trans (Int.bmod_eq_of_le (by omega) (by omega))

theorem toInt_rowLimit : toInt rowLimit = -2147483648 := by simp [toInt, rowLimit]

/-- What `std::sort` asks of a comparison. -/
structure StrictWeak {β : Type} (less : β → β → Bool) : Prop where
  asymm : ∀ a b, less a b → less b a = false
  trans : ∀ a b c, less a b = false → less b c = false → less a c = false

/-- `std::sort` on a range of `n` row numbers. -/
structure StdSort (n : Nat) where
  sort : (Fin n → Fin n → Bool) → (Fin n → Fin n) → Fin n → Fin n
  perm : ∀ less v, StrictWeak less → ∃ σ : Equiv.Perm (Fin n), sort less v = v ∘ σ
  sorted : ∀ less v, StrictWeak less → ∀ i j, i < j → less (sort less v j) (sort less v i) = false

/-- Sorting by how many elements come before each one. -/
def countingSort (n : Nat) : StdSort n where
  sort less v := v ∘ Tuple.sort fun i =>
    (Finset.univ.filter fun j => less (v j) (v i)).card
  perm _ _ _ := ⟨_, rfl⟩
  sorted less v h i j hLt := by
    set before := fun i => Finset.univ.filter fun j => less (v j) (v i)
    set σ := Tuple.sort fun i => (before i).card
    have hLe : (before (σ i)).card ≤ (before (σ j)).card :=
      Tuple.monotone_sort (fun i => (before i).card) hLt.le
    refine Bool.eq_false_iff.mpr fun hLess => hLe.not_gt (Finset.card_lt_card ?_)
    refine ⟨fun k hk => ?_, fun hSub => ?_⟩
    · simp only [before, Finset.mem_filter, Finset.mem_univ, true_and] at hk ⊢
      by_contra hNot
      have hFalse := h.trans _ _ _ (Bool.eq_false_iff.mpr hNot) (h.asymm _ _ hLess)
      exact Bool.eq_false_iff.mp hFalse hk
    · have hSelf : σ j ∈ before (σ i) := by simpa [before] using hLess
      have hFalse := h.asymm _ _ (Finset.mem_filter.mp (hSub hSelf)).2
      exact Bool.eq_false_iff.mp hFalse (Finset.mem_filter.mp (hSub hSelf)).2

structure Swapping (α : Type) (entries rank : Nat) where
  permutation : Fin entries → Fin entries
  ix : Fin entries → Row rank
  vals : Fin entries → α

def Swapping.swap (s : Swapping α entries rank) (n r : Fin entries) : Swapping α entries rank where
  permutation := s.permutation ∘ Equiv.swap n r
  ix := s.ix ∘ Equiv.swap n r
  vals := s.vals ∘ Equiv.swap n r

def settle (n : Fin entries) : Nat → Swapping α entries rank → Option (Swapping α entries rank)
  | 0, _ => none
  | fuel + 1, s =>
    if s.permutation n = n then some s else settle n fuel (s.swap n (s.permutation n))

def swapLoop (fuel : Nat) :
    List (Fin entries) → Swapping α entries rank → Option (Swapping α entries rank)
  | [], s => some s
  | n :: rest, s =>
    match settle n fuel s with
    | none => none
    | some s' => swapLoop fuel rest s'

def inverse (reorder : Fin entries → Fin entries) : Fin entries → Fin entries :=
  (finRange entries).foldl (fun permutation n => update permutation (reorder n) n)
    fun i => ⟨0, i.pos⟩

def reorder (std : StdSort entries) (fuel : Nat) (t : SparseTensor α entries rank)
    (order : List Int) : Option (SparseTensor α entries rank) :=
  if h : order.length = rank then
    -- "Must order using at least one index"
    if order.length = 0 then none
    else
      match order.mapM column with
      | none => none
      | some cols =>
        let sorted := std.sort (fun i j => less (t.ix i) (t.ix j) cols) id
        match swapLoop fuel (finRange entries).dropLast ⟨inverse sorted, t.ix, t.vals⟩ with
        | none => none
        | some s => some { t with ix := s.ix, vals := s.vals, order, order_length := h }
  else none

namespace SparseTensor

variable (t : SparseTensor α entries rank)

def row (i : Int) : Option (Row rank) :=
  if h : 0 ≤ i ∧ i.toNat < entries then some (t.ix ⟨i.toNat, h.2⟩) else none

/-- What the loop over the dimensions does to `different` and `increasing`. -/
def compareStep (row prev : Row rank) (flags : Bool × Bool) (d : Fin rank) : Bool × Bool :=
  let diff := (row d - prev d).bmod (2 ^ 64)
  let different := flags.1 || decide (0 < diff)
  (different, flags.2 && (different || decide (0 ≤ diff)))

def shapeString : String :=
  "[" ++ ",".intercalate ((ofFn t.shape).map fun size => s!"{size}") ++ "]"

def indexString (i : Int) (row : Row rank) : String :=
  s!"indices[{i}] = [" ++ String.join ((finRange rank).map fun d =>
    s!"{row d}" ++ if d.val + 1 < rank then "," else "]")

def report (i : Int) (row : Row rank) (different increasing : Bool) : Status :=
  if ¬Inside t.shape row then
    Errors.invalidArgument
      (indexString i row ++ s!" is out of bounds: need 0 <= index < {t.shapeString}")
  else if increasing = false then Errors.invalidArgument (indexString i row ++ " is out of order")
  else if different = false then Errors.invalidArgument (indexString i row ++ " is repeated")
  else .ok

def indexValid (n : Nat) : Option Status :=
  let i := toInt n
  match t.row i with
  | none => none
  | some row =>
    if i = 0 then some (t.report i row true true)
    else
      match t.row (i - 1), t.order.mapM column with
      | some prev, some cols =>
        let flags := cols.foldl (compareStep row prev) (false, true)
        some (t.report i row flags.1 flags.2)
      | _, _ => none

def indicesLoop : Nat → Nat → Option Status
  | 0, _ => some .ok
  | count + 1, n =>
    match t.indexValid n with
    | some .ok => indicesLoop count (n + 1)
    | result => result

def indicesValid : Option Status :=
  if t.order.any (· < 0) then
    some (.error .failedPrecondition ("Order was not provided.  Provide an order at " ++
      "construction time or run ReorderInPlace"))
  else t.indicesLoop entries 0

end SparseTensor

def key (cols : List (Fin rank)) (row : Row rank) : List Int := cols.map row

theorem less_iff (cols : List (Fin rank)) (x y : Row rank) :
    less x y cols ↔ key cols x < key cols y := by
  induction cols with
  | nil => simp [less, key]
  | cons d cols ih =>
    rw [key, key, map_cons, map_cons, cons_lt_cons_iff, less]
    split_ifs with hLess hMore
    · exact iff_of_true rfl (.inl hLess)
    · exact iff_of_false nofun fun h => h.elim hLess fun h => hMore.ne' h.1
    · have hEq : x d = y d := le_antisymm (not_lt.mp hMore) (not_lt.mp hLess)
      exact ih.trans ⟨fun h => .inr ⟨hEq, h⟩, fun h => h.elim (absurd · hLess) (·.2)⟩

theorem less_eq_false_iff (cols : List (Fin rank)) (x y : Row rank) :
    less x y cols = false ↔ key cols y ≤ key cols x := by
  rw [← not_lt, ← less_iff, Bool.not_eq_true]

theorem strictWeak_less (cols : List (Fin rank)) (ix : Fin entries → Row rank) :
    StrictWeak fun i j => less (ix i) (ix j) cols where
  asymm _ _ h := (less_eq_false_iff ..).mpr ((less_iff ..).mp h).le
  trans _ _ _ h h' :=
    (less_eq_false_iff ..).mpr (((less_eq_false_iff ..).mp h').trans ((less_eq_false_iff ..).mp h))

def permOrder (π : Equiv.Perm (Fin rank)) : List Int :=
    (ofFn π).map fun d : Fin rank => (d.val : Int)

@[simp] theorem length_permOrder (π : Equiv.Perm (Fin rank)) : (permOrder π).length = rank := by
  simp [permOrder]

theorem mapM_column (cols : List (Fin rank)) :
    (cols.map fun d : Fin rank => (d.val : Int)).mapM column = some cols := by
  induction cols with
  | nil => rfl
  | cons d cols ih => simp [column, ih]

theorem mapM_permOrder (π : Equiv.Perm (Fin rank)) :
    (permOrder π).mapM column = some (ofFn π) := mapM_column _

theorem key_injective (π : Equiv.Perm (Fin rank)) : Injective (key (ofFn π)) := by
  intro x y h
  rw [key, key, map_ofFn, map_ofFn, ofFn_inj] at h
  funext d
  have hApply := congrFun h (π.symm d)
  rwa [comp_apply, comp_apply, π.apply_symm_apply] at hApply

namespace Swapping

variable {s : Swapping α entries rank}

def entry (s : Swapping α entries rank) (i : Fin entries) : Row rank × α := (s.ix i, s.vals i)

/-- Each row is the one of `source` that its number in the permutation names. -/
structure Inv (source : Fin entries → Row rank × α) (s : Swapping α entries rank) : Prop where
  injective : Injective s.permutation
  entry_eq : ∀ i, s.entry i = source (s.permutation i)

variable {source : Fin entries → Row rank × α}

theorem Inv.swap (h : Inv source s) (n r : Fin entries) : Inv source (s.swap n r) where
  injective := h.injective.comp (Equiv.swap n r).injective
  entry_eq i := h.entry_eq (Equiv.swap n r i)

def unsettled (s : Swapping α entries rank) : Finset (Fin entries) :=
  Finset.univ.filter fun i => s.permutation i ≠ i

theorem permutation_swap (s : Swapping α entries rank) (n r i : Fin entries) :
    (s.swap n r).permutation i = s.permutation (Equiv.swap n r i) := rfl

theorem fixed_swap (hInjective : Injective s.permutation) {n i : Fin entries}
    (hn : s.permutation n ≠ n) (hi : s.permutation i = i) :
    (s.swap n (s.permutation n)).permutation i = i := by
  have hFirst : i ≠ n := by
    rintro rfl
    exact hn hi
  have hSecond : i ≠ s.permutation n := fun hEq => hFirst (hInjective (hi.trans hEq))
  rw [permutation_swap, Equiv.swap_apply_of_ne_of_ne hFirst hSecond, hi]

theorem unsettled_swap (hInjective : Injective s.permutation) {n : Fin entries}
    (hn : s.permutation n ≠ n) :
    (s.swap n (s.permutation n)).unsettled.card < s.unsettled.card := by
  refine Finset.card_lt_card ⟨fun i hi => ?_, fun hSub => ?_⟩
  · simp only [unsettled, Finset.mem_filter, Finset.mem_univ, true_and] at hi ⊢
    exact fun hFixed => hi (fixed_swap hInjective hn hFixed)
  · have hBefore : s.permutation n ∈ s.unsettled := by
      simp only [unsettled, Finset.mem_filter, Finset.mem_univ, true_and]
      exact fun hFixed => hn (hInjective hFixed)
    have hAfter := hSub hBefore
    rw [unsettled, Finset.mem_filter, permutation_swap, Equiv.swap_apply_right] at hAfter
    exact hAfter.2 rfl

theorem settle_spec (n : Fin entries) (fuel : Nat) (h : Inv source s)
    (hFuel : s.unsettled.card < fuel) :
    ∃ s', settle n fuel s = some s' ∧ Inv source s' ∧ s'.permutation n = n ∧
      s'.unsettled.card ≤ s.unsettled.card ∧
        ∀ i, s.permutation i = i → s'.permutation i = i := by
  induction fuel generalizing s with
  | zero => exact absurd hFuel (Nat.not_lt_zero _)
  | succ fuel ih =>
    rw [settle]
    split_ifs with hn
    · exact ⟨s, rfl, h, hn, le_rfl, fun _ => id⟩
    · have hLess := unsettled_swap h.injective hn
      obtain ⟨s', hSettle, hInv, hFixed, hCard, hKept⟩ := ih (h.swap n (s.permutation n)) (by omega)
      exact ⟨s', hSettle, hInv, hFixed, by omega,
        fun i hi => hKept i (fixed_swap h.injective hn hi)⟩

theorem swapLoop_spec (fuel : Nat) (ns : List (Fin entries)) (h : Inv source s)
    (hFuel : s.unsettled.card < fuel) :
    ∃ s', swapLoop fuel ns s = some s' ∧ Inv source s' ∧
      (∀ n ∈ ns, s'.permutation n = n) ∧ ∀ i, s.permutation i = i → s'.permutation i = i := by
  induction ns generalizing s with
  | nil => exact ⟨s, rfl, h, nofun, fun _ => id⟩
  | cons n ns ih =>
    obtain ⟨s₁, hSettle, hInv, hFixed, hCard, hKept⟩ := settle_spec n fuel h hFuel
    obtain ⟨s₂, hLoop, hInv', hSettled, hKept'⟩ := ih hInv (hCard.trans_lt hFuel)
    refine ⟨s₂, by rw [swapLoop, hSettle]; exact hLoop, hInv', ?_,
      fun i hi => hKept' i (hKept i hi)⟩
    exact forall_mem_cons.mpr ⟨hKept' n hFixed, hSettled⟩

theorem fixed_of_dropLast {p : Fin entries → Fin entries} (hInjective : Injective p)
    (h : ∀ n ∈ (finRange entries).dropLast, p n = n) (i : Fin entries) : p i = i := by
  obtain _ | entries := entries
  · exact i.elim0
  · have hInit (j : Fin entries) : p j.castSucc = j.castSucc :=
      h _ (by rw [finRange_succ_last]; simp)
    induction i using Fin.lastCases with
    | cast j => exact hInit j
    | last =>
      induction hLast : p (Fin.last entries) using Fin.lastCases with
      | cast j =>
        exact absurd (hInjective (hLast.trans (hInit j).symm)) (Fin.castSucc_lt_last j).ne'
      | last => rfl

end Swapping

theorem foldl_update (σ : Equiv.Perm (Fin entries)) (ns : List (Fin entries))
    (p : Fin entries → Fin entries) (n : Fin entries) (h : n ∈ ns ∨ p (σ n) = n) :
    ns.foldl (fun permutation m => update permutation (σ m) m) p (σ n) = n := by
  induction ns generalizing p with
  | nil => exact h.resolve_left nofun
  | cons m ns ih =>
    refine ih _ ?_
    obtain rfl | hNe := eq_or_ne n m
    · exact .inr (update_self ..)
    · have hKept : update p (σ m) m (σ n) = p (σ n) :=
        update_of_ne (fun hEq => hNe (σ.injective hEq)) _ _
      exact h.imp (fun hMem => (mem_cons.mp hMem).resolve_left hNe) hKept.trans

theorem inverse_perm (σ : Equiv.Perm (Fin entries)) : inverse σ = σ.symm := by
  funext i
  have h := foldl_update σ (finRange entries) (fun i => ⟨0, i.pos⟩) (σ.symm i)
    (.inl (mem_finRange _))
  rwa [σ.apply_symm_apply] at h

def SparseTensor.entry (t : SparseTensor α entries rank) (i : Fin entries) : Row rank × α :=
  (t.ix i, t.vals i)

structure Sorted (π : Equiv.Perm (Fin rank)) (t t' : SparseTensor α entries rank) : Prop where
  entries_perm : (ofFn t'.entry).Perm (ofFn t.entry)
  monotone : Monotone (key (ofFn π) ∘ t'.ix)
  shape_eq : t'.shape = t.shape
  order_eq : t'.order = permOrder π

theorem reorder_spec (std : StdSort entries) (t : SparseTensor α entries rank)
    (π : Equiv.Perm (Fin rank)) (hRank : rank ≠ 0) :
    ∃ t', (∀ fuel, entries < fuel → reorder std fuel t (permOrder π) = some t') ∧
      Sorted π t t' := by
  have hWeak := strictWeak_less (ofFn π) t.ix
  obtain ⟨σ, hσ⟩ := std.perm _ id hWeak
  have hSorted := std.sorted _ id hWeak
  rw [hσ] at hSorted
  refine ⟨{ t with
    ix := t.ix ∘ σ, vals := t.vals ∘ σ, order := permOrder π, order_length := length_permOrder π },
    fun fuel hFuel => ?_, σ.ofFn_comp_perm t.entry, ?_, rfl, rfl⟩
  · have hStart : Swapping.Inv (t.entry ∘ σ) ⟨inverse σ, t.ix, t.vals⟩ := by
      refine ⟨by rw [inverse_perm]; exact σ.symm.injective, fun i => ?_⟩
      rw [inverse_perm, comp_apply, σ.apply_symm_apply]
      rfl
    obtain ⟨s, hLoop, hInv, hSettled, -⟩ := Swapping.swapLoop_spec fuel
      (finRange entries).dropLast hStart
      ((Finset.card_le_univ _).trans_lt (by rwa [Fintype.card_fin]))
    have hEntry (i : Fin entries) : s.entry i = t.entry (σ i) := by
      rw [hInv.entry_eq, Swapping.fixed_of_dropLast hInv.injective hSettled]
      rfl
    have hIx : s.ix = t.ix ∘ σ := funext fun i => congrArg Prod.fst (hEntry i)
    have hVals : s.vals = t.vals ∘ σ := funext fun i => congrArg Prod.snd (hEntry i)
    rw [reorder, dif_pos (length_permOrder π), length_permOrder, if_neg hRank, mapM_permOrder]
    simp only [hσ, id_comp, hLoop, hIx, hVals]
  · intro i j hLe
    obtain rfl | hLt := hLe.eq_or_lt
    · exact le_rfl
    · exact (less_eq_false_iff ..).mp (hSorted i j hLt)

def Fine (shape : Fin rank → Nat) (rows : Fin entries → Row rank) (i : Fin entries) : Prop :=
  Inside shape (rows i) ∧ ∀ j < i, rows j ≠ rows i

theorem forall_fine_iff {shape : Fin rank → Nat} {rows : Fin entries → Row rank} :
    (∀ i, Fine shape rows i) ↔ (∀ i, Inside shape (rows i)) ∧ Injective rows := by
  constructor
  · refine fun h => ⟨fun i => (h i).1, fun i j hEq => ?_⟩
    obtain hLt | rfl | hGt := lt_trichotomy i j
    · exact absurd hEq ((h j).2 i hLt)
    · rfl
    · exact absurd hEq.symm ((h i).2 j hGt)
  · exact fun h i => ⟨h.1 i, fun j hLt hEq => hLt.ne (h.2 hEq)⟩

namespace SparseTensor

theorem compareStep_stop (row prev : Row rank) (cols : List (Fin rank)) (different : Bool) :
    (cols.foldl (compareStep row prev) (different, false)).2 = false := by
  induction cols generalizing different with
  | nil => rfl
  | cons d cols ih => exact ih _

theorem compareStep_more (row prev : Row rank) (cols : List (Fin rank)) :
    cols.foldl (compareStep row prev) (true, true) = (true, true) := by
  induction cols with
  | nil => rfl
  | cons d cols ih =>
    exact ih

theorem compare_iff {row prev : Row rank} (h : ∀ d, (row d - prev d).bmod (2 ^ 64) = row d - prev d)
    (cols : List (Fin rank)) :
    cols.foldl (compareStep row prev) (false, true) = (true, true) ↔ less prev row cols := by
  induction cols with
  | nil => simp [less]
  | cons d cols ih =>
    rw [foldl_cons, compareStep, h d, less]
    obtain hLt | hEq | hGt := lt_trichotomy (prev d) (row d)
    · simp [hLt, compareStep_more]
    · simp [hEq, ih]
    · have hStop := compareStep_stop row prev cols false
      simp only [hGt, not_lt.mpr hGt.le, sub_pos, sub_nonneg, not_le.mpr hGt]
      exact iff_of_false (fun hAll => nomatch (congrArg Prod.snd hAll).symm.trans hStop) nofun

theorem report_ok_iff (t : SparseTensor α entries rank) (i : Int) (row : Row rank)
    (different increasing : Bool) :
    t.report i row different increasing = .ok ↔
      Inside t.shape row ∧ (different, increasing) = (true, true) := by
  rw [report]
  cases different <;> cases increasing <;> split_ifs <;> simp_all [Framework.Errors.invalidArgument]

theorem row_eq (t : SparseTensor α entries rank) {n : Nat} (h : n < entries) :
    t.row n = some (t.ix ⟨n, h⟩) := by
  rw [row, dif_pos ⟨Int.natCast_nonneg n, by omega⟩]
  rfl

variable {t : SparseTensor α entries rank} {π : Equiv.Perm (Fin rank)}

theorem diff_eq {row prev : Row rank} (hRow : Inside t.shape row) (hPrev : Inside t.shape prev)
    (d : Fin rank) : (row d - prev d).bmod (2 ^ 64) = row d - prev d := by
  have hSize := t.shape_lt d
  have hFirst := hRow d
  have hSecond := hPrev d
  refine Int.bmod_eq_of_le ?_ ?_ <;> norm_num <;> omega

section

variable (hOrder : t.order = permOrder π)

include hOrder

theorem indexValid_spec
    (hMonotone : Monotone (key (ofFn π) ∘ t.ix)) (i : Fin entries) (hSmall : i.val < rowLimit)
    (hBefore : ∀ j < i, Inside t.shape (t.ix j)) :
    ∃ status, t.indexValid i = some status ∧ (status = .ok ↔ Fine t.shape t.ix i) := by
  rw [indexValid, toInt_of_lt hSmall]
  simp only [t.row_eq i.isLt]
  split_ifs with hZero
  · refine ⟨_, rfl, (report_ok_iff ..).trans (and_congr_right fun _ => iff_of_true rfl ?_)⟩
    exact fun j hj => absurd (Fin.lt_def.mp hj) (by omega)
  · obtain ⟨n, hn⟩ := Nat.exists_eq_add_one_of_ne_zero (fun h => hZero (by omega) : i.val ≠ 0)
    have hBound : n < entries := by omega
    have hPrevRow : t.row ((i.val : Int) - 1) = some (t.ix ⟨n, hBound⟩) := by
      rw [hn, Nat.cast_add_one, add_sub_cancel_right]
      exact t.row_eq hBound
    have hLt : (⟨n, hBound⟩ : Fin entries) < i :=
      Fin.lt_def.mpr (by rw [hn]; exact Nat.lt_succ_self n)
    simp only [hPrevRow, hOrder, mapM_permOrder]
    refine ⟨_, rfl, (report_ok_iff ..).trans (and_congr_right fun hInside => ?_)⟩
    refine (compare_iff (diff_eq hInside (hBefore _ hLt)) _).trans ((less_iff ..).trans ?_)
    constructor
    · intro hLess j hj hEq
      have hLe : j ≤ ⟨n, hBound⟩ := Nat.le_of_lt_succ ((Fin.lt_def.mp hj).trans_eq hn)
      exact absurd (congrArg (key (ofFn π)) hEq) ((hMonotone hLe).trans_lt hLess).ne
    · intro hApart
      exact lt_of_le_of_ne (hMonotone hLt.le) fun hEq => hApart _ hLt (key_injective π hEq)

theorem indicesLoop_advance
    (hMonotone : Monotone (key (ofFn π) ∘ t.ix)) {k : Nat} (count : Nat) (hSmall : k ≤ rowLimit)
    (hBound : k ≤ entries) (hFine : ∀ i : Fin entries, i.val < k → Fine t.shape t.ix i) :
    t.indicesLoop (k + count) 0 = t.indicesLoop count k := by
  induction k generalizing count with
  | zero => rw [Nat.zero_add]
  | succ k ih =>
    rw [Nat.add_right_comm, Nat.add_assoc, ih (count + 1) (by omega) (by omega)
      fun i hi => hFine i (by omega), indicesLoop]
    obtain ⟨status, hValid, hOk⟩ := indexValid_spec hOrder hMonotone ⟨k, hBound⟩
      (Nat.lt_of_succ_le hSmall) fun j hj => (hFine j (Nat.lt_succ_of_lt (Fin.lt_def.mp hj))).1
    rw [hValid, hOk.mpr (hFine _ (Nat.lt_succ_self k))]

theorem indicesLoop_spec
    (hMonotone : Monotone (key (ofFn π) ∘ t.ix)) :
    (∃ status, t.indicesLoop entries 0 = some status ∧
      (status = .ok ↔ ∀ i, Fine t.shape t.ix i)) ↔
      entries ≤ rowLimit ∨ ∃ i : Fin entries, i.val < rowLimit ∧ ¬Fine t.shape t.ix i := by
  obtain hBad | hFine := Classical.em (∃ i : Fin entries, i.val < rowLimit ∧ ¬Fine t.shape t.ix i)
  · refine iff_of_true ?_ (.inr hBad)
    classical
    obtain ⟨i, ⟨hSmall, hNot⟩, hFirst⟩ := WellFounded.has_min (wellFounded_lt (α := Fin entries))
      {i | i.val < rowLimit ∧ ¬Fine t.shape t.ix i} hBad
    have hBefore (j : Fin entries) (hj : j < i) : Fine t.shape t.ix j :=
      not_not.mp fun hNot => hFirst j ⟨(Fin.lt_def.mp hj).trans hSmall, hNot⟩ hj
    obtain ⟨status, hValid, hOk⟩ := indexValid_spec hOrder hMonotone i hSmall
      fun j hj => (hBefore j hj).1
    have hAdvance := indicesLoop_advance hOrder hMonotone (entries - i.val - 1 + 1) hSmall.le
      i.isLt.le fun j hj => hBefore j hj
    rw [show i.val + (entries - i.val - 1 + 1) = entries by omega, indicesLoop, hValid] at hAdvance
    have hStatus : status ≠ .ok := fun hEq => hNot (hOk.mp hEq)
    refine ⟨status, hAdvance.trans ?_, iff_of_false hStatus fun hAll => hNot (hAll i)⟩
    cases status with
    | ok => exact absurd rfl hStatus
    | error code message => rfl
  · rw [not_exists] at hFine
    have hFine (i : Fin entries) (hi : i.val < rowLimit) : Fine t.shape t.ix i :=
      not_not.mp fun hNot => hFine i ⟨hi, hNot⟩
    obtain hFew | hMany := Nat.lt_or_ge (rowLimit) entries
    · refine iff_of_false ?_ fun h => h.elim (Nat.not_le.mpr hFew) fun ⟨i, hi, hNot⟩ =>
        hNot (hFine i hi)
      rintro ⟨status, hLoop, -⟩
      have hAdvance := indicesLoop_advance hOrder hMonotone (entries - rowLimit - 1 + 1) le_rfl
        hFew.le hFine
      rw [show rowLimit + (entries - rowLimit - 1 + 1) = entries by omega, indicesLoop] at hAdvance
      have hOutside : t.indexValid (rowLimit) = none := by
        rw [indexValid, toInt_rowLimit, row, dif_neg (by omega)]
      rw [hOutside, hLoop] at hAdvance
      cases hAdvance
    · refine iff_of_true ⟨.ok, ?_, iff_of_true rfl fun i => hFine i (by omega)⟩ (.inl hMany)
      have hAdvance := indicesLoop_advance hOrder hMonotone 0 hMany le_rfl
        fun i hi => hFine i (by omega)
      exact hAdvance

end

end SparseTensor

def sortedRows (t : SparseTensor α entries rank) (π : Equiv.Perm (Fin rank)) :
    Fin entries → Row rank := t.ix ∘ Tuple.sort (key (ofFn π) ∘ t.ix)

variable {t t' : SparseTensor α entries rank} {π : Equiv.Perm (Fin rank)}

theorem Sorted.ix_eq
    (h : Sorted π t t') : t'.ix = sortedRows t π := by
  have hRows : (ofFn t'.ix).Perm (ofFn t.ix) := by
    have hMap := h.entries_perm.map Prod.fst
    rwa [map_ofFn, map_ofFn] at hMap
  have hSame : (ofFn t'.ix).Perm (ofFn (sortedRows t π)) :=
    hRows.trans ((Tuple.sort _).ofFn_comp_perm t.ix).symm
  have hKeys := hSame.map (key (ofFn π))
  rw [map_ofFn, map_ofFn] at hKeys
  have hEq := ofFn_injective (hKeys.eq_of_pairwise' h.monotone.sortedLE_ofFn.pairwise
    (Tuple.monotone_sort (key (ofFn π) ∘ t.ix)).sortedLE_ofFn.pairwise)
  exact funext fun i => key_injective π (congrFun hEq i)

theorem Sorted.indicesValid_eq
    (h : Sorted π t t') : t'.indicesValid = t'.indicesLoop entries 0 := by
  rw [SparseTensor.indicesValid, h.order_eq, if_neg]
  simp [permOrder]

/-- `Reorder` returns with the rows sorted, and `IndicesValid` then tells whether all of them are
inside the shape and different. -/
def Reorders (std : StdSort entries) (t : SparseTensor α entries rank)
    (π : Equiv.Perm (Fin rank)) : Prop :=
  ∃ t', (∃ least, ∀ fuel, least ≤ fuel → reorder std fuel t (permOrder π) = some t') ∧
    Sorted π t t' ∧ ∃ status, t'.indicesValid = some status ∧
      (status = .ok ↔ (∀ i, Inside t.shape (t'.ix i)) ∧ Injective t'.ix)

theorem reorders_iff (std : StdSort entries) (t : SparseTensor α entries rank)
    (π : Equiv.Perm (Fin rank)) :
    Reorders std t π ↔ rank ≠ 0 ∧ (entries ≤ rowLimit ∨
      ∃ i : Fin entries, i.val < rowLimit ∧ ¬Fine t.shape (sortedRows t π) i) := by
  obtain hRank | hRank := eq_or_ne rank 0
  · refine iff_of_false ?_ fun h => h.1 hRank
    rintro ⟨t', ⟨least, hReturns⟩, -⟩
    have hNone := hReturns least le_rfl
    rw [reorder, dif_pos (length_permOrder π), length_permOrder, if_pos hRank] at hNone
    cases hNone
  · rw [and_iff_right hRank]
    obtain ⟨t', hReturns, hSorted⟩ := reorder_spec std t π hRank
    have hLoop := t'.indicesLoop_spec hSorted.order_eq hSorted.monotone
    rw [hSorted.ix_eq, hSorted.shape_eq] at hLoop
    rw [← hLoop]
    constructor
    · rintro ⟨t'', ⟨least, hReturns'⟩, -, status, hValid, hOk⟩
      have hSame := (hReturns (least + entries + 1) (by omega)).symm.trans
        (hReturns' _ (by omega))
      cases hSame
      rw [hSorted.indicesValid_eq] at hValid
      rw [hSorted.ix_eq, ← forall_fine_iff] at hOk
      exact ⟨status, hValid, hOk⟩
    · rintro ⟨status, hValid, hOk⟩
      refine ⟨t', ⟨entries + 1, fun fuel hFuel => hReturns fuel hFuel⟩, hSorted, status, ?_, ?_⟩
      · rw [hSorted.indicesValid_eq, hValid]
      · rw [hSorted.ix_eq, ← forall_fine_iff, hOk]

def scalar : SparseTensor Unit 1 0 := ⟨fun _ => nofun, fun _ => (), nofun, nofun, [], rfl⟩

theorem scalar_not_reorders : ¬Reorders (countingSort 1) scalar (Equiv.refl _) := by
  rintro ⟨t', ⟨least, hReturns⟩, -⟩
  exact nomatch (hReturns least le_rfl : (none : Option (SparseTensor Unit 1 0)) = some t')

end TensorFlowOnSpark.Sparse
