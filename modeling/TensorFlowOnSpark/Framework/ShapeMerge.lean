import TensorFlowOnSpark.Framework.ShapeInference

/-!
# Merging partial shapes

`Merge` and `MergePrefix` of `InferenceContext` on handles, and `MergeWith` of
`PartialTensorShape`.
-/

namespace TensorFlowOnSpark.Framework

open List Shape

structure InferenceContext where
  allDims : List Dim
  allShapes : List (Option (List Nat))

def mergeDims {α ε : Type} (merge : α → α → Except ε α) : List α → List α → Except ε (List α)
  | d0 :: dims0, d1 :: dims1 => do
    let d ← merge d0 d1
    let dims ← mergeDims merge dims0 dims1
    .ok (d :: dims)
  | _, _ => .ok []

namespace InferenceContext

variable (c : InferenceContext)

def value (d : Nat) : Dim := c.allDims.getD d none

def dims (s : Nat) : Option (List Nat) := c.allShapes.getD s none

def shapeOf (s : Nat) : Shape := (c.dims s).map (List.map c.value)

def makeShape (dims : List Nat) : InferenceContext × Nat :=
  ({ c with allShapes := c.allShapes ++ [some dims] }, c.allShapes.length)

/-- `Merge` of two dimensions. -/
def mergeDim (d0 d1 : Nat) : Except Status Nat :=
  if d0 = d1 then .ok d0
  else
    match c.value d0, c.value d1 with
    | _, none => .ok d0
    | none, some _ => .ok d1
    | some v0, some v1 =>
      if v0 = v1 then .ok d0
      else .error (Errors.invalidArgument s!"Dimensions must be equal, but are {v0} and {v1}")

def mergePairs (dims0 dims1 : List Nat) : Except Status (List Nat) :=
  mergeDims c.mergeDim dims0 dims1

/-- The first loop of `Merge`, with `return_s0` and `return_s1`. -/
def mergeLoop : Nat → List Nat → List Nat → Bool → Bool → Except Status (Bool × Bool)
  | i, d0 :: dims0, d1 :: dims1, returnS0, returnS1 =>
    if d0 = d1 then mergeLoop (i + 1) dims0 dims1 returnS0 returnS1
    else
      match c.value d0, c.value d1 with
      | none, none => mergeLoop (i + 1) dims0 dims1 returnS0 returnS1
      | none, some _ => mergeLoop (i + 1) dims0 dims1 false returnS1
      | some _, none => mergeLoop (i + 1) dims0 dims1 returnS0 false
      | some v0, some v1 =>
        if v0 = v1 then mergeLoop (i + 1) dims0 dims1 returnS0 returnS1
        else .error (Errors.invalidArgument
          s!"Dimension {i} in both shapes must be equal, but are {v0} and {v1}")
  | _, _, _, returnS0, returnS1 => .ok (returnS0, returnS1)

/-- `Merge` of two shapes; `none` is a failed `TF_CHECK_OK`. -/
def merge (s0 s1 : Nat) : Option (Except Status (InferenceContext × Nat)) :=
  if s0 = s1 then some (.ok (c, s0))
  else
    match c.dims s0, c.dims s1 with
    | _, none => some (.ok (c, s0))
    | none, some _ => some (.ok (c, s1))
    | some dims0, some dims1 =>
      if dims0.length ≠ dims1.length then
        some (.error (Errors.invalidArgument
          s!"Shapes must be equal rank, but are {dims0.length} and {dims1.length}"))
      else
        match c.mergeLoop 0 dims0 dims1 true true with
        | .error status => some (.error status)
        | .ok (returnS0, returnS1) =>
          if returnS0 || returnS1 then some (.ok (c, if returnS0 then s0 else s1))
          else
            -- The first loop has checked what `Merge` of the dimensions checks.
            match c.mergePairs dims0 dims1 with
            | .error _ => none
            | .ok dims => some (.ok (c.makeShape dims))

def mergePrefix (s pre : Nat) : Except Status (InferenceContext × Nat × Nat) :=
  match c.dims s, c.dims pre with
  | some dims, some preDims =>
    if dims.length < preDims.length then
      .error (Errors.invalidArgument
        s!"Shape must be at least rank {preDims.length} but is rank {dims.length}")
    else do
      let merged ← c.mergePairs (dims.take preDims.length) preDims
      let (c', preOut) := c.makeShape merged
      let (c', sOut) := c'.makeShape (merged ++ dims.drop preDims.length)
      .ok (c', sOut, preOut)
  | _, _ => .ok (c, s, pre)

end InferenceContext

def Shape.Meet (m s t : Shape) : Prop :=
  ∀ sizes, m.Completes sizes ↔ s.Completes sizes ∧ t.Completes sizes

namespace Shape

theorem completes_getD (d : Dim) : Dim.Completes (d.getD 0) d := by
  cases d with
  | none => exact .none 0
  | some n => exact Dim.Completes.some_iff.mpr rfl

theorem completes_dims (dims : List Dim) :
    List.Forall₂ Dim.Completes (dims.map fun d => d.getD 0) dims := by
  induction dims with
  | nil => exact .nil
  | cons d dims ih => exact .cons (completes_getD d) ih

theorem exists_completes (s : Shape) : ∃ sizes, s.Completes sizes := by
  cases s with
  | none => exact ⟨[], trivial⟩
  | some dims => exact ⟨_, completes_dims dims⟩

theorem dim_ext {d d' : Dim} (h : ∀ n, Dim.Completes n d ↔ Dim.Completes n d') : d = d' := by
  cases d with
  | none =>
    cases d' with
    | none => rfl
    | some m =>
      have hNext := Dim.Completes.some_iff.mp ((h (m + 1)).mp (.none _))
      omega
  | some n =>
    have hEq := (h n).mp (Dim.Completes.some_iff.mpr rfl)
    cases d' with
    | none =>
      have hNext := Dim.Completes.some_iff.mp ((h (n + 1)).mpr (.none _))
      omega
    | some m => rw [Dim.Completes.some_iff.mp hEq]

theorem dims_ext {dims dims' : List Dim}
    (h : ∀ sizes, List.Forall₂ Dim.Completes sizes dims ↔ List.Forall₂ Dim.Completes sizes dims') :
    dims = dims' := by
  induction dims generalizing dims' with
  | nil =>
    cases (h []).mp .nil
    rfl
  | cons d dims ih =>
    have hSelf := (h _).mp (completes_dims (d :: dims))
    cases hSelf with
    | @cons _ d' _ dims' hHead hTail =>
      have hDim : d = d' := dim_ext fun n => by
        have hIff := h (n :: dims.map fun d => d.getD 0)
        rw [forall₂_cons, forall₂_cons, and_iff_left (completes_dims dims),
          and_iff_left hTail] at hIff
        exact hIff
      have hDims : dims = dims' := ih fun sizes => by
        have hIff := h (d.getD 0 :: sizes)
        rw [forall₂_cons, forall₂_cons, and_iff_right (completes_getD d),
          and_iff_right hHead] at hIff
        exact hIff
      rw [hDim, hDims]

theorem ext_completes {s t : Shape} (h : ∀ sizes, s.Completes sizes ↔ t.Completes sizes) :
    s = t := by
  cases s with
  | none =>
    cases t with
    | none => rfl
    | some dims =>
      have hNil := ((h []).mp trivial).length_eq
      have hOne := ((h [0]).mp trivial).length_eq
      exact absurd (hNil.trans hOne.symm) (by decide)
  | some dims =>
    cases t with
    | none =>
      have hNil := ((h []).mpr trivial).length_eq
      have hOne := ((h [0]).mpr trivial).length_eq
      exact absurd (hNil.trans hOne.symm) (by decide)
    | some dims' => rw [dims_ext h]

theorem Meet.unique {m m' s t : Shape} (h : m.Meet s t) (h' : m'.Meet s t) : m = m' :=
  ext_completes fun sizes => (h sizes).trans (h' sizes).symm

theorem Meet.symm {m s t : Shape} (h : m.Meet s t) : m.Meet t s :=
  fun sizes => (h sizes).trans and_comm

theorem meet_self (s : Shape) : s.Meet s s := fun _ => (and_self_iff).symm

def Exact {α : Type} (shape : α → Shape) (s t : Shape) (result : Except Status α) : Prop :=
  ((∃ a, result = .ok a) ↔ ∃ sizes, s.Completes sizes ∧ t.Completes sizes) ∧
    ∀ a, result = .ok a → (shape a).Meet s t

theorem exact_ok {α : Type} {shape : α → Shape} {s t : Shape} {a : α}
    (h : (shape a).Meet s t) : Exact shape s t (.ok a) := by
  refine ⟨iff_of_true ⟨a, rfl⟩ ?_, by rintro _ ⟨⟩; exact h⟩
  obtain ⟨sizes, hSizes⟩ := (shape a).exists_completes
  exact ⟨sizes, (h sizes).mp hSizes⟩

theorem exact_error {α : Type} {shape : α → Shape} {s t : Shape} {status : Status}
    (h : ∀ sizes, ¬(s.Completes sizes ∧ t.Completes sizes)) : Exact shape s t (.error status) :=
  ⟨iff_of_false nofun fun hSome => hSome.elim h, nofun⟩

end Shape

def Fill {α : Type} (value : α → Dim) (sizes : List Nat) (dims : List α) : Prop :=
  List.Forall₂ Dim.Completes sizes (dims.map value)

section MergeDims

variable {α ε : Type} {value : α → Dim} {merge : α → α → Except ε α}

@[simp] theorem fill_cons (n : Nat) (d : α) (sizes : List Nat) (dims : List α) :
    Fill value (n :: sizes) (d :: dims) ↔ Dim.Completes n (value d) ∧ Fill value sizes dims := by
  rw [Fill, map_cons, forall₂_cons]
  rfl

variable {sizes : List Nat} {dims dims0 dims1 : List α}

theorem Fill.cases {d : α} (h : Fill value sizes (d :: dims)) : ∃ n rest, sizes = n :: rest := by
  cases h with
  | cons => exact ⟨_, _, rfl⟩

theorem Fill.length_eq (h : Fill value sizes dims) : sizes.length = dims.length :=
  (List.Forall₂.length_eq h).trans (length_map value)

theorem exists_fill (value : α → Dim) (dims : List α) : ∃ sizes, Fill value sizes dims :=
  ⟨_, completes_dims _⟩

theorem fill_append :
    Fill value sizes (dims0 ++ dims1) ↔
      Fill value (sizes.take dims0.length) dims0 ∧ Fill value (sizes.drop dims0.length) dims1 := by
  induction dims0 generalizing sizes with
  | nil => exact (and_iff_right .nil).symm
  | cons d dims0 ih =>
    cases sizes with
    | nil => exact iff_of_false nofun fun h => nomatch h.1
    | cons n sizes =>
      rw [cons_append, length_cons, take_succ_cons, drop_succ_cons,
        fill_cons, fill_cons, ih, and_assoc]

theorem fill_front (dims1 : List α) {n : Nat} (hLength : dims0.length = n) (sizes : List Nat) :
    Fill value sizes dims0 ↔ ∃ full, Fill value full (dims0 ++ dims1) ∧ sizes = full.take n := by
  subst hLength
  constructor
  · intro h
    obtain ⟨rest, hRest⟩ := exists_fill value dims1
    refine ⟨sizes ++ rest, fill_append.mpr ?_, ?_⟩
    · rw [take_left' h.length_eq, drop_left' h.length_eq]
      exact ⟨h, hRest⟩
    · rw [take_left' h.length_eq]
  · rintro ⟨full, hFull, rfl⟩
    exact (fill_append.mp hFull).1

/-- The outcome of a merge for the dimensions `d0` and `d1`. -/
def MergesDim (value : α → Dim) (d0 d1 : α) : Except ε α → Prop
  | .error _ => ∀ n, ¬(Dim.Completes n (value d0) ∧ Dim.Completes n (value d1))
  | .ok d => ∀ n, Dim.Completes n (value d) ↔
      Dim.Completes n (value d0) ∧ Dim.Completes n (value d1)

def MergesDims (value : α → Dim) (dims0 dims1 : List α) : Except ε (List α) → Prop
  | .error _ => ∀ sizes, ¬(Fill value sizes dims0 ∧ Fill value sizes dims1)
  | .ok dims => ∀ sizes, Fill value sizes dims ↔ Fill value sizes dims0 ∧ Fill value sizes dims1

theorem MergesDims.length_eq (h : MergesDims value dims0 dims1 (.ok dims : Except ε (List α))) :
    dims.length = dims1.length := by
  obtain ⟨sizes, hSizes⟩ := exists_fill value dims
  exact hSizes.length_eq.symm.trans ((h sizes).mp hSizes).2.length_eq

theorem mergeDims_spec (hMerge : ∀ d0 d1, MergesDim value d0 d1 (merge d0 d1))
    (hLength : dims0.length = dims1.length) :
    MergesDims value dims0 dims1 (mergeDims merge dims0 dims1) := by
  induction dims0 generalizing dims1 with
  | nil =>
    obtain rfl := eq_nil_of_length_eq_zero hLength.symm
    exact fun _ => and_self_iff.symm
  | cons d0 dims0 ih =>
    obtain ⟨d1, dims1, rfl⟩ := exists_cons_of_length_eq_add_one hLength.symm
    have hHead := hMerge d0 d1
    have hTail := ih (Nat.succ.inj hLength)
    rw [mergeDims]
    cases hDim : merge d0 d1 with
    | error status =>
      rw [hDim] at hHead
      rintro sizes ⟨h0, h1⟩
      obtain ⟨n, rest, rfl⟩ := h0.cases
      exact hHead n ⟨((fill_cons ..).mp h0).1, ((fill_cons ..).mp h1).1⟩
    | ok d =>
      rw [hDim] at hHead
      cases hDims : mergeDims merge dims0 dims1 with
      | error status =>
        rw [hDims] at hTail
        rintro sizes ⟨h0, h1⟩
        obtain ⟨n, rest, rfl⟩ := h0.cases
        exact hTail rest ⟨((fill_cons ..).mp h0).2, ((fill_cons ..).mp h1).2⟩
      | ok dims =>
        rw [hDims] at hTail
        intro sizes
        cases sizes with
        | nil => exact iff_of_false nofun fun h => nomatch h.1
        | cons n rest =>
          rw [fill_cons, fill_cons, fill_cons, hHead, hTail, and_and_and_comm]

theorem mergeDims_ok :
    (∃ dims, mergeDims merge dims0 dims1 = .ok dims) ↔
      ∀ pair ∈ dims0.zip dims1, ∃ d, merge pair.1 pair.2 = .ok d := by
  induction dims0 generalizing dims1 with
  | nil => simp [mergeDims]
  | cons d0 dims0 ih =>
    cases dims1 with
    | nil => simp [mergeDims]
    | cons d1 dims1 =>
      rw [zip_cons_cons, forall_mem_cons, ← ih, mergeDims]
      cases merge d0 d1 with
      | error status => exact iff_of_false nofun fun h => nomatch h.1
      | ok d =>
        cases mergeDims merge dims0 dims1 with
        | error status => exact iff_of_false nofun fun h => nomatch h.2
        | ok dims => exact iff_of_true ⟨_, rfl⟩ ⟨⟨_, rfl⟩, _, rfl⟩

end MergeDims

namespace InferenceContext

variable {c : InferenceContext}

theorem mergeDim_spec (d0 d1 : Nat) : MergesDim c.value d0 d1 (c.mergeDim d0 d1) := by
  rw [mergeDim]
  split_ifs with hSame
  · subst hSame
    exact fun n => and_self_iff.symm
  · cases h0 : c.value d0 with
    | none =>
      cases h1 : c.value d1 with
      | none => simp [MergesDim, h1]
      | some v1 => simp [MergesDim, h0]
    | some v0 =>
      cases h1 : c.value d1 with
      | none => simp [MergesDim, h1]
      | some v1 =>
        obtain rfl | hNe := eq_or_ne v0 v1
        · simp [MergesDim, h0, h1]
        · simp only [if_neg hNe, MergesDim, h0, h1, Dim.Completes.some_iff]
          rintro n ⟨rfl, rfl⟩
          exact hNe rfl

variable {dims0 dims1 dims : List Nat} {s s0 s1 s2 : Nat}

theorem mergePairs_spec (hLength : dims0.length = dims1.length) :
    MergesDims c.value dims0 dims1 (c.mergePairs dims0 dims1) :=
  mergeDims_spec mergeDim_spec hLength

def LoopSpec (c : InferenceContext) (r0 r1 : Bool) (dims0 dims1 : List Nat) :
    Except Status (Bool × Bool) → Prop
  | .error _ => ∀ sizes, ¬(Fill c.value sizes dims0 ∧ Fill c.value sizes dims1)
  | .ok (r0', r1') =>
    (r0' = true → r0 = true ∧ ∀ sizes, Fill c.value sizes dims0 → Fill c.value sizes dims1) ∧
      (r1' = true → r1 = true ∧ ∀ sizes, Fill c.value sizes dims1 → Fill c.value sizes dims0) ∧
        ∃ dims, c.mergePairs dims0 dims1 = .ok dims

theorem LoopSpec.cons {r0 r1 r0' r1' : Bool} {d0 d1 d : Nat}
    {result : Except Status (Bool × Bool)} (h : LoopSpec c r0' r1' dims0 dims1 result)
    (h0 : r0' = true → r0 = true ∧
      ∀ n, Dim.Completes n (c.value d0) → Dim.Completes n (c.value d1))
    (h1 : r1' = true → r1 = true ∧
      ∀ n, Dim.Completes n (c.value d1) → Dim.Completes n (c.value d0))
    (hDim : c.mergeDim d0 d1 = .ok d) :
    LoopSpec c r0 r1 (d0 :: dims0) (d1 :: dims1) result := by
  cases result with
  | error status =>
    rintro sizes ⟨hFill, hFill'⟩
    obtain ⟨n, rest, rfl⟩ := hFill.cases
    exact h rest ⟨((fill_cons ..).mp hFill).2, ((fill_cons ..).mp hFill').2⟩
  | ok flags =>
    obtain ⟨hFlag0, hFlag1, dims, hDims⟩ := h
    refine ⟨fun hTrue => ⟨(h0 (hFlag0 hTrue).1).1, fun sizes hFill => ?_⟩,
      fun hTrue => ⟨(h1 (hFlag1 hTrue).1).1, fun sizes hFill => ?_⟩,
      d :: dims, ?_⟩
    · obtain ⟨n, rest, rfl⟩ := hFill.cases
      rw [fill_cons] at hFill ⊢
      exact ⟨(h0 (hFlag0 hTrue).1).2 n hFill.1, (hFlag0 hTrue).2 rest hFill.2⟩
    · obtain ⟨n, rest, rfl⟩ := hFill.cases
      rw [fill_cons] at hFill ⊢
      exact ⟨(h1 (hFlag1 hTrue).1).2 n hFill.1, (hFlag1 hTrue).2 rest hFill.2⟩
    · rw [mergePairs] at hDims ⊢
      simp only [mergeDims, hDim, hDims]
      rfl

theorem mergeLoop_spec (i : Nat) (hLength : dims0.length = dims1.length)
    (r0 r1 : Bool) : LoopSpec c r0 r1 dims0 dims1 (c.mergeLoop i dims0 dims1 r0 r1) := by
  induction dims0 generalizing dims1 i r0 r1 with
  | nil =>
    obtain rfl := eq_nil_of_length_eq_zero hLength.symm
    exact ⟨fun h => ⟨h, fun _ => id⟩, fun h => ⟨h, fun _ => id⟩, [], rfl⟩
  | cons d0 dims0 ih =>
    obtain ⟨d1, dims1, rfl⟩ := exists_cons_of_length_eq_add_one hLength.symm
    have hTail := fun r0 r1 => ih (i + 1) (Nat.succ.inj hLength) r0 r1
    rw [mergeLoop]
    split_ifs with hSame
    · subst hSame
      exact (hTail r0 r1).cons (fun h => ⟨h, fun _ => id⟩) (fun h => ⟨h, fun _ => id⟩)
        (d := d0) (by rw [mergeDim, if_pos rfl])
    · cases h0 : c.value d0 with
      | none =>
        cases h1 : c.value d1 with
        | none =>
          exact (hTail r0 r1).cons (fun h => ⟨h, by simp [h1]⟩) (fun h => ⟨h, by simp [h0]⟩)
            (d := d0) (by rw [mergeDim, if_neg hSame, h1])
        | some v1 =>
          exact (hTail false r1).cons nofun (fun h => ⟨h, by simp [h0]⟩)
            (d := d1) (by rw [mergeDim, if_neg hSame, h0, h1])
      | some v0 =>
        cases h1 : c.value d1 with
        | none =>
          exact (hTail r0 false).cons (fun h => ⟨h, by simp [h1]⟩) nofun
            (d := d0) (by rw [mergeDim, if_neg hSame, h1])
        | some v1 =>
          simp only
          split_ifs with hEq
          · subst hEq
            exact (hTail r0 r1).cons (fun h => ⟨h, by simp [h0, h1]⟩)
              (fun h => ⟨h, by simp [h0, h1]⟩) (d := d0)
              (by rw [mergeDim, if_neg hSame, h0, h1]; exact if_pos rfl)
          · rintro sizes ⟨hFill, hFill'⟩
            obtain ⟨n, rest, rfl⟩ := hFill.cases
            rw [fill_cons, h0, Dim.Completes.some_iff] at hFill
            rw [fill_cons, h1, Dim.Completes.some_iff] at hFill'
            exact hEq (hFill.1.trans hFill'.1.symm)

theorem shapeOf_some (h : c.dims s = some dims) (sizes : List Nat) :
    (c.shapeOf s).Completes sizes ↔ Fill c.value sizes dims := by
  rw [shapeOf, h]
  rfl

theorem shapeOf_none (h : c.dims s = none) (sizes : List Nat) : (c.shapeOf s).Completes sizes := by
  rw [shapeOf, h]
  trivial

theorem shapeOf_makeShape (dims sizes : List Nat) :
    ((c.makeShape dims).1.shapeOf (c.makeShape dims).2).Completes sizes ↔
      Fill c.value sizes dims := by
  have hDims : (c.makeShape dims).1.dims (c.makeShape dims).2 = some dims := by
    simp [makeShape, InferenceContext.dims]
  exact shapeOf_some hDims sizes

theorem shapeOf_makeShape_of_lt (dims : List Nat) (h : s < c.allShapes.length) :
    (c.makeShape dims).1.shapeOf s = c.shapeOf s := by
  have hDims : (c.makeShape dims).1.dims s = c.dims s := by
    simp only [makeShape, InferenceContext.dims, getD_eq_getElem?_getD, getElem?_append_left h]
  rw [shapeOf, hDims]
  rfl

/-- The outcome of `Merge` for the two shapes. -/
def Merges (c : InferenceContext) (s t : Shape) :
    Option (Except Status (InferenceContext × Nat)) → Prop
  | none => False
  | some (.error _) => ∀ sizes, ¬(s.Completes sizes ∧ t.Completes sizes)
  | some (.ok (c', out)) => (c'.shapeOf out).Meet s t ∧
      ∀ s < c.allShapes.length, c'.shapeOf s = c.shapeOf s

theorem merge_spec (s0 s1 : Nat) : Merges c (c.shapeOf s0) (c.shapeOf s1) (c.merge s0 s1) := by
  rw [merge]
  split_ifs with hSame
  · subst hSame
    exact ⟨meet_self _, fun _ _ => rfl⟩
  · cases h1 : c.dims s1 with
    | none => exact ⟨fun sizes => (and_iff_left (shapeOf_none h1 sizes)).symm, fun _ _ => rfl⟩
    | some dims1 =>
      cases h0 : c.dims s0 with
      | none => exact ⟨fun sizes => (and_iff_right (shapeOf_none h0 sizes)).symm, fun _ _ => rfl⟩
      | some dims0 =>
        simp only
        split_ifs with hLength
        · rintro sizes ⟨hFill, hFill'⟩
          rw [shapeOf_some h0] at hFill
          rw [shapeOf_some h1] at hFill'
          exact hLength (hFill.length_eq.symm.trans hFill'.length_eq)
        · have hLength := not_not.mp hLength
          have hLoop := c.mergeLoop_spec 0 hLength true true
          have hPairs := c.mergePairs_spec hLength
          cases hFlags : c.mergeLoop 0 dims0 dims1 true true with
          | error status =>
            rw [hFlags] at hLoop
            intro sizes
            rw [shapeOf_some h0, shapeOf_some h1]
            exact hLoop sizes
          | ok flags =>
            rw [hFlags] at hLoop
            obtain ⟨hFlag0, hFlag1, dims, hDims⟩ := hLoop
            simp only
            split_ifs with hEither hFirst
            · refine ⟨fun sizes => ?_, fun _ _ => rfl⟩
              rw [shapeOf_some h0, shapeOf_some h1]
              exact (and_iff_left_of_imp ((hFlag0 hFirst).2 sizes)).symm
            · have hSecond : flags.2 = true := by simpa [hFirst] using hEither
              refine ⟨fun sizes => ?_, fun _ _ => rfl⟩
              rw [shapeOf_some h0, shapeOf_some h1]
              exact (and_iff_right_of_imp ((hFlag1 hSecond).2 sizes)).symm
            · rw [hDims] at hPairs ⊢
              refine ⟨fun sizes => ?_, fun s hs => shapeOf_makeShape_of_lt dims hs⟩
              rw [shapeOf_some h0, shapeOf_some h1]
              exact (shapeOf_makeShape dims sizes).trans (hPairs sizes)

def outcome (out : InferenceContext × Nat) : Shape := out.1.shapeOf out.2

theorem merge_exact (s0 s1 : Nat) :
    ∃ result, c.merge s0 s1 = some result ∧
      Shape.Exact outcome (c.shapeOf s0) (c.shapeOf s1) result := by
  have hSpec := c.merge_spec s0 s1
  cases hMerge : c.merge s0 s1 with
  | none =>
    rw [hMerge] at hSpec
    exact hSpec.elim
  | some result =>
    rw [hMerge] at hSpec
    cases result with
    | error status => exact ⟨_, rfl, exact_error hSpec⟩
    | ok out => exact ⟨_, rfl, exact_ok hSpec.1⟩

def resultShape : Option (Except Status (InferenceContext × Nat)) → Option Shape
  | some (.ok out) => some (outcome out)
  | _ => none

def mergeLeft (c : InferenceContext) (s0 s1 s2 : Nat) :
    Option (Except Status (InferenceContext × Nat)) :=
  match c.merge s0 s1 with
  | some (.ok (c', out)) => c'.merge out s2
  | result => result

def mergeRight (c : InferenceContext) (s0 s1 s2 : Nat) :
    Option (Except Status (InferenceContext × Nat)) :=
  match c.merge s1 s2 with
  | some (.ok (c', out)) => c'.merge s0 out
  | result => result

theorem resultShape_merge (s0 s1 : Nat) (m : Shape) :
    resultShape (c.merge s0 s1) = some m ↔ m.Meet (c.shapeOf s0) (c.shapeOf s1) := by
  obtain ⟨result, hMerge, hOk, hMeet⟩ := c.merge_exact s0 s1
  rw [hMerge]
  cases result with
  | error status =>
    refine iff_of_false nofun fun h => ?_
    obtain ⟨sizes, hSizes⟩ := m.exists_completes
    obtain ⟨_, hFalse⟩ := hOk.mpr ⟨sizes, (h sizes).mp hSizes⟩
    cases hFalse
  | ok out =>
    rw [resultShape, Option.some.injEq]
    constructor
    · rintro rfl
      exact hMeet out rfl
    · exact (hMeet out rfl).unique

theorem merge_comm (s0 s1 : Nat) : resultShape (c.merge s0 s1) = resultShape (c.merge s1 s0) := by
  ext m
  rw [resultShape_merge, resultShape_merge]
  exact ⟨Shape.Meet.symm, Shape.Meet.symm⟩

theorem merge_self (s : Nat) : resultShape (c.merge s s) = some (c.shapeOf s) :=
  (resultShape_merge s s _).mpr (meet_self _)

theorem resultShape_mergeLeft (h2 : s2 < c.allShapes.length) (m : Shape) :
    resultShape (c.mergeLeft s0 s1 s2) = some m ↔ ∀ sizes, m.Completes sizes ↔
      ((c.shapeOf s0).Completes sizes ∧ (c.shapeOf s1).Completes sizes) ∧
        (c.shapeOf s2).Completes sizes := by
  have hSpec := c.merge_spec s0 s1
  rw [mergeLeft]
  cases hMerge : c.merge s0 s1 with
  | none =>
    rw [hMerge] at hSpec
    exact hSpec.elim
  | some result =>
    rw [hMerge] at hSpec
    cases result with
    | error status =>
      refine iff_of_false nofun fun h => ?_
      obtain ⟨sizes, hSizes⟩ := m.exists_completes
      exact hSpec sizes ((h sizes).mp hSizes).1
    | ok out =>
      obtain ⟨hMeet, hKept⟩ := hSpec
      rw [resultShape_merge, hKept s2 h2]
      exact forall_congr' fun sizes => by rw [hMeet sizes]

theorem resultShape_mergeRight (h0 : s0 < c.allShapes.length) (m : Shape) :
    resultShape (c.mergeRight s0 s1 s2) = some m ↔ ∀ sizes, m.Completes sizes ↔
      (c.shapeOf s0).Completes sizes ∧
        (c.shapeOf s1).Completes sizes ∧ (c.shapeOf s2).Completes sizes := by
  have hSame : resultShape (c.mergeRight s0 s1 s2) = resultShape (c.mergeLeft s1 s2 s0) := by
    rw [mergeRight, mergeLeft]
    cases c.merge s1 s2 with
    | none => rfl
    | some result =>
      cases result with
      | error status => rfl
      | ok out => exact merge_comm s0 out.2
  rw [hSame, resultShape_mergeLeft h0]
  exact forall_congr' fun sizes => by rw [and_comm (b := (c.shapeOf s0).Completes sizes)]

theorem merge_assoc (h0 : s0 < c.allShapes.length) (h2 : s2 < c.allShapes.length) :
    resultShape (c.mergeLeft s0 s1 s2) = resultShape (c.mergeRight s0 s1 s2) := by
  ext m
  rw [resultShape_mergeLeft h2, resultShape_mergeRight h0]
  exact forall_congr' fun sizes => by rw [and_assoc]

def CompletesPrefix (s pre : Shape) (sizes : List Nat) : Prop :=
  s.Completes sizes ∧ ∃ n, pre.Completes (sizes.take n)

/-- OK exactly when some full shape completes the shape and begins with one that completes the
prefix. With both ranks known the results say just that, and else they are the arguments. -/
def ExactPrefix (c : InferenceContext) (s pre : Nat)
    (result : Except Status (InferenceContext × Nat × Nat)) : Prop :=
  ((∃ a, result = .ok a) ↔ ∃ sizes, CompletesPrefix (c.shapeOf s) (c.shapeOf pre) sizes) ∧
    (∀ c' sOut preOut, result = .ok (c', sOut, preOut) →
      match c.dims s, c.dims pre with
      | some _, some preDims =>
        (∀ sizes, (c'.shapeOf sOut).Completes sizes ↔
          CompletesPrefix (c.shapeOf s) (c.shapeOf pre) sizes) ∧
        ∀ sizes, (c'.shapeOf preOut).Completes sizes ↔ ∃ full,
          CompletesPrefix (c.shapeOf s) (c.shapeOf pre) full ∧ sizes = full.take preDims.length
      | _, _ => (c', sOut, preOut) = (c, s, pre))

theorem completesPrefix_iff {pre : Nat} {preDims : List Nat} (hDims : c.dims s = some dims)
    (hPre : c.dims pre = some preDims) (sizes : List Nat) :
    CompletesPrefix (c.shapeOf s) (c.shapeOf pre) sizes ↔
      Fill c.value sizes dims ∧ Fill c.value (sizes.take preDims.length) preDims := by
  rw [CompletesPrefix, shapeOf_some hDims]
  refine and_congr_right fun _ => ⟨?_, fun h => ⟨_, (shapeOf_some hPre _).mpr h⟩⟩
  rintro ⟨n, h⟩
  have hFill := (shapeOf_some hPre _).mp h
  have hLength := hFill.length_eq
  rw [length_take] at hLength
  have hTake : sizes.take n = sizes.take preDims.length := by
    rw [take_eq_take_iff]
    omega
  rwa [← hTake]

theorem fill_merged {preDims merged : List Nat} (hRank : preDims.length ≤ dims.length)
    (hMerged : MergesDims c.value (dims.take preDims.length) preDims
      (.ok merged : Except Status _)) (sizes : List Nat) :
    Fill c.value sizes (merged ++ dims.drop preDims.length) ↔
      Fill c.value sizes dims ∧ Fill c.value (sizes.take preDims.length) preDims := by
  have hTake : (dims.take preDims.length).length = preDims.length := by
    rw [length_take, Nat.min_eq_left hRank]
  have hSplit : Fill c.value sizes (dims.take preDims.length ++ dims.drop preDims.length) ↔ _ :=
    fill_append
  rw [take_append_drop, hTake] at hSplit
  rw [fill_append, hMerged.length_eq, hSplit, hMerged, and_right_comm]

theorem mergePrefix_exact (s pre : Nat) : c.ExactPrefix s pre (c.mergePrefix s pre) := by
  cases hDims : c.dims s with
  | none =>
    rw [ExactPrefix, mergePrefix, hDims]
    refine ⟨iff_of_true ⟨_, rfl⟩ ?_, by rintro _ _ _ ⟨⟩; rfl⟩
    obtain ⟨sizes, hSizes⟩ := (c.shapeOf pre).exists_completes
    exact ⟨sizes, shapeOf_none hDims sizes, sizes.length, by rwa [take_length]⟩
  | some dims =>
    cases hPre : c.dims pre with
    | none =>
      rw [ExactPrefix, mergePrefix, hDims, hPre]
      refine ⟨iff_of_true ⟨_, rfl⟩ ?_, by rintro _ _ _ ⟨⟩; rfl⟩
      obtain ⟨sizes, hSizes⟩ := (c.shapeOf s).exists_completes
      exact ⟨sizes, hSizes, 0, shapeOf_none hPre _⟩
    | some preDims =>
      rw [ExactPrefix, mergePrefix]
      simp only [hDims, hPre, completesPrefix_iff hDims hPre]
      split_ifs with hRank
      · refine ⟨iff_of_false nofun ?_, nofun⟩
        rintro ⟨sizes, hFill, hFront⟩
        have hFrontLength := hFront.length_eq
        rw [length_take, hFill.length_eq] at hFrontLength
        omega
      · have hRank := Nat.not_lt.mp hRank
        have hLength : (dims.take preDims.length).length = preDims.length := by
          rw [length_take, Nat.min_eq_left hRank]
        have hPairs := mergePairs_spec (c := c) hLength
        cases hMerged : c.mergePairs (dims.take preDims.length) preDims with
        | error status =>
          rw [hMerged] at hPairs
          refine ⟨iff_of_false nofun ?_, nofun⟩
          rintro ⟨sizes, hFill, hFront⟩
          rw [← take_append_drop preDims.length dims, fill_append, hLength] at hFill
          exact hPairs _ ⟨hFill.1, hFront⟩
        | ok merged =>
          rw [hMerged] at hPairs
          have hFill := fill_merged hRank hPairs
          refine ⟨iff_of_true ⟨_, rfl⟩ ?_, ?_⟩
          · obtain ⟨sizes, hSizes⟩ := exists_fill c.value (merged ++ dims.drop preDims.length)
            exact ⟨sizes, (hFill sizes).mp hSizes⟩
          · rintro c' sOut preOut ⟨⟩
            refine ⟨fun sizes => (shapeOf_makeShape _ sizes).trans (hFill sizes), fun sizes => ?_⟩
            have hKept := shapeOf_makeShape_of_lt (c := (c.makeShape merged).1)
              (merged ++ dims.drop preDims.length) (s := (c.makeShape merged).2)
              (by simp [makeShape])
            rw [hKept]
            refine (shapeOf_makeShape merged sizes).trans ?_
            refine (fill_front (dims.drop preDims.length) hPairs.length_eq sizes).trans ?_
            exact exists_congr fun full => and_congr_left fun _ => hFill full

end InferenceContext

/-- A size of a dimension, `-1` for an unknown one. -/
abbrev DimSize := { v : Int // -1 ≤ v }

structure PartialTensorShape where
  isUnknown : Bool
  dimSizes : List DimSize

namespace PartialTensorShape

def sizeString (v : DimSize) : String := if v.1 = -1 then "?" else toString v.1

def debugString (p : PartialTensorShape) : String :=
  if p.isUnknown then "<unknown>"
  else "[" ++ ",".intercalate (p.dimSizes.map sizeString) ++ "]"

def mergeSize (message : String) (d0 d1 : DimSize) : Except Status DimSize :=
  if d0.1 = -1 then .ok d1
  else if d1.1 ≠ -1 ∧ d0 ≠ d1 then .error (Errors.invalidArgument message)
  else .ok d0

def incompatibleShapes (p shape : PartialTensorShape) : String :=
  "PartialTensorShape: Incompatible shapes during merge: " ++
    s!"{p.debugString} vs. {shape.debugString}"

def mergeWith (p shape : PartialTensorShape) : Except Status PartialTensorShape :=
  if p.isUnknown then .ok shape
  else if shape.isUnknown then .ok p
  else if p.dimSizes.length ≠ shape.dimSizes.length then
    .error (Errors.invalidArgument ("PartialTensorShape: Incompatible ranks during merge: " ++
      s!"{p.dimSizes.length} vs. {shape.dimSizes.length}"))
  else do
    let dimSizes ← mergeDims (mergeSize (p.incompatibleShapes shape)) p.dimSizes shape.dimSizes
    .ok { isUnknown := false, dimSizes }

def isCompatibleWith (p shape : PartialTensorShape) : Bool :=
  if p.isUnknown || shape.isUnknown then true
  else if p.dimSizes.length ≠ shape.dimSizes.length then false
  else (p.dimSizes.zip shape.dimSizes).all fun pair =>
    pair.1.1 = -1 || pair.2.1 = -1 || pair.1 = pair.2

def dimOf (v : DimSize) : Dim := if v.1 = -1 then none else some v.1.toNat

def toShape (p : PartialTensorShape) : Shape :=
  if p.isUnknown then none else some (p.dimSizes.map dimOf)

theorem dimOf_of_ne {v : DimSize} (h : v.1 ≠ -1) : dimOf v = some v.1.toNat := if_neg h

theorem dimOf_unknown {v : DimSize} (h : v.1 = -1) : dimOf v = none := if_pos h

theorem mergeSize_spec (message : String) (d0 d1 : DimSize) :
    MergesDim dimOf d0 d1 (mergeSize message d0 d1) := by
  rw [mergeSize]
  split_ifs with h0 h1
  · simp [MergesDim, dimOf_unknown h0]
  · rw [MergesDim, dimOf_of_ne h0, dimOf_of_ne h1.1]
    rintro n ⟨hFirst, hSecond⟩
    rw [Dim.Completes.some_iff] at hFirst hSecond
    exact h1.2 (Subtype.ext (by omega))
  · rw [not_and_or, not_not, not_not] at h1
    cases h1 with
    | inl h1 => simp [MergesDim, dimOf_unknown h1]
    | inr h1 => simp [MergesDim, h1]

theorem mergeSize_ok (message : String) (d0 d1 : DimSize) :
    (∃ d, mergeSize message d0 d1 = .ok d) ↔ d0.1 = -1 ∨ d1.1 = -1 ∨ d0 = d1 := by
  rw [mergeSize]
  split_ifs with h0 h1
  · exact iff_of_true ⟨_, rfl⟩ (.inl h0)
  · exact iff_of_false nofun fun h => h.elim h0 fun h => h.elim h1.1 h1.2
  · rw [not_and_or, not_not, not_not] at h1
    exact iff_of_true ⟨_, rfl⟩ (.inr h1)

theorem mergeWith_exact (p shape : PartialTensorShape) :
    Shape.Exact toShape p.toShape shape.toShape (p.mergeWith shape) := by
  rw [mergeWith]
  split_ifs with hUnknown hOther hRank
  · refine exact_ok fun sizes => ?_
    rw [toShape.eq_def p, if_pos hUnknown]
    exact (and_iff_right trivial).symm
  · refine exact_ok fun sizes => ?_
    rw [toShape.eq_def shape, if_pos hOther]
    exact (and_iff_left trivial).symm
  · refine exact_error fun sizes h => hRank ?_
    rw [toShape, if_neg hUnknown, toShape, if_neg hOther] at h
    exact (Fill.length_eq h.1).symm.trans (Fill.length_eq h.2)
  · have hSpec := mergeDims_spec (mergeSize_spec (p.incompatibleShapes shape)) (not_not.mp hRank)
    rw [toShape.eq_def p, if_neg hUnknown, toShape.eq_def shape, if_neg hOther]
    cases hSizes : mergeDims (mergeSize (p.incompatibleShapes shape)) p.dimSizes
        shape.dimSizes with
    | error status =>
      rw [hSizes] at hSpec
      exact exact_error hSpec
    | ok dimSizes =>
      rw [hSizes] at hSpec
      exact exact_ok hSpec

theorem isCompatibleWith_iff (p shape : PartialTensorShape) :
    p.isCompatibleWith shape = true ↔ ∃ merged, p.mergeWith shape = .ok merged := by
  rw [isCompatibleWith, mergeWith]
  cases p.isUnknown with
  | true => exact iff_of_true rfl ⟨_, rfl⟩
  | false =>
    cases shape.isUnknown with
    | true => exact iff_of_true rfl ⟨_, rfl⟩
    | false =>
      simp only [Bool.or_self, Bool.false_eq_true, if_false]
      split_ifs with hRank
      · exact iff_of_false nofun nofun
      · have hOk : (∃ dims, mergeDims (mergeSize (p.incompatibleShapes shape)) p.dimSizes
          shape.dimSizes = .ok dims) ↔ _ := mergeDims_ok
        simp only [mergeSize_ok] at hOk
        simp only [all_eq_true, Bool.or_eq_true, decide_eq_true_eq, or_assoc, ← hOk]
        cases mergeDims (mergeSize (p.incompatibleShapes shape)) p.dimSizes shape.dimSizes with
        | error status => exact iff_of_false nofun nofun
        | ok dimSizes => exact iff_of_true ⟨_, rfl⟩ ⟨_, rfl⟩

end PartialTensorShape

open InferenceContext in
theorem merging_meets (c : InferenceContext) :
    (∀ s0 s1, ∃ result, c.merge s0 s1 = some result ∧
      Shape.Exact outcome (c.shapeOf s0) (c.shapeOf s1) result) ∧
    (∀ s, resultShape (c.merge s s) = some (c.shapeOf s)) ∧
    (∀ s0 s1, resultShape (c.merge s0 s1) = resultShape (c.merge s1 s0)) ∧
    (∀ s0 s1 s2, s0 < c.allShapes.length → s2 < c.allShapes.length →
      resultShape (c.mergeLeft s0 s1 s2) = resultShape (c.mergeRight s0 s1 s2)) ∧
    (∀ s pre, c.ExactPrefix s pre (c.mergePrefix s pre)) ∧
    ∀ p shape : PartialTensorShape,
      Shape.Exact PartialTensorShape.toShape p.toShape shape.toShape (p.mergeWith shape) ∧
        (p.isCompatibleWith shape = true ↔ ∃ merged, p.mergeWith shape = .ok merged) :=
  ⟨merge_exact, merge_self, merge_comm, fun _ _ _ => merge_assoc, mergePrefix_exact,
    fun p shape => ⟨p.mergeWith_exact shape, p.isCompatibleWith_iff shape⟩⟩

def twoShapes : InferenceContext := ⟨[some 2, none], [some [0, 1], some [1, 0], none]⟩

theorem twoShapes_merge_assoc :
    (0 < twoShapes.allShapes.length ∧ 1 < twoShapes.allShapes.length) ∧
      InferenceContext.resultShape (twoShapes.mergeLeft 0 2 1) =
        InferenceContext.resultShape (twoShapes.mergeRight 0 2 1) :=
  ⟨by decide, (merging_meets twoShapes).2.2.2.1 0 2 1 (by decide) (by decide)⟩

theorem mergePrefix_not_exact : ∃ c' sOut preOut,
    InferenceContext.mergePrefix ⟨[some 1], [none, some [0]]⟩ 0 1 = .ok (c', sOut, preOut) ∧
      (c'.shapeOf sOut).Completes [] ∧
      ¬InferenceContext.CompletesPrefix (c'.shapeOf 0) (c'.shapeOf 1) [] := by
  refine ⟨_, _, _, rfl, trivial, ?_⟩
  rintro ⟨-, n, h⟩
  rw [take_nil] at h
  exact nomatch (Fill.length_eq h : ([] : List Nat).length = [0].length)

namespace InferenceContext

variable {c : InferenceContext}

/-- The loop of the shape function of `AddN`, over the inputs before the one that gave `cur`. -/
def addNLoop (c : InferenceContext) (cur : Nat) :
    List Nat → Option (Except Status (InferenceContext × Nat))
  | [] => some (.ok (c, cur))
  | input :: inputs =>
    match c.merge input cur with
    | some (.ok (c', cur')) => addNLoop c' cur' inputs
    | some (.error status) => some (.error (Errors.appendToMessage status
        s!"From merging shape {inputs.length} with other shapes."))
    | none => none

/-- An `AddN` has at least one input. -/
def addN (c : InferenceContext) (inputs : List Nat) :
    Option (Except Status (InferenceContext × Nat)) :=
  match inputs.reverse with
  | [] => none
  | cur :: inputs => c.addNLoop cur inputs

theorem length_le_of_merge {s0 s1 : Nat} {out : InferenceContext × Nat}
    (h : c.merge s0 s1 = some (.ok out)) : c.allShapes.length ≤ out.1.allShapes.length := by
  have hMade (dims : List Nat) : c.allShapes.length ≤ (c.makeShape dims).1.allShapes.length := by
    simp [makeShape]
  grind [merge]

/-- The outcome of a merge of all the shapes. -/
def MergesAll (shapes : List Shape) : Option (Except Status (InferenceContext × Nat)) → Prop
  | none => False
  | some (.error _) => ∀ sizes, ¬∀ t ∈ shapes, t.Completes sizes
  | some (.ok out) => ∀ sizes, (outcome out).Completes sizes ↔ ∀ t ∈ shapes, t.Completes sizes

theorem MergesAll.congr {shapes shapes' : List Shape}
    (hSame : ∀ sizes, (∀ t ∈ shapes, t.Completes sizes) ↔ ∀ t ∈ shapes', t.Completes sizes) :
    ∀ {result}, MergesAll shapes result → MergesAll shapes' result
  | some (.error _), h => fun sizes hAll => h sizes ((hSame sizes).mpr hAll)
  | some (.ok _), h => fun sizes => (h sizes).trans (hSame sizes)

theorem MergesAll.resultShape_eq {shapes : List Shape}
    {result result' : Option (Except Status (InferenceContext × Nat))}
    (h : MergesAll shapes result) (h' : MergesAll shapes result') :
    resultShape result = resultShape result' := by
  rcases result with _ | _ | out
  · exact h.elim
  · rcases result' with _ | _ | out'
    · exact h'.elim
    · rfl
    · obtain ⟨sizes, hSizes⟩ := (outcome out').exists_completes
      exact absurd ((h' sizes).mp hSizes) (h sizes)
  · rcases result' with _ | _ | out'
    · exact h'.elim
    · obtain ⟨sizes, hSizes⟩ := (outcome out).exists_completes
      exact absurd ((h sizes).mp hSizes) (h' sizes)
    · have hSame : outcome out = outcome out' :=
        Shape.ext_completes fun sizes => (h sizes).trans (h' sizes).symm
      exact congrArg some hSame

theorem addNLoop_mergesAll {cur : Nat} {inputs : List Nat}
    (hInputs : ∀ s ∈ inputs, s < c.allShapes.length) :
    MergesAll ((cur :: inputs).map c.shapeOf) (c.addNLoop cur inputs) := by
  induction inputs generalizing c cur with
  | nil => exact fun sizes => by simp [outcome]
  | cons s inputs ih =>
    obtain ⟨hFirst, hRest⟩ := forall_mem_cons.mp hInputs
    have hSpec := c.merge_spec s cur
    rw [addNLoop]
    cases hMerge : c.merge s cur with
    | none =>
      rw [hMerge] at hSpec
      exact hSpec.elim
    | some result =>
      rw [hMerge] at hSpec
      cases result with
      | error status =>
        intro sizes hAll
        simp only [map_cons, forall_mem_cons] at hAll
        exact hSpec sizes ⟨hAll.2.1, hAll.1⟩
      | ok out =>
        obtain ⟨hMeet, hKept⟩ := hSpec
        have hLength := length_le_of_merge hMerge
        refine (ih fun t ht => Nat.lt_of_lt_of_le (hRest t ht) hLength).congr fun sizes => ?_
        rw [map_cons, map_congr_left fun t ht => hKept t (hRest t ht)]
        simp only [map_cons, forall_mem_cons, hMeet sizes, and_assoc]
        exact and_left_comm

theorem addN_merges (c : InferenceContext) {inputs : List Nat} (hSome : inputs ≠ [])
    (hInputs : ∀ s ∈ inputs, s < c.allShapes.length) :
    MergesAll (inputs.map c.shapeOf) (c.addN inputs) := by
  obtain ⟨inputs, rfl⟩ := reverse_surjective inputs
  simp only [mem_reverse] at hInputs
  rw [addN, reverse_reverse]
  cases inputs with
  | nil => exact absurd rfl hSome
  | cons cur rest =>
    exact (addNLoop_mergesAll (forall_mem_cons.mp hInputs).2).congr fun sizes => by
      simp only [map_reverse, mem_reverse]

/-- `AddN` infers the shapes that complete all inputs, in whatever order they come, and fails when
there is none. -/
theorem addN_mergesAll (c : InferenceContext) {inputs : List Nat} (hSome : inputs ≠ [])
    (hInputs : ∀ s ∈ inputs, s < c.allShapes.length) :
    MergesAll (inputs.map c.shapeOf) (c.addN inputs) ∧
      ∀ inputs', inputs.Perm inputs' →
        resultShape (c.addN inputs') = resultShape (c.addN inputs) := by
  have hMerges := c.addN_merges hSome hInputs
  refine ⟨hMerges, fun inputs' hPerm => ?_⟩
  have hSome' : inputs' ≠ [] := fun hNil => hSome (hNil ▸ hPerm).eq_nil
  have hMerges' := c.addN_merges hSome' fun s hs => hInputs s (hPerm.mem_iff.mpr hs)
  refine hMerges'.resultShape_eq (hMerges.congr fun sizes => ?_)
  simp only [mem_map, hPerm.mem_iff]

theorem addN_mergesAll_two :
    MergesAll [some [some 2, none], some [none, some 2]]
      (InferenceContext.addN ⟨[some 2, none], [some [0, 1], some [1, 0]]⟩ [0, 1]) ∧
    ∀ inputs', [0, 1].Perm inputs' →
      resultShape (InferenceContext.addN ⟨[some 2, none], [some [0, 1], some [1, 0]]⟩ inputs') =
        resultShape (InferenceContext.addN ⟨[some 2, none], [some [0, 1], some [1, 0]]⟩ [0, 1]) :=
  @addN_mergesAll ⟨[some 2, none], [some [0, 1], some [1, 0]]⟩ [0, 1] (by decide) (by decide)

end InferenceContext

end TensorFlowOnSpark.Framework
