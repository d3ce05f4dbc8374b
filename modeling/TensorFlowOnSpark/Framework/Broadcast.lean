import TensorFlowOnSpark.Framework.ShapeInference

/-!
# Broadcasting

`BCast` of `util/bcast.cc`, with which the kernels of binary operations broadcast, and
`BroadcastBinaryOpShapeFn` of `framework/common_shape_fns.cc`, which infers the shape of
their result.
-/

namespace TensorFlowOnSpark.Framework

open Fallible List

/-- A `BCast` whose `valid_` is true. -/
structure BCast where
  xReshape : List Nat
  xBcast : List Nat
  yReshape : List Nat
  yBcast : List Nat
  result : List Nat
  output : List Nat
  gradXReduceIdx : List Nat
  gradYReduceIdx : List Nat
deriving DecidableEq, Repr

namespace BCast

inductive State where
  | unknown | same | xOne | yOne
deriving DecidableEq, Repr

def empty : BCast := ⟨[], [], [], [], [], [], [], []⟩

/-- What the comparison of two sizes finds: the state and `o_i`, `bx_i` and `by_i`. -/
def compare (x y : Nat) : Option (State × Nat × Nat × Nat) :=
  if x = y then some (.same, x, 1, 1)
  else if x = 1 then some (.xOne, y, y, 1)
  else if y = 1 then some (.yOne, x, 1, x)
  else none

/-- `back() *= n`; the last element of a vector is the first of the list. -/
def multiplyBack (n : Nat) : List Nat → List Nat
  | [] => []
  | last :: rest => last * n :: rest

def push (b : BCast) (x y o bx by_ : Nat) : BCast :=
  { b with
    result := o :: b.result, xReshape := x :: b.xReshape, xBcast := bx :: b.xBcast
    yReshape := y :: b.yReshape, yBcast := by_ :: b.yBcast }

def multiply (b : BCast) (x y o bx by_ : Nat) : BCast :=
  { b with
    result := multiplyBack o b.result, xReshape := multiplyBack x b.xReshape
    xBcast := multiplyBack bx b.xBcast, yReshape := multiplyBack y b.yReshape
    yBcast := multiplyBack by_ b.yBcast }

def record (b : BCast) (curr : State) (x o idx : Nat) : BCast :=
  { b with
    output := o :: b.output
    gradXReduceIdx :=
      if curr = .xOne ∨ (curr = .same ∧ x = 1) then idx :: b.gradXReduceIdx else b.gradXReduceIdx
    gradYReduceIdx :=
      if curr = .yOne ∨ (curr = .same ∧ x = 1) then idx :: b.gradYReduceIdx else b.gradYReduceIdx }

/-- The loop over the reversed shapes. The vectors are built from their ends, so that the
last reversals of the source are left out; the index of a pair is the number of pairs
behind it. -/
def loop (fewerDims : Bool) : List (Nat × Nat) → State → BCast → Option BCast
  | [], _, b => some b
  | (x, y) :: rest, prev, b =>
    match compare x y with
    | none => none
    | some (curr, o, bx, by_) =>
      let b := b.record curr x o rest.length
      if curr = .same ∧ x = 1 then
        loop fewerDims rest prev (if fewerDims then b else b.push x y o bx by_)
      else if fewerDims ∧ prev = curr then loop fewerDims rest curr (b.multiply x y o bx by_)
      else loop fewerDims rest curr (b.push x y o bx by_)

/-- `resize(n, 1)` of a reversed shape. -/
def extend (n : Nat) (s : List Nat) : List Nat := s ++ replicate (n - s.length) 1

def scalarIfEmpty (b : BCast) : BCast := if b.result.isEmpty then b.push 1 1 1 1 1 else b

/-- The constructor; `none` where `valid_` becomes false. -/
def new (sx sy : List Nat) (fewerDims : Bool) : Option BCast :=
  if sx = sy ∧ fewerDims then some ⟨[sx.prod], [1], [sx.prod], [1], [sx.prod], sx, [], []⟩
  else
    let n := max sx.length sy.length
    (loop fewerDims ((extend n sx.reverse).zip (extend n sy.reverse)) .unknown empty).map
      scalarIfEmpty

end BCast

/-- The dimension of a result from two dimensions, the second of which may stand for a
dimension that `shape_y` does not have. -/
def broadcastDim (dimX dimY : Dim) (dimYIsOne : Bool) : Except Status Dim :=
  match dimX, dimY with
  | some x, some y =>
    if x = 1 ∨ y = 1 then
      if x = 1 ∧ ¬ dimYIsOne then .ok dimY else .ok dimX
    else Shape.mergeDim dimX dimY
  | _, _ =>
    if ∃ x ∈ dimX, 1 < x then .ok dimX
    else if ∃ y ∈ dimY, 1 < y then .ok dimY
    else if dimX = some 1 then .ok dimY
    else if dimY = some 1 then .ok dimX
    else .ok none

/-- The dimension `i` of a shape that is padded with 1 to `rankOut` dimensions. -/
def paddedDim (rankOut : Nat) (dims : List Dim) (i : Nat) : Dim :=
  if i < rankOut - dims.length then some 1 else dims.getD (i - (rankOut - dims.length)) none

def broadcastBinaryOpShapeFn : Shape → Shape → Except Status Shape
  | some x, some y => do
    let rankOut := max x.length y.length
    let dims ← (range rankOut).mapM fun i =>
      broadcastDim (paddedDim rankOut x i) (paddedDim rankOut y i) (i < rankOut - y.length)
    .ok (some dims)
  | _, _ => .ok none

def Compatible (x y : Nat) : Prop := x = y ∨ x = 1 ∨ y = 1

instance (x y : Nat) : Decidable (Compatible x y) := inferInstanceAs (Decidable (_ ∨ _))

def broadcastSize (x y : Nat) : Nat := if x = 1 then y else x

theorem BCast.compare_spec (x y : Nat) :
    if Compatible x y then
      ∃ curr bx by_, BCast.compare x y = some (curr, broadcastSize x y, bx, by_) ∧
        broadcastSize x y = x * bx ∧ broadcastSize x y = y * by_
    else BCast.compare x y = none := by
  unfold BCast.compare
  by_cases hSame : x = y
  · subst hSame
    simp [Compatible, broadcastSize]
  · by_cases hx : x = 1
    · subst hx
      simp [Compatible, broadcastSize, hSame]
    · by_cases hy : y = 1
      · subst hy
        simp [Compatible, broadcastSize, hx]
      · simp [Compatible, hSame, hx, hy]

theorem broadcastDim_known (x y : Nat) (dimYIsOne : Bool) (hOne : dimYIsOne → y = 1) :
    if Compatible x y then broadcastDim (some x) (some y) dimYIsOne = .ok (some (broadcastSize x y))
    else ∃ e, broadcastDim (some x) (some y) dimYIsOne = .error e := by
  unfold broadcastDim Shape.mergeDim
  by_cases hx : x = 1
  · subst hx
    cases dimYIsOne with
    | false => simp [Compatible, broadcastSize]
    | true => simp [Compatible, broadcastSize, hOne rfl]
  · by_cases hy : y = 1
    · simp [Compatible, broadcastSize, hx, hy]
    · by_cases hSame : x = y
      · simp [Compatible, broadcastSize, hSame]
      · simp [Compatible, hx, hy, hSame]

theorem broadcastDim_sound {x y : Nat} {dimX dimY : Dim} {dimYIsOne : Bool}
    (hx : Dim.Completes x dimX) (hy : Dim.Completes y dimY) (hOne : dimYIsOne → y = 1)
    (hFits : Compatible x y) :
    ∃ d, broadcastDim dimX dimY dimYIsOne = .ok d ∧ Dim.Completes (broadcastSize x y) d := by
  cases dimX with
  | none =>
    cases dimY with
    | none => exact ⟨none, by simp [broadcastDim], Dim.Completes.none _⟩
    | some n =>
      obtain rfl := Dim.Completes.some_iff.mp hy
      by_cases hMany : 1 < n
      · refine ⟨some n, by simp [broadcastDim, hMany], Dim.Completes.some_iff.mpr ?_⟩
        simp only [Compatible, broadcastSize] at *
        grind
      · by_cases hSingle : n = 1
        · exact ⟨none, by simp [broadcastDim, hSingle], Dim.Completes.none _⟩
        · exact ⟨none, by simp [broadcastDim, hMany], Dim.Completes.none _⟩
  | some m =>
    obtain rfl := Dim.Completes.some_iff.mp hx
    cases dimY with
    | none =>
      by_cases hMany : 1 < m
      · refine ⟨some m, by simp [broadcastDim, hMany], Dim.Completes.some_iff.mpr ?_⟩
        simp only [broadcastSize]
        grind
      · by_cases hSingle : m = 1
        · exact ⟨none, by simp [broadcastDim, hSingle], Dim.Completes.none _⟩
        · exact ⟨none, by simp [broadcastDim, hMany], Dim.Completes.none _⟩
    | some n =>
      obtain rfl := Dim.Completes.some_iff.mp hy
      have hKnown := broadcastDim_known m n dimYIsOne hOne
      rw [if_pos hFits] at hKnown
      exact ⟨_, hKnown, Dim.Completes.some_iff.mpr rfl⟩

namespace BCast

def Makes (pairs : List (Nat × Nat)) (output : List Nat) : Option BCast → Prop
  | none => ∃ p ∈ pairs, ¬ Compatible p.1 p.2
  | some b => (∀ p ∈ pairs, Compatible p.1 p.2) ∧ b.output = output

theorem loop_makes (fewerDims : Bool) (pairs : List (Nat × Nat)) (prev : State) (b : BCast) :
    Makes pairs ((pairs.map fun p => broadcastSize p.1 p.2).reverse ++ b.output)
      (loop fewerDims pairs prev b) := by
  induction pairs generalizing prev b with
  | nil => exact ⟨by simp, rfl⟩
  | cons p rest ih =>
    have hPair := compare_spec p.1 p.2
    rw [loop]
    by_cases hFits : Compatible p.1 p.2
    · rw [if_pos hFits] at hPair
      obtain ⟨curr, bx, by_, hCompare, -, -⟩ := hPair
      have hNext : ∀ prev' b', b'.output = broadcastSize p.1 p.2 :: b.output →
          Makes (p :: rest) (((p :: rest).map fun p => broadcastSize p.1 p.2).reverse ++ b.output)
            (loop fewerDims rest prev' b') := by
        intro prev' b' hOutput
        have hRest := ih prev' b'
        rw [hOutput] at hRest
        cases hLoop : loop fewerDims rest prev' b' with
        | none =>
          rw [hLoop] at hRest
          obtain ⟨q, hMem, hNot⟩ := hRest
          exact ⟨q, mem_cons_of_mem _ hMem, hNot⟩
        | some b'' =>
          rw [hLoop] at hRest
          refine ⟨forall_mem_cons.mpr ⟨hFits, hRest.1⟩, hRest.2.trans ?_⟩
          simp
      simp only [hCompare]
      split
      · apply hNext
        cases fewerDims <;> rfl
      · split
        · exact hNext _ _ rfl
        · exact hNext _ _ rfl
    · rw [if_neg hFits] at hPair
      rw [hPair]
      exact ⟨p, mem_cons_self, hFits⟩

def padded (n : Nat) (s : List Nat) : List Nat := replicate (n - s.length) 1 ++ s

theorem length_padded {n : Nat} {s : List Nat} (h : s.length ≤ n) : (padded n s).length = n := by
  simp only [padded, length_append, length_replicate]
  omega

theorem extend_reverse (n : Nat) (s : List Nat) : extend n s.reverse = (padded n s).reverse := by
  simp [extend, padded]

theorem padded_self (s : List Nat) : padded s.length s = s := by simp [padded]

def pairs (sx sy : List Nat) : List (Nat × Nat) :=
  (padded (max sx.length sy.length) sx).zip (padded (max sx.length sy.length) sy)

theorem pairs_self (s : List Nat) : pairs s s = s.map fun x => (x, x) := by
  have hZip := zip_map' (f := fun x : Nat => x) (g := fun x : Nat => x) (l := s)
  rw [pairs, Nat.max_self, padded_self]
  simpa using hZip

theorem reverse_pairs (sx sy : List Nat) :
    (extend (max sx.length sy.length) sx.reverse).zip
      (extend (max sx.length sy.length) sy.reverse) =
      (pairs sx sy).reverse := by
  have hLength : (padded (max sx.length sy.length) sx).length =
      (padded (max sx.length sy.length) sy).length := by
    rw [length_padded (Nat.le_max_left _ _), length_padded (Nat.le_max_right _ _)]
  rw [extend_reverse, extend_reverse, pairs, zip_eq_zipWith, zip_eq_zipWith,
    reverse_zipWith hLength]

def outputOf (sx sy : List Nat) : List Nat := (pairs sx sy).map fun p => broadcastSize p.1 p.2

theorem new_makes (sx sy : List Nat) (fewerDims : Bool) :
    Makes (pairs sx sy) (outputOf sx sy) (new sx sy fewerDims) := by
  unfold new
  split
  · rename_i hFast
    obtain ⟨rfl, -⟩ := hFast
    constructor
    · intro p hMem
      rw [pairs_self] at hMem
      obtain ⟨x, -, rfl⟩ := mem_map.mp hMem
      exact Or.inl rfl
    · rw [outputOf, pairs_self]
      simp [Function.comp_def, broadcastSize]
  · have hLoop := loop_makes fewerDims (pairs sx sy).reverse .unknown empty
    simp only [reverse_pairs]
    cases hResult : loop fewerDims (pairs sx sy).reverse .unknown empty with
    | none =>
      rw [hResult] at hLoop
      obtain ⟨p, hMem, hNot⟩ := hLoop
      exact ⟨p, mem_reverse.mp hMem, hNot⟩
    | some b =>
      rw [hResult] at hLoop
      obtain ⟨hAll, hOutput⟩ := hLoop
      have hSame : b.scalarIfEmpty.output = b.output := by
        unfold scalarIfEmpty
        split <;> rfl
      constructor
      · intro p hMem
        exact hAll p (mem_reverse.mpr hMem)
      · rw [hSame, hOutput, outputOf]
        simp [empty]

theorem new_eq_none_iff (sx sy : List Nat) (fewerDims : Bool) :
    new sx sy fewerDims = none ↔ ∃ p ∈ pairs sx sy, ¬ Compatible p.1 p.2 := by
  have hMakes := new_makes sx sy fewerDims
  cases hNew : new sx sy fewerDims with
  | none =>
    rw [hNew] at hMakes
    exact ⟨fun _ => hMakes, fun _ => rfl⟩
  | some b =>
    rw [hNew] at hMakes
    constructor
    · intro h
      cases h
    · rintro ⟨p, hMem, hNot⟩
      exact absurd (hMakes.1 p hMem) hNot

theorem output_of_new {sx sy : List Nat} {fewerDims : Bool} {b : BCast}
    (h : new sx sy fewerDims = some b) :
    (∀ p ∈ pairs sx sy, Compatible p.1 p.2) ∧ b.output = outputOf sx sy := by
  have hMakes := new_makes sx sy fewerDims
  rw [h] at hMakes
  exact hMakes

end BCast

section Inferred

open BCast
variable {n i a : Nat} {xs ys : List Nat} {fewerDims : Bool}

theorem completes_paddedDim {dims : List Dim} (h : Forall₂ Dim.Completes xs dims)
    (hGet : (padded n xs)[i]? = some a) : Dim.Completes a (paddedDim n dims i) := by
  have hLength := h.length_eq
  unfold paddedDim
  split
  · rename_i hPadding
    rw [padded, getElem?_append_left (by simpa [hLength] using hPadding),
      getElem?_replicate, if_pos (by omega)] at hGet
    exact Dim.Completes.some_iff.mpr (Option.some.inj hGet)
  · rename_i hInside
    rw [padded, getElem?_append_right (by simp only [length_replicate]; omega),
      length_replicate, hLength] at hGet
    obtain ⟨hLess, hGet⟩ := List.getElem?_eq_some_iff.mp hGet
    have hDims : i - (n - dims.length) < dims.length := hLength ▸ hLess
    rw [getD, getElem?_eq_getElem hDims, ← hGet]
    exact (forall₂_iff_get.mp h).2 _ hLess hDims

def Shape.known (sizes : List Nat) : Shape := some (sizes.map some)

theorem paddedDim_known (hGet : (padded n xs)[i]? = some a) :
    paddedDim n (xs.map some) i = some a := by
  have hCompletes : Forall₂ Dim.Completes xs (xs.map some) := by
    rw [forall₂_map_right_iff, forall₂_same]
    intro x _
    exact Dim.Completes.some_iff.mpr rfl
  have hDim := completes_paddedDim hCompletes hGet
  have hSome : ∃ m, paddedDim n (xs.map some) i = some m := by
    unfold paddedDim
    split
    · exact ⟨1, rfl⟩
    · have hLess : i < (padded n xs).length := (List.getElem?_eq_some_iff.mp hGet).1
      simp only [padded, length_append, length_replicate, length_map] at *
      rw [getD, getElem?_map, getElem?_eq_getElem (by omega)]
      exact ⟨_, rfl⟩
  obtain ⟨m, hm⟩ := hSome
  rw [hm, hDim m hm]

theorem one_of_padding (hGet : (padded n ys)[i]? = some a) (h : i < n - ys.length) : a = 1 := by
  rw [padded, getElem?_append_left (by simpa using h), getElem?_replicate, if_pos h] at hGet
  exact (Option.some.inj hGet).symm

theorem mapM_pairs {f : Nat → Except Status Dim} (sx sy : List Nat) {R : Nat × Nat → Dim → Prop}
    (hStep : ∀ (i : Nat) (p : Nat × Nat), (padded (max sx.length sy.length) sx)[i]? = some p.1 →
      (padded (max sx.length sy.length) sy)[i]? = some p.2 → p ∈ pairs sx sy →
        ∃ d, f i = .ok d ∧ R p d) :
    ∃ dims, (range (max sx.length sy.length)).mapM f = .ok dims ∧
      Forall₂ R (pairs sx sy) dims := by
  have hx := length_padded (Nat.le_max_left sx.length sy.length)
  have hy := length_padded (Nat.le_max_right sx.length sy.length)
  have hLength : (pairs sx sy).length = max sx.length sy.length := by
    rw [pairs, length_zip, hx, hy, Nat.min_self]
  have hPair : ∀ (i : Nat) (p : Nat × Nat), (pairs sx sy)[i]? = some p →
      (padded (max sx.length sy.length) sx)[i]? = some p.1 ∧
        (padded (max sx.length sy.length) sy)[i]? = some p.2 := by
    intro i p hGet
    exact getElem?_zip_eq_some.mp hGet
  have hAll : ∀ i ∈ range (max sx.length sy.length), ∃ d, f i = .ok d := by
    intro i hMem
    have hLess : i < (pairs sx sy).length := by rw [hLength]; exact mem_range.mp hMem
    have hGet := getElem?_eq_getElem hLess
    obtain ⟨hLeft, hRight⟩ := hPair i _ hGet
    obtain ⟨d, hd, -⟩ := hStep i _ hLeft hRight (getElem_mem hLess)
    exact ⟨d, hd⟩
  obtain ⟨dims, hDims⟩ := mapM_isOk hAll
  refine ⟨dims, hDims, ?_⟩
  have hEach := forall₂_iff_get.mp (mapM_eq_ok.mp hDims)
  rw [forall₂_iff_get]
  refine ⟨hLength.trans (length_range.symm.trans hEach.1), ?_⟩
  intro i hLess hDim
  have hGet := getElem?_eq_getElem hLess
  obtain ⟨hLeft, hRight⟩ := hPair i _ hGet
  obtain ⟨d, hd, hR⟩ := hStep i _ hLeft hRight (getElem_mem hLess)
  have hIndex : i < (range (max sx.length sy.length)).length := by
    rw [length_range, ← hLength]
    exact hLess
  have hSame := hEach.2 i hIndex hDim
  simp only [get_eq_getElem, getElem_range] at hSame
  rw [hd] at hSame
  simp only [get_eq_getElem]
  rw [← Except.ok.inj hSame]
  exact hR

theorem broadcastShape_sound {sx sy : Shape} {b : BCast}
    (hx : sx.Completes xs) (hy : sy.Completes ys) (hValid : new xs ys fewerDims = some b) :
    ∃ s, broadcastBinaryOpShapeFn sx sy = .ok s ∧ s.Completes b.output := by
  obtain ⟨hAll, hOutput⟩ := output_of_new hValid
  cases sx with
  | none => exact ⟨none, rfl, trivial⟩
  | some x =>
    cases sy with
    | none => exact ⟨none, rfl, trivial⟩
    | some y =>
      have hLengthX : x.length = xs.length := hx.length_eq.symm
      have hLengthY : y.length = ys.length := hy.length_eq.symm
      obtain ⟨dims, hDims, hEach⟩ := mapM_pairs xs ys
        (f := fun i => broadcastDim (paddedDim (max xs.length ys.length) x i)
          (paddedDim (max xs.length ys.length) y i) (i < max xs.length ys.length - ys.length))
        (R := fun p d => Dim.Completes (broadcastSize p.1 p.2) d) (by
          intro i p hLeft hRight hMem
          apply broadcastDim_sound (completes_paddedDim hx hLeft) (completes_paddedDim hy hRight)
          · intro hOne
            exact one_of_padding hRight (of_decide_eq_true hOne)
          · exact hAll p hMem)
      refine ⟨some dims, ?_, ?_⟩
      · simp only [broadcastBinaryOpShapeFn, hLengthX, hLengthY, hDims]
        rfl
      · rw [hOutput]
        exact forall₂_map_left_iff.mpr hEach

theorem broadcastShape_known {b : BCast} (hValid : new xs ys fewerDims = some b) :
    broadcastBinaryOpShapeFn (.known xs) (.known ys) = .ok (.known b.output) := by
  obtain ⟨hAll, hOutput⟩ := output_of_new hValid
  obtain ⟨dims, hDims, hEach⟩ := mapM_pairs xs ys
    (f := fun i => broadcastDim (paddedDim (max xs.length ys.length) (xs.map some) i)
      (paddedDim (max xs.length ys.length) (ys.map some) i)
        (i < max xs.length ys.length - ys.length))
    (R := fun p d => d = some (broadcastSize p.1 p.2)) (by
      intro i p hLeft hRight hMem
      have hKnown := broadcastDim_known p.1 p.2 (i < max xs.length ys.length - ys.length)
        (fun hOne => one_of_padding hRight (of_decide_eq_true hOne))
      rw [if_pos (hAll p hMem)] at hKnown
      exact ⟨_, by rw [paddedDim_known hLeft, paddedDim_known hRight, hKnown], rfl⟩)
  have hSame : dims = (outputOf xs ys).map some := by
    apply ext_get
    · rw [← hEach.length_eq]
      simp [outputOf]
    · intro i hLess hLess'
      have hGet := (forall₂_iff_get.mp hEach).2 i (hEach.length_eq ▸ hLess) hLess
      rw [hGet]
      simp [outputOf]
  simp only [broadcastBinaryOpShapeFn, Shape.known, length_map, hDims, hSame, hOutput]
  rfl

theorem broadcastShape_invalid (hInvalid : new xs ys fewerDims = none) (s : Shape) :
    broadcastBinaryOpShapeFn (.known xs) (.known ys) ≠ .ok s := by
  obtain ⟨p, hMem, hNot⟩ := (new_eq_none_iff xs ys fewerDims).mp hInvalid
  intro hOk
  simp only [broadcastBinaryOpShapeFn, Shape.known, length_map, bind_eq_ok] at hOk
  obtain ⟨dims, hDims, -⟩ := hOk
  obtain ⟨i, hLess, hGet⟩ := getElem_of_mem hMem
  obtain ⟨hLeft, hRight⟩ := getElem?_zip_eq_some.mp
    ((getElem?_eq_getElem hLess).trans (congrArg some hGet))
  have hEach := forall₂_iff_get.mp (mapM_eq_ok.mp hDims)
  have hRange : i < (range (max xs.length ys.length)).length := by
    rw [pairs, length_zip, length_padded (Nat.le_max_left _ _),
      length_padded (Nat.le_max_right _ _)] at hLess
    simpa using hLess
  have hStep := hEach.2 i hRange (hEach.1 ▸ hRange)
  simp only [get_eq_getElem, getElem_range] at hStep
  rw [paddedDim_known hLeft, paddedDim_known hRight] at hStep
  have hKnown := broadcastDim_known p.1 p.2 (i < max xs.length ys.length - ys.length)
    (fun hOne => one_of_padding hRight (of_decide_eq_true hOne))
  rw [if_neg hNot] at hKnown
  obtain ⟨e, hError⟩ := hKnown
  rw [hError] at hStep
  cases hStep

/-- On known shapes the shape function succeeds when the kernel does, and infers its output
shape. On partial shapes what it infers holds for all completions that the kernel takes,
and it fails only if the kernel takes none. -/
theorem broadcastShape_agrees (fewerDims : Bool) :
    (∀ xs ys : List Nat,
      ((∃ s, broadcastBinaryOpShapeFn (.known xs) (.known ys) = .ok s) ↔
        (new xs ys fewerDims).isSome) ∧
      ∀ b s, new xs ys fewerDims = some b →
        broadcastBinaryOpShapeFn (.known xs) (.known ys) = .ok s → s = .known b.output) ∧
    ∀ sx sy : Shape,
      (∀ s, broadcastBinaryOpShapeFn sx sy = .ok s → ∀ xs ys b, sx.Completes xs → sy.Completes ys →
        new xs ys fewerDims = some b → s.Completes b.output) ∧
      ∀ e, broadcastBinaryOpShapeFn sx sy = .error e → ∀ xs ys, sx.Completes xs → sy.Completes ys →
        new xs ys fewerDims = none := by
  constructor
  · intro xs ys
    constructor
    · constructor
      · rintro ⟨s, hOk⟩
        cases hNew : new xs ys fewerDims with
        | none => exact absurd hOk (broadcastShape_invalid hNew s)
        | some b => rfl
      · intro hSome
        obtain ⟨b, hNew⟩ := Option.isSome_iff_exists.mp hSome
        exact ⟨_, broadcastShape_known hNew⟩
    · intro b s hNew hOk
      exact (Except.ok.inj ((broadcastShape_known hNew).symm.trans hOk)).symm
  · intro sx sy
    constructor
    · intro s hOk xs ys b hx hy hNew
      obtain ⟨s', hOk', hCompletes⟩ := broadcastShape_sound hx hy hNew
      rw [hOk] at hOk'
      exact Except.ok.inj hOk' ▸ hCompletes
    · intro e hError xs ys hx hy
      cases hNew : new xs ys fewerDims with
      | none => rfl
      | some b =>
        obtain ⟨s, hOk, -⟩ := broadcastShape_sound hx hy hNew
        rw [hError] at hOk
        cases hOk

example : broadcastBinaryOpShapeFn (some [none, some 3]) (some [some 5, some 1, none]) =
    .ok (some [some 5, none, some 3]) := rfl

end Inferred

end TensorFlowOnSpark.Framework
