import TensorFlowOnSpark.Util.FastParseExample

/-!
# What one example says

The loops of `FastParseSerializedExample` without the outputs that they write to: the
values found for each feature, or the first complaint.
-/

namespace TensorFlowOnSpark.Util

open Parsed List Option LimitedArraySlice Nat

universe u v

section Lists

variable {α : Type u} {β : Type v}

theorem zipWith_set_right {γ : Type*} (g : α → β → γ) (xs : List α) (ys : List β) (d : Nat) (x : α)
    (y : β) (hx : xs[d]? = some x) :
    zipWith g xs (ys.set d y) = (zipWith g xs ys).set d (g x y) := by
  induction xs generalizing ys d with
  | nil => cases hx
  | cons x' xs ih =>
    cases ys with
    | nil => rfl
    | cons y' ys =>
      cases d with
      | zero =>
        rw [getElem?_cons_zero, some_inj] at hx
        subst hx
        rfl
      | succ d =>
        simp only [set_cons_succ, zipWith_cons_cons, ih ys d hx]

theorem length_copyN {out source : List α} {start : Nat} (h : start + source.length ≤ out.length) :
    (copyN out start source).length = out.length := by
  simp only [copyN, length_append, length_take, length_drop]
  omega

end Lists

structure Index where
  reader : Wire.Reader
  config : Config
  find : UInt64 → Option Slot
  hasher : Text → UInt64

inductive Trouble where
  | couldNotParse
  | unsupportedDatatype
  | example (key : Text) (complaint : Complaint)
  | required (feature : Text)
  | shouldNotHappen
deriving DecidableEq

structure Found where
  dense : List (Option (List Value))
  sparse : List (Option (List Value))
deriving DecidableEq

structure Summary where
  rows : List (List Value)
  lists : List (List Value)
deriving DecidableEq

namespace Dense

def read (cfg : Dense) (io : Wire.Reader) (dtype : DataType) (feature : Feature) :
    Except Complaint (List Value) :=
  if dtype ≠ cfg.dtype then
    .error (.typesDiffer (dataTypeString dtype) (dataTypeString cfg.dtype))
  else
    match feature.parseList io cfg.dtype with
    | none => .error .cannotParse
    | some values =>
      if values.length ≠ cfg.numElements then
        .error (.wrongCount (typeString cfg.dtype) values.length cfg.shape)
      else .ok values

def row (cfg : Dense) : Option (List Value) → Except Trouble (List Value)
  | some values => .ok values
  | none =>
    if cfg.defaultValue.length = 0 then .error (.required cfg.featureName) else .ok cfg.defaultValue

end Dense

namespace Sparse

def read (cfg : Sparse) (io : Wire.Reader) (dtype : DataType) (feature : Feature) :
    Except Complaint (List Value) :=
  if dtype ≠ .invalid ∧ dtype ≠ cfg.dtype then
    .error (.sparseTypesDiffer (dataTypeString cfg.dtype))
  else
    match if dtype = .invalid then some [] else feature.parseList io cfg.dtype with
    | none => .error .cannotParse
    | some values => .ok values

end Sparse

namespace Index

variable (x : Index)

def lookDense (f : Found) (d : Nat) (cfg : Dense) (name : Text) (dtype : DataType)
    (feature : Feature) : Except Trouble Found :=
  if dtype = .invalid ∨ ((f.dense[d]?).join).isSome then .ok f
  else
    match cfg.read x.reader dtype feature with
    | .error complaint => .error (.example name complaint)
    | .ok values => .ok { f with dense := f.dense.set d (some values) }

def lookSparse (f : Found) (d : Nat) (cfg : Sparse) (name : Text) (dtype : DataType)
    (feature : Feature) : Except Trouble Found :=
  if ((f.sparse[d]?).join).isSome then .ok f
  else
    match cfg.read x.reader dtype feature with
    | .error complaint => .error (.example name complaint)
    | .ok values => .ok { f with sparse := f.sparse.set d (some values) }

def look (f : Found) (entry : FeatureMapEntry) : Except Trouble Found :=
  match x.find (x.hasher entry.name) with
  | none => .ok f
  | some (.dense d) =>
    match x.config.dense[d]? with
    | none => .error .shouldNotHappen
    | some cfg =>
      if entry.name ≠ cfg.featureName then .ok f
      else
        match entry.feature.parseDataType with
        | none => .error .unsupportedDatatype
        | some (dtype, feature) => x.lookDense f d cfg entry.name dtype feature
  | some (.sparse d) =>
    match x.config.sparse[d]? with
    | none => .error .shouldNotHappen
    | some cfg =>
      if entry.name ≠ cfg.featureName then .ok f
      else
        match entry.feature.parseDataType with
        | none => .error .unsupportedDatatype
        | some (dtype, feature) => x.lookSparse f d cfg entry.name dtype feature

def nothing : Found := ⟨x.config.dense.map fun _ => none, x.config.sparse.map fun _ => none⟩

def rows : List Dense → List (Option (List Value)) → Except Trouble (List (List Value))
  | cfg :: dense, found :: rest => do
    let row ← cfg.row found
    let more ← rows dense rest
    return row :: more
  | _, _ => .ok []

def summarize (f : Found) : Except Trouble Summary := do
  let rows ← rows x.config.dense f.dense
  return ⟨rows, f.sparse.map fun found => found.getD []⟩

def summary (serialized : Text) : Except Trouble Summary := do
  let some entries := parseExample x.reader serialized | throw .couldNotParse
  let found ← entries.reverse.foldlM x.look x.nothing
  x.summarize found

end Index

namespace SparseBuffer

def add (buffer : SparseBuffer) (values : List Value) : SparseBuffer where
  values := buffer.values ++ values
  exampleEndIndices := buffer.exampleEndIndices ++ [(buffer.values ++ values).length]

def Closed (buffer : SparseBuffer) : Prop :=
  buffer.exampleEndIndices.getLast?.getD 0 = buffer.values.length

theorem add_closed (buffer : SparseBuffer) (values : List Value) : (buffer.add values).Closed := by
  simp only [Closed, add, getLast?_append, getLast?_singleton, some_or, getD_some]

end SparseBuffer

variable {d : Nat}
variable {cfg : Dense} {entry : FeatureMapEntry}

namespace Call

variable (c : Call)

def index : Index := ⟨c.reader, c.config, c.find, c.hasher⟩

@[simp] theorem index_reader : c.index.reader = c.reader := rfl

def report (serialized : Text) : Trouble → Error
  | .couldNotParse => .couldNotParse serialized
  | .unsupportedDatatype => .unsupportedDatatype
  | .example key complaint => c.exampleError key complaint
  | .required feature => .required c.exampleName feature
  | .shouldNotHappen => .shouldNotHappen

def writeRow (out row : List Value) : List Value := copyN out (c.exampleIndex * row.length) row

def shown (dense : List (List Value)) (sparse : List SparseBuffer) (f : Found) : Progress where
  denseLast := f.dense.map fun found => if found.isSome then c.exampleIndex else -1
  sparseLast := f.sparse.map fun found => if found.isSome then c.exampleIndex else -1
  dense := zipWith (fun out found => found.elim out (c.writeRow out)) dense f.dense
  sparse := zipWith (fun out found => found.elim out out.add) sparse f.sparse

structure Fits (dense : List (List Value)) (sparse : List SparseBuffer) : Prop where
  dense_length : dense.length = c.config.dense.length
  sparse_length : sparse.length = c.config.sparse.length
  room : ∀ (d : Nat) (cfg : Dense) (out : List Value), c.config.dense[d]? = some cfg →
    dense[d]? = some out → (c.exampleIndex + 1) * cfg.numElements ≤ out.length
  closed : ∀ buffer ∈ sparse, SparseBuffer.Closed buffer

variable {c} {dense : List (List Value)} {sparse : List SparseBuffer} {f : Found}
  {serialized : Text}

theorem seen_iff (last : List (Option (List Value))) (d : Nat) :
    (last.map fun found => if found.isSome then (c.exampleIndex : Int) else -1)[d]? =
      some (c.exampleIndex : Int) ↔ ((last[d]?).join).isSome := by
  rw [getElem?_map]
  cases hFound : last[d]? with
  | none => simp
  | some found =>
    cases found with
    | none =>
      simp only [map_some, isSome_none, Bool.false_eq_true, if_false, some_inj,
        join_some, iff_false]
      omega
    | some values => simp

theorem seen_set (last : List (Option (List Value))) (d : Nat) (values : List Value) :
    (last.map fun found => if found.isSome then (c.exampleIndex : Int) else -1).set d
        (c.exampleIndex : Int) =
      (last.set d (some values)).map fun found =>
        if found.isSome then (c.exampleIndex : Int) else -1 := by
  rw [map_set]
  rfl

theorem foldl_pushBack (values : List Value) (slice : LimitedArraySlice) :
    (values.foldl pushBack slice).current = slice.current + values.length ∧
      (values.foldl pushBack slice).stop = slice.stop := by
  induction values generalizing slice with
  | nil => exact ⟨rfl, rfl⟩
  | cons value values ih =>
    obtain ⟨hCurrent, hStop⟩ := ih (slice.pushBack value)
    rw [foldl_cons, hCurrent, hStop]
    refine ⟨?_, rfl⟩
    simp only [pushBack, length_cons]
    omega

theorem foldl_pushBack_out (values : List Value) (slice : LimitedArraySlice)
    (hStop : slice.current + values.length ≤ slice.stop) (hRoom : slice.stop ≤ slice.out.length) :
    (values.foldl pushBack slice).out = copyN slice.out slice.current values := by
  induction values generalizing slice with
  | nil => simp [copyN]
  | cons value values ih =>
    rw [length_cons] at hStop
    have hPush : (slice.pushBack value).out = slice.out.set slice.current value := by
      rw [pushBack, endDistance, if_pos (by omega)]
    have hCurrent : (slice.pushBack value).current = slice.current + 1 := rfl
    rw [foldl_cons, ih, hPush, hCurrent, copyN, copyN]
    · have hLength : slice.current < slice.out.length := by omega
      have hNext : slice.current + 1 + values.length = slice.current + (values.length + 1) := by
        omega
      rw [take_set, drop_set_of_lt (by omega),
        take_succ_eq_append_getElem hLength, set_append_right _ _ (by simp)]
      simp only [length_take, min_eq_left hLength.le, Nat.sub_self, set_cons_zero,
        append_assoc, cons_append, nil_append, length_cons, hNext]
    · change slice.current + 1 + values.length ≤ slice.stop
      omega
    · rw [hPush, length_set]
      exact hRoom

theorem Fits.dense_get (h : c.Fits dense sparse) (hCfg : c.config.dense[d]? = some cfg)
    : ∃ out, dense[d]? = some out := by
  obtain ⟨hd, -⟩ := List.getElem?_eq_some_iff.mp hCfg
  rw [← h.dense_length] at hd
  exact ⟨dense[d], getElem?_eq_getElem hd⟩

theorem Fits.sparse_get (h : c.Fits dense sparse) {cfg : Sparse}
    (hCfg : c.config.sparse[d]? = some cfg) : ∃ out, sparse[d]? = some out := by
  obtain ⟨hd, -⟩ := List.getElem?_eq_some_iff.mp hCfg
  rw [← h.sparse_length] at hd
  exact ⟨sparse[d], getElem?_eq_getElem hd⟩

/-- What a call does when it finds `r` or complains. -/
def render (c : Call) (serialized : Text) (dense : List (List Value)) (sparse : List SparseBuffer) :
    Except Trouble Found → Except Error Progress
  | .error trouble => .error (c.report serialized trouble)
  | .ok f => .ok (c.shown dense sparse f)

/-- `f` has an entry for each configured feature. -/
structure Covers (c : Call) (f : Found) : Prop where
  dense_length : f.dense.length = c.config.dense.length
  sparse_length : f.sparse.length = c.config.sparse.length

theorem unseen_get {last : List (Option (List Value))} (hd : d < last.length)
    (h : ¬((last[d]?).join).isSome) : last[d]? = some none := by
  rw [getElem?_eq_getElem hd] at h ⊢
  cases hFound : last[d] with
  | none => rfl
  | some values =>
    rw [hFound] at h
    exact absurd rfl h

theorem visitDense_shown (hFits : c.Fits dense sparse) (hCovers : c.Covers f)
    (hCfg : c.config.dense[d]? = some cfg) (name : Text) (dtype : DataType) (feature : Feature) :
    c.visitDense (c.shown dense sparse f) d cfg name dtype feature =
      c.render serialized dense sparse (c.index.lookDense f d cfg name dtype feature) := by
  rw [visitDense, Index.lookDense]
  split
  · rename_i hInvalid
    rw [if_pos (Or.inl hInvalid), render]
  rename_i hValid
  have hSeen := seen_iff (c := c) f.dense d
  split
  · rename_i hLast
    rw [if_pos (Or.inr (hSeen.mp hLast)), render]
  rename_i hLast
  have hUnseen : ¬((f.dense[d]?).join).isSome := fun h => hLast (hSeen.mpr h)
  rw [if_neg (not_or.mpr ⟨hValid, hUnseen⟩), Dense.read, index_reader]
  split
  · rfl
  cases hList : feature.parseList c.reader cfg.dtype with
  | none => rfl
  | some values =>
    obtain ⟨hd, -⟩ := List.getElem?_eq_some_iff.mp hCfg
    obtain ⟨out, hOut⟩ := hFits.dense_get hCfg
    have hNone := unseen_get (by rw [hCovers.dense_length]; exact hd) hUnseen
    have hShown : (c.shown dense sparse f).dense[d]? = some out := by
      simp only [shown, getElem?_zipWith, hOut, hNone, elim_none]
    obtain ⟨hCurrent, hStop⟩ := foldl_pushBack values
      ⟨out, c.exampleIndex * cfg.numElements,
        c.exampleIndex * cfg.numElements + cfg.numElements⟩
    simp only [hShown, getD_some, endDistance, hCurrent, hStop]
    by_cases hCount : values.length = cfg.numElements
    · have hRoom := hFits.room d cfg out hCfg hOut
      have hWritten := foldl_pushBack_out values
        ⟨out, c.exampleIndex * cfg.numElements,
          c.exampleIndex * cfg.numElements + cfg.numElements⟩ (by simp only; omega)
        (by simp only; rw [add_mul, one_mul] at hRoom; exact hRoom)
      rw [if_neg (by omega), if_neg (by omega), render, hWritten, Except.ok.injEq]
      refine Progress.mk.injEq .. |>.mpr ⟨seen_set f.dense d values, rfl, ?_, rfl⟩
      rw [zipWith_set_right _ dense f.dense d out _ hOut, elim_some, writeRow, hCount]
      rfl
    · rw [if_pos (by omega), if_pos (by omega)]
      congr 3
      omega

theorem visitSparse_shown (hFits : c.Fits dense sparse) (hCovers : c.Covers f) {cfg : Sparse}
    (hCfg : c.config.sparse[d]? = some cfg) (name : Text) (dtype : DataType) (feature : Feature) :
    c.visitSparse (c.shown dense sparse f) d cfg name dtype feature =
      c.render serialized dense sparse (c.index.lookSparse f d cfg name dtype feature) := by
  rw [visitSparse, Index.lookSparse]
  have hSeen := seen_iff (c := c) f.sparse d
  split
  · rename_i hLast
    rw [if_pos (hSeen.mp hLast), render]
  rename_i hLast
  have hUnseen : ¬((f.sparse[d]?).join).isSome := fun h => hLast (hSeen.mpr h)
  rw [Sparse.read, index_reader]
  split
  · rfl
  cases hValues : (if dtype = .invalid then some [] else feature.parseList c.reader cfg.dtype) with
  | none => rfl
  | some values =>
    obtain ⟨hd, -⟩ := List.getElem?_eq_some_iff.mp hCfg
    obtain ⟨out, hOut⟩ := hFits.sparse_get hCfg
    have hNone := unseen_get (by rw [hCovers.sparse_length]; exact hd) hUnseen
    have hShown : (c.shown dense sparse f).sparse[d]? = some out := by
      simp only [shown, getElem?_zipWith, hOut, hNone, elim_none]
    simp only [hShown, getD_some, render, Except.ok.injEq]
    refine Progress.mk.injEq .. |>.mpr ⟨rfl, seen_set f.sparse d values, rfl, ?_⟩
    rw [zipWith_set_right _ sparse f.sparse d out _ hOut, elim_some, SparseBuffer.add]
    rfl

theorem visit_shown (serialized : Text) (hFits : c.Fits dense sparse) (hCovers : c.Covers f)
    (entry : FeatureMapEntry) :
    c.visit (c.shown dense sparse f) entry =
      c.render serialized dense sparse (c.index.look f entry) := by
  change (match c.find (c.hasher entry.name) with
      | none => _ | some (.dense d) => _ | some (.sparse d) => _) =
    c.render serialized dense sparse
      (match c.find (c.hasher entry.name) with
        | none => _ | some (.dense d) => _ | some (.sparse d) => _)
  cases c.find (c.hasher entry.name) with
  | none => rfl
  | some slot =>
    cases slot with
    | dense d =>
      change (match c.config.dense[d]? with | none => _ | some cfg => _) =
        c.render serialized dense sparse (match c.config.dense[d]? with | none => _ | some cfg => _)
      cases hCfg : c.config.dense[d]? with
      | none => rfl
      | some cfg =>
        simp only
        split
        · rfl
        cases entry.feature.parseDataType with
        | none => rfl
        | some typed => exact visitDense_shown hFits hCovers hCfg entry.name typed.1 typed.2
    | sparse d =>
      change (match c.config.sparse[d]? with | none => _ | some cfg => _) =
        c.render serialized dense sparse
          (match c.config.sparse[d]? with | none => _ | some cfg => _)
      cases hCfg : c.config.sparse[d]? with
      | none => rfl
      | some cfg =>
        simp only
        split
        · rfl
        cases entry.feature.parseDataType with
        | none => rfl
        | some typed => exact visitSparse_shown hFits hCovers hCfg entry.name typed.1 typed.2

theorem look_covers (hCovers : c.Covers f) {f' : Found} (h : c.index.look f entry = .ok f')
    : c.Covers f' := by
  have hDense : ∀ d values, c.Covers { f with dense := f.dense.set d values } := fun d values =>
    ⟨(length_set ..).trans hCovers.dense_length, hCovers.sparse_length⟩
  have hSparse : ∀ d values, c.Covers { f with sparse := f.sparse.set d values } := fun d values =>
    ⟨hCovers.dense_length, (length_set ..).trans hCovers.sparse_length⟩
  rw [Index.look] at h
  split at h
  · cases h
    exact hCovers
  · split at h
    · cases h
    split at h
    · cases h
      exact hCovers
    split at h
    · cases h
    rw [Index.lookDense] at h
    split at h
    · cases h
      exact hCovers
    split at h
    · cases h
    · cases h
      exact hDense _ _
  · split at h
    · cases h
    split at h
    · cases h
      exact hCovers
    split at h
    · cases h
    rw [Index.lookSparse] at h
    split at h
    · cases h
      exact hCovers
    split at h
    · cases h
    · cases h
      exact hSparse _ _

theorem foldlM_covers (entries : List FeatureMapEntry) {f' : Found} (hCovers : c.Covers f)
    (h : entries.foldlM c.index.look f = .ok f') : c.Covers f' := by
  induction entries generalizing f with
  | nil =>
    cases h
    exact hCovers
  | cons entry entries ih =>
    rw [foldlM_cons] at h
    cases hLook : c.index.look f entry with
    | error trouble =>
      rw [hLook] at h
      cases h
    | ok next =>
      rw [hLook] at h
      exact ih (look_covers hCovers hLook) h

theorem foldlM_shown (serialized : Text) (hFits : c.Fits dense sparse)
    (entries : List FeatureMapEntry)
    (hCovers : c.Covers f) :
    entries.foldlM c.visit (c.shown dense sparse f) =
      c.render serialized dense sparse (entries.foldlM c.index.look f) := by
  induction entries generalizing f with
  | nil => rfl
  | cons entry entries ih =>
    rw [foldlM_cons, foldlM_cons, visit_shown serialized hFits hCovers]
    cases hLook : c.index.look f entry with
    | error trouble => rfl
    | ok next => exact ih (look_covers hCovers hLook)

/-- The rows from the `k`-th feature on are completed by the loop over missing dense features. -/
theorem missingDense_foldlM (serialized : Text) (configs : List Dense) (p : Progress)
    (done : List (List Value))
    (outs : List (List Value)) (founds : List (Option (List Value)))
    (hOuts : outs.length = configs.length) (hFounds : founds.length = configs.length)
    (hLast : ∀ i, i < configs.length → p.denseLast[done.length + i]? =
      (founds.map fun found => if found.isSome then (c.exampleIndex : Int) else -1)[i]?)
    (hDense : p.dense = done ++
      zipWith (fun out found => found.elim out (c.writeRow out)) outs founds) :
    (configs.zipIdx done.length).foldlM (fun p (cfg, d) => c.missingDense p d cfg) p =
      match Index.rows configs founds with
      | .error trouble => .error (c.report serialized trouble)
      | .ok rows => .ok { p with dense := done ++ zipWith c.writeRow outs rows } := by
  induction configs generalizing p done outs founds with
  | nil =>
    obtain rfl := eq_nil_of_length_eq_zero hOuts
    rw [zipWith_nil_left] at hDense
    simp only [zipWith_nil_left, ← hDense]
    rfl
  | cons cfg configs ih =>
    obtain ⟨out, outs, rfl⟩ := exists_cons_of_length_eq_add_one hOuts
    obtain ⟨found, founds, rfl⟩ := exists_cons_of_length_eq_add_one hFounds
    rw [length_cons, length_cons, add_right_cancel_iff] at hOuts hFounds
    have hHere := hLast 0 (by simp)
    rw [add_zero, map_cons, getElem?_cons_zero] at hHere
    have hNext : ∀ (q : Progress) (row : List Value), q.denseLast = p.denseLast →
        q.sparseLast = p.sparseLast → q.sparse = p.sparse →
        q.dense = (done ++ [c.writeRow out row]) ++
          zipWith (fun out found => found.elim out (c.writeRow out)) outs founds →
        (configs.zipIdx (done.length + 1)).foldlM (fun p (cfg, d) => c.missingDense p d cfg) q =
          match Index.rows configs founds with
          | .error trouble => .error (c.report serialized trouble)
          | .ok rows => .ok { p with
              dense := done ++ (c.writeRow out row :: zipWith c.writeRow outs rows) } := by
      intro q row hSame hSameSparse hSameBuffers hRows
      have hRest := ih q (done ++ [c.writeRow out row]) outs founds hOuts hFounds
        (fun i hi => by
          rw [length_append, length_singleton]
          have hMore := hLast (i + 1) (by simpa using hi)
          rw [map_cons, getElem?_cons_succ] at hMore
          rw [← hMore]
          congr 1
          omega) hRows
      rw [length_append, length_singleton] at hRest
      rw [hRest]
      cases Index.rows configs founds with
      | error trouble => rfl
      | ok rows =>
        simp only [hSame, hSameSparse, hSameBuffers, append_assoc, cons_append, nil_append]
    change (c.missingDense p done.length cfg >>= _) = _
    rw [missingDense, hHere]
    cases found with
    | some values =>
      rw [isSome_some, if_pos rfl, if_pos rfl]
      have hRest := hNext p values rfl rfl rfl (by
        rw [hDense, append_assoc]
        rfl)
      rw [Index.rows]
      refine hRest.trans ?_
      cases Index.rows configs founds <;> rfl
    | none =>
      rw [Index.rows, Dense.row]
      by_cases hDefault : cfg.defaultValue.length = 0
      · rw [if_pos hDefault, if_pos hDefault]
        rfl
      · rw [if_neg hDefault, if_neg hDefault]
        have hGet : p.dense[done.length]? = some out := by
          rw [hDense, getElem?_append_right le_rfl, Nat.sub_self]
          rfl
        rw [hGet]
        refine (hNext { p with dense := p.dense.set done.length (c.writeRow out cfg.defaultValue) }
          cfg.defaultValue rfl rfl rfl ?_).trans ?_
        · rw [hDense, set_append_right _ _ le_rfl, Nat.sub_self, append_assoc]
          rfl
        · cases Index.rows configs founds <;> rfl

theorem add_nil (buffer : SparseBuffer) (h : buffer.Closed) :
    SparseBuffer.mk buffer.values
      (buffer.exampleEndIndices ++ [buffer.exampleEndIndices.getLast?.getD 0]) = buffer.add [] := by
  rw [SparseBuffer.add, append_nil, h]

/-- The buffers from the `k`-th feature on are completed by the loop over missing sparse
features. -/
theorem missingSparse_foldl (p : Progress) (done outs : List SparseBuffer)
    (founds : List (Option (List Value))) (hFounds : founds.length = outs.length)
    (hClosed : ∀ out ∈ outs, SparseBuffer.Closed out)
    (hLast : ∀ i, i < outs.length → p.sparseLast[done.length + i]? =
      (founds.map fun found => if found.isSome then (c.exampleIndex : Int) else -1)[i]?)
    (hSparse : p.sparse = done ++
      zipWith (fun out found => found.elim out out.add) outs founds) :
    (range' done.length outs.length).foldl c.missingSparse p =
      { p with sparse := done ++
          zipWith (fun out found => out.add (found.getD [])) outs founds } := by
  induction outs generalizing p done founds with
  | nil =>
    rw [zipWith_nil_left, append_nil] at hSparse
    rw [zipWith_nil_left, append_nil, ← hSparse]
    rfl
  | cons out outs ih =>
    obtain ⟨found, founds, rfl⟩ := exists_cons_of_length_eq_add_one hFounds
    rw [length_cons, length_cons, add_right_cancel_iff] at hFounds
    have hHere := hLast 0 (by simp)
    rw [add_zero, map_cons, getElem?_cons_zero] at hHere
    have hStep : c.missingSparse p done.length = ⟨p.denseLast, p.sparseLast, p.dense,
        (done ++ [out.add (found.getD [])]) ++
          zipWith (fun out found => found.elim out out.add) outs founds⟩ := by
      rw [missingSparse, hHere]
      cases found with
      | some values =>
        rw [isSome_some, if_pos rfl, if_pos rfl, append_assoc]
        exact congrArg (fun sparse => { p with sparse := sparse }) hSparse
      | none =>
        have hGet : p.sparse[done.length]? = some out := by
          rw [hSparse, getElem?_append_right le_rfl, Nat.sub_self]
          rfl
        rw [hGet]
        simp only [getD_some]
        rw [add_nil out (hClosed out (mem_cons_self ..)), hSparse,
          set_append_right _ _ le_rfl, Nat.sub_self, append_assoc]
        rfl
    rw [length_cons, range'_succ, foldl_cons, hStep]
    have hRest := ih ⟨p.denseLast, p.sparseLast, p.dense, (done ++ [out.add (found.getD [])]) ++
        zipWith (fun out found => found.elim out out.add) outs founds⟩
      (done ++ [out.add (found.getD [])]) founds hFounds
      (fun out hMem => hClosed out (mem_cons_of_mem _ hMem))
      (fun i hi => by
        rw [length_append, length_singleton]
        have hMore := hLast (i + 1) (by simpa using hi)
        rw [map_cons, getElem?_cons_succ] at hMore
        rw [← hMore]
        congr 1
        omega) rfl
    rw [length_append, length_singleton] at hRest
    rw [hRest, zipWith_cons_cons, Progress.mk.injEq]
    exact ⟨rfl, rfl, rfl, by rw [append_assoc, singleton_append]⟩

theorem covers_nothing (c : Call) : c.Covers c.index.nothing :=
  ⟨length_map .., length_map ..⟩

theorem zipWith_replicate_none {α β : Type*} {γ : Type*} (g : α → Option γ → α) (xs : List α)
    (ys : List β) (hLength : xs.length = ys.length) (h : ∀ x, g x none = x) :
    zipWith g xs (ys.map fun _ => none) = xs := by
  induction xs generalizing ys with
  | nil => rfl
  | cons x xs ih =>
    obtain ⟨y, ys, rfl⟩ := exists_cons_of_length_eq_add_one hLength.symm
    rw [map_cons, zipWith_cons_cons, h,
      ih ys (by simpa using hLength)]

theorem shown_nothing (hFits : c.Fits dense sparse) :
    c.shown dense sparse c.index.nothing =
      ⟨c.config.dense.map fun _ => -1, c.config.sparse.map fun _ => -1, dense, sparse⟩ := by
  rw [shown, Index.nothing, Progress.mk.injEq]
  refine ⟨by rw [List.map_map]; rfl, by rw [List.map_map]; rfl, ?_, ?_⟩
  · exact zipWith_replicate_none _ dense c.config.dense hFits.dense_length fun _ => rfl
  · exact zipWith_replicate_none _ sparse c.config.sparse hFits.sparse_length fun _ => rfl

/-- A call writes the rows of its example and adds its lists to the buffers. -/
theorem fastParseSerializedExample_eq (c : Call) (serialized : Text) {dense : List (List Value)}
    {sparse : List SparseBuffer} (hFits : c.Fits dense sparse) :
    c.fastParseSerializedExample serialized dense sparse =
      match c.index.summary serialized with
      | .error trouble => .error (c.report serialized trouble)
      | .ok summary => .ok (zipWith c.writeRow dense summary.rows,
          zipWith SparseBuffer.add sparse summary.lists) := by
  rw [fastParseSerializedExample, Index.summary, index_reader]
  cases parseExample c.reader serialized with
  | none => rfl
  | some entries =>
    simp only
    rw [← shown_nothing hFits, foldlM_shown serialized hFits entries.reverse (covers_nothing c)]
    cases hFound : entries.reverse.foldlM c.index.look c.index.nothing with
    | error trouble => rfl
    | ok f =>
      have hCovers := foldlM_covers entries.reverse (covers_nothing c) hFound
      have hDense := missingDense_foldlM serialized c.config.dense
        (c.shown dense sparse f) [] dense f.dense hFits.dense_length hCovers.dense_length
        (fun i _ => by rw [length_nil, zero_add]; rfl) rfl
      rw [length_nil] at hDense
      simp only [render, bind, Except.bind] at hDense ⊢
      rw [hDense, Index.summarize]
      cases hRows : Index.rows c.config.dense f.dense with
      | error trouble =>
        have hRows' : Index.rows c.index.config.dense f.dense = .error trouble := hRows
        rw [hRows']
        rfl
      | ok rows =>
        have hRows' : Index.rows c.index.config.dense f.dense = .ok rows := hRows
        have hSparse := missingSparse_foldl (c := c)
          { c.shown dense sparse f with dense := [] ++ zipWith c.writeRow dense rows }
          [] sparse f.sparse (hCovers.sparse_length.trans hFits.sparse_length.symm) hFits.closed
          (fun i _ => by rw [length_nil, zero_add]; rfl) rfl
        rw [length_nil, ← range_eq_range', hFits.sparse_length] at hSparse
        rw [hRows']
        change Except.ok (Progress.dense _, Progress.sparse _) = _
        rw [hSparse]
        simp only [nil_append, pure, Except.pure, bind, Except.bind]
        rw [zipWith_map_right]

end Call

namespace Index

variable {x : Index} {f : Found}

def Sized (x : Index) (f : Found) : Prop :=
  ∀ (d : Nat) (cfg : Dense) (values : List Value), x.config.dense[d]? = some cfg →
    f.dense[d]? = some (some values) → values.length = cfg.numElements

theorem sized_nothing : x.Sized x.nothing := by
  intro d cfg values _ hFound
  rw [nothing, getElem?_map] at hFound
  obtain ⟨_, -, hNone⟩ := map_eq_some_iff.mp hFound
  cases hNone

variable {dtype : DataType} {feature : Feature} {f' : Found}

theorem length_of_read {values : List Value} (h : cfg.read x.reader dtype feature = .ok values)
    : values.length = cfg.numElements := by
  rw [Dense.read] at h
  split at h
  · cases h
  split at h
  · cases h
  split at h
  · cases h
  · rename_i hCount
    cases h
    exact Decidable.not_not.mp hCount

theorem lookDense_sized (hSized : x.Sized f) (hCfg : x.config.dense[d]? = some cfg) {name : Text}
    (h : x.lookDense f d cfg name dtype feature = .ok f') : x.Sized f' := by
  rw [lookDense] at h
  split at h
  · cases h
    exact hSized
  split at h
  · cases h
  rename_i values hRead
  cases h
  intro d' cfg' values' hCfg' hFound
  rw [getElem?_set] at hFound
  split at hFound
  · rename_i hSame
    subst hSame
    split at hFound
    · cases hFound
      rw [hCfg] at hCfg'
      cases hCfg'
      exact length_of_read hRead
    · cases hFound
  · exact hSized d' cfg' values' hCfg' hFound

theorem lookSparse_dense {cfg : Sparse} {name : Text}
    (h : x.lookSparse f d cfg name dtype feature = .ok f') : f'.dense = f.dense := by
  rw [lookSparse] at h
  split at h
  · cases h
    rfl
  split at h
  · cases h
  · cases h
    rfl

theorem look_sized (hSized : x.Sized f) (h : x.look f entry = .ok f') : x.Sized f' := by
  rw [look] at h
  split at h
  · cases h
    exact hSized
  · split at h
    · cases h
    rename_i cfg hCfg
    split at h
    · cases h
      exact hSized
    split at h
    · cases h
    · exact lookDense_sized hSized hCfg h
  · split at h
    · cases h
    split at h
    · cases h
      exact hSized
    split at h
    · cases h
    · rw [Sized, lookSparse_dense h]
      exact hSized

theorem foldlM_sized (entries : List FeatureMapEntry) (hSized : x.Sized f)
    (h : entries.foldlM x.look f = .ok f') : x.Sized f' := by
  induction entries generalizing f with
  | nil =>
    cases h
    exact hSized
  | cons entry entries ih =>
    rw [foldlM_cons] at h
    cases hLook : x.look f entry with
    | error trouble =>
      rw [hLook] at h
      cases h
    | ok next =>
      rw [hLook] at h
      exact ih (look_sized hSized hLook) h

theorem rows_spec {configs : List Dense} {founds : List (Option (List Value))}
    {rows : List (List Value)} (hLength : founds.length = configs.length)
    (h : Index.rows configs founds = .ok rows) :
    rows.length = configs.length ∧ ∀ (d : Nat) (cfg : Dense) (row : List Value),
      configs[d]? = some cfg → rows[d]? = some row →
        founds[d]? = some (some row) ∨ (row = cfg.defaultValue ∧ cfg.defaultValue ≠ []) := by
  induction configs generalizing founds rows with
  | nil =>
    cases h
    refine ⟨rfl, ?_⟩
    rintro d cfg row hCfg -
    cases hCfg
  | cons cfg configs ih =>
    obtain ⟨found, founds, rfl⟩ := exists_cons_of_length_eq_add_one hLength
    rw [Index.rows] at h
    cases hRow : cfg.row found with
    | error trouble =>
      rw [hRow] at h
      cases h
    | ok row =>
      cases hMore : Index.rows configs founds with
      | error trouble =>
        rw [hRow, hMore] at h
        cases h
      | ok more =>
        rw [hRow, hMore] at h
        cases h
        obtain ⟨hCount, hRows⟩ := ih (by simpa using hLength) hMore
        refine ⟨by rw [length_cons, length_cons, hCount], ?_⟩
        intro d cfg' row' hCfg' hRow'
        cases d with
        | succ d => exact hRows d cfg' row' hCfg' hRow'
        | zero =>
          cases hCfg'
          cases hRow'
          cases found with
          | some values =>
            cases hRow
            exact .inl rfl
          | none =>
            rw [Dense.row] at hRow
            split at hRow
            · cases hRow
            · rename_i hDefault
              cases hRow
              exact .inr ⟨rfl, fun hNil => hDefault (by rw [hNil, length_nil])⟩

def Defaulted (config : Config) : Prop :=
  ∀ cfg ∈ config.dense, cfg.defaultValue = [] ∨ cfg.defaultValue.length = cfg.numElements

structure SummarySized (x : Index) (summary : Summary) : Prop where
  rows_length : summary.rows.length = x.config.dense.length
  row_length : ∀ (d : Nat) (cfg : Dense) (row : List Value), x.config.dense[d]? = some cfg →
    summary.rows[d]? = some row → row.length = cfg.numElements
  lists_length : summary.lists.length = x.config.sparse.length

theorem summary_sized (hDefaults : Defaulted x.config) {serialized : Text} {summary : Summary}
    (h : x.summary serialized = .ok summary) : x.SummarySized summary := by
  rw [Index.summary] at h
  cases hEntries : parseExample x.reader serialized with
  | none =>
    rw [hEntries] at h
    cases h
  | some entries =>
    rw [hEntries] at h
    simp only at h
    cases hFound : entries.reverse.foldlM x.look x.nothing with
    | error trouble =>
      rw [hFound] at h
      cases h
    | ok f =>
      rw [hFound] at h
      have hSized := foldlM_sized _ sized_nothing hFound
      have hCovers := Call.foldlM_covers (c := ⟨x.reader, x.config, x.find, x.hasher, [], 0⟩) _
        (Call.covers_nothing _) hFound
      change x.summarize f = .ok summary at h
      rw [summarize] at h
      cases hRows : rows x.config.dense f.dense with
      | error trouble =>
        rw [hRows] at h
        cases h
      | ok rows =>
        rw [hRows] at h
        cases h
        obtain ⟨hCount, hEach⟩ := rows_spec hCovers.dense_length hRows
        refine ⟨hCount, ?_, (length_map ..).trans hCovers.sparse_length⟩
        intro d cfg row hCfg hRow
        rcases hEach d cfg row hCfg hRow with hValues | ⟨rfl, hSet⟩
        · exact hSized d cfg row hCfg hValues
        · exact (hDefaults cfg (mem_of_getElem? hCfg)).resolve_left hSet

end Index

end TensorFlowOnSpark.Util
