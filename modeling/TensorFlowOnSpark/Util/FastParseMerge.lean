import TensorFlowOnSpark.Util.FastParseBatches
import Mathlib.Data.List.Forall2

/-!
# Merged minibatches

When all tasks have ended well, the outputs list the values of the examples in their
order, and they do so under every schedule.
-/

namespace TensorFlowOnSpark.Util

open Parsed List Option Batch Nat
open Transition (Outcome Reach anyStep)

universe u

/-- The end indices of lists that follow `k` values. -/
def ends (k : Nat) : List (List Value) → List Nat
  | [] => []
  | list :: lists => (k + list.length) :: ends (k + list.length) lists

theorem foldl_add (lists : List (List Value)) (buffer : SparseBuffer) :
    lists.foldl SparseBuffer.add buffer = ⟨buffer.values ++ lists.flatten,
      buffer.exampleEndIndices ++ ends buffer.values.length lists⟩ := by
  induction lists generalizing buffer with
  | nil => simp [ends]
  | cons list lists ih =>
    rw [foldl_cons, ih]
    simp [SparseBuffer.add, ends]

theorem exampleSizes_ends (lists : List (List Value)) (k : Nat) :
    exampleSizes k (ends k lists) = lists.map length := by
  induction lists generalizing k with
  | nil => rfl
  | cons list lists ih =>
    rw [ends, exampleSizes, ih, map_cons, Nat.add_sub_cancel_left]

theorem getLast_ends (lists : List (List Value)) (k : Nat) :
    (ends k lists).getLast?.getD k = k + lists.flatten.length := by
  induction lists generalizing k with
  | nil => rfl
  | cons list lists ih =>
    have hRest := ih (k + list.length)
    rw [ends, getLast?_cons, getD_some, hRest, flatten_cons, length_append, add_assoc]

def cells (e count : Nat) : List (Nat × Nat) := (range count).map fun feature => (e, feature)

theorem bufferIndices_ends (list : Nat → List Value) (first count k : Nat) :
    bufferIndices first k (ends k ((range' first count).map list)) =
      ((range' first count).flatMap fun e => cells e (list e).length,
        k + ((range' first count).flatMap list).length) := by
  induction count generalizing first k with
  | zero => rfl
  | succ count ih =>
    rw [range'_succ, map_cons, ends, bufferIndices, max_eq_right (le_add_right _ _), ih,
      flatMap_cons, flatMap_cons, length_append, Nat.add_sub_cancel_left, add_assoc]
    rfl

variable {α : Type u}

theorem copyN_copyN {out a b : List α} {start : Nat} (h : start + a.length ≤ out.length) :
    copyN (copyN out start a) (start + a.length) b = copyN out start (a ++ b) := by
  have hTake : (out.take start).length = start := by
    rw [length_take]
    omega
  have hDone : (out.take start ++ a).length = start + a.length := by
    rw [length_append, hTake]
  rw [copyN, copyN, copyN, take_left' hDone, ← append_assoc]
  congr 1
  rw [drop_append, hDone, length_append,
    drop_eq_nil_of_le (by rw [hDone]; omega), nil_append, drop_drop]
  congr 1
  omega

theorem copyN_all {out source : List α} (h : source.length = out.length) :
    copyN out 0 source = source := by
  rw [copyN, take_zero, nil_append, zero_add, h, drop_length, append_nil]

section Merge

variable {firstExample : Nat → Nat}

structure Lists (firstExample : Nat → Nat) (buffer : SparseBuffer × Nat)
    (indices : List (Nat × Nat)) (values : List Value) : Prop where
  indices_eq : bufferIndices (firstExample buffer.2) 0 buffer.1.exampleEndIndices =
    (indices, values.length)
  values_eq : buffer.1.values = values
  length_eq : indices.length = values.length

theorem foldl_mergeBuffer (indices : SparseBuffer × Nat → List (Nat × Nat))
    (values : SparseBuffer × Nat → List Value) (buffers : List (SparseBuffer × Nat))
    (hLists : ∀ buffer ∈ buffers, Lists firstExample buffer (indices buffer) (values buffer))
    (out : SparseOutput) (offset : Nat)
    (hIndices : offset + (buffers.flatMap values).length ≤ out.indices.length)
    (hValues : offset + (buffers.flatMap values).length ≤ out.values.length) :
    (buffers.foldl (mergeBuffer firstExample) (out, offset)).1 =
      { out with
          indices := copyN out.indices offset (buffers.flatMap indices)
          values := copyN out.values offset (buffers.flatMap values) } := by
  induction buffers generalizing out offset with
  | nil => simp [copyN]
  | cons buffer buffers ih =>
    obtain ⟨hFirst, hSame, hCount⟩ := hLists buffer (mem_cons_self ..)
    rw [flatMap_cons, length_append] at hIndices hValues
    have hStep : mergeBuffer firstExample (out, offset) buffer =
        ({ out with
            indices := copyN out.indices offset (indices buffer)
            values := copyN out.values offset (values buffer) },
          offset + (values buffer).length) := by
      rw [mergeBuffer]
      simp only [hFirst, hSame]
    rw [foldl_cons, hStep, ih (fun other hMem => hLists other (mem_cons_of_mem _ hMem))]
    · simp only [flatMap_cons]
      rw [copyN_copyN (by omega), ← hCount, copyN_copyN (by omega)]
    · rw [length_copyN (by omega)]
      omega
    · rw [length_copyN (by omega)]
      omega

end Merge

namespace Batch

variable {b : Batch} {w : Work}

def sparseOf (b : Batch) (d : Nat) : SparseOutput where
  indices := (range b.serialized.length).flatMap fun e => cells e (b.listOf d e).length
  values := (range b.serialized.length).flatMap (b.listOf d)
  shape := (b.serialized.length,
    ((range b.serialized.length).map fun e => (b.listOf d e).length).foldl max 0)

theorem bufferOf_eq (d first next : Nat) :
    b.bufferOf d first next =
      ⟨(range' first (next - first)).flatMap (b.listOf d),
        ends 0 ((range' first (next - first)).map (b.listOf d))⟩ := by
  rw [bufferOf, foldl_add]
  rfl

theorem zipIdx_map_range (n : Nat) (g : Nat → α) :
    ((range n).map g).zipIdx = (range n).map fun m => (g m, m) := by
  apply ext_getElem
  · rw [length_zipIdx, length_map, length_map]
  · intro i hi hi'
    simp

def buffersOf (b : Batch) (d : Nat) : List SparseBuffer :=
  (range (numMinibatches b.serialized)).map fun m =>
    b.bufferOf d (b.firstExampleOfMinibatch m) (b.firstExampleOfMinibatch (m + 1))

theorem mergeMinibatches_eq (blank : Value) (d : Nat) :
    b.mergeMinibatches blank (b.buffersOf d) =
      if fitsTensor [(b.sparseOf d).values.length, 2] then .ok (b.sparseOf d)
      else .error (.addDim [(b.sparseOf d).values.length, 2]) := by
  have hNonempty :
      (b.buffersOf d).any (fun buffer => buffer.exampleEndIndices.isEmpty) = false := by
    rw [List.any_eq_false]
    intro buffer hMem
    obtain ⟨m, hm, rfl⟩ := List.mem_map.mp hMem
    have hLt := firstExample_lt (mem_range.mp hm)
    obtain ⟨count, hCount⟩ := Nat.exists_eq_add_of_lt hLt
    rw [bufferOf_eq, hCount, add_assoc, Nat.add_sub_cancel_left]
    exact Bool.false_ne_true
  have hTotal : ((b.buffersOf d).map fun buffer => buffer.exampleEndIndices.getLast?.getD 0).sum =
      ((range b.serialized.length).flatMap (b.listOf d)).length := by
    rw [← flatMap_minibatches, length_flatMap, buffersOf, List.map_map]
    refine congrArg sum (map_congr_left fun m _ => ?_)
    rw [Function.comp_apply, bufferOf_eq, getLast_ends, zero_add, flatMap_def]
  have hSizes : ((b.buffersOf d).flatMap fun buffer => exampleSizes 0 buffer.exampleEndIndices) =
      (range b.serialized.length).map fun e => (b.listOf d e).length := by
    rw [map_eq_flatMap, ← flatMap_minibatches, buffersOf, flatMap_map]
    refine flatMap_congr fun m _ => ?_
    rw [bufferOf_eq, exampleSizes_ends, List.map_map, ← map_eq_flatMap]
    rfl
  have hZip : (b.buffersOf d).zipIdx = (range (numMinibatches b.serialized)).map fun m =>
      (b.bufferOf d (b.firstExampleOfMinibatch m) (b.firstExampleOfMinibatch (m + 1)), m) :=
    zipIdx_map_range _ _
  have hIndices : (b.buffersOf d).zipIdx.flatMap (fun buffer =>
      (bufferIndices (b.firstExampleOfMinibatch buffer.2) 0 buffer.1.exampleEndIndices).1) =
        (range b.serialized.length).flatMap fun e => cells e (b.listOf d e).length := by
    rw [← flatMap_minibatches, hZip, flatMap_map]
    refine flatMap_congr fun m _ => ?_
    rw [bufferOf_eq, bufferIndices_ends]
  have hValues : (b.buffersOf d).zipIdx.flatMap (fun buffer => buffer.1.values) =
      (range b.serialized.length).flatMap (b.listOf d) := by
    rw [← flatMap_minibatches, hZip, flatMap_map]
    refine flatMap_congr fun m _ => ?_
    rw [bufferOf_eq]
  have hCells : ((range b.serialized.length).flatMap
      fun e => cells e (b.listOf d e).length).length =
        ((range b.serialized.length).flatMap (b.listOf d)).length := by
    rw [length_flatMap, length_flatMap]
    refine congrArg sum (map_congr_left fun e _ => ?_)
    rw [cells, length_map, length_range]
  rw [mergeMinibatches, if_neg (by rw [hNonempty]; exact Bool.false_ne_true)]
  simp only
  rw [hTotal]
  refine if_congr Iff.rfl (congrArg Except.ok ?_) rfl
  rw [hSizes, foldl_mergeBuffer
    (fun buffer =>
      (bufferIndices (b.firstExampleOfMinibatch buffer.2) 0 buffer.1.exampleEndIndices).1)
    (fun buffer => buffer.1.values) (b.buffersOf d).zipIdx, hIndices, hValues]
  · rw [copyN_all (by rw [length_replicate, hCells]),
      copyN_all (by rw [length_replicate])]
    rfl
  · intro buffer hMem
    rw [hZip] at hMem
    obtain ⟨m, -, rfl⟩ := List.mem_map.mp hMem
    refine ⟨?_, rfl, ?_⟩
    · simp only [bufferOf_eq, bufferIndices_ends, zero_add]
    · simp only [bufferOf_eq, bufferIndices_ends, length_flatMap, cells, length_map,
        length_range]
  · rw [hValues, length_replicate, zero_add]
  · rw [hValues, length_replicate, zero_add]

theorem Inv.done (h : b.Inv w) (hFinished : b.Finished w) {m : Nat} {task : Task}
    (hTask : w.tasks[m]? = some task) (hStatus : task.status = .ok ()) :
    task.next = b.firstExampleOfMinibatch (m + 1) := by
  have hInv := h.tasks m task hTask
  obtain ⟨hm, -⟩ := List.getElem?_eq_some_iff.mp hTask
  rw [h.tasks_length] at hm
  refine le_antisymm hInv.high (Nat.le_of_not_lt fun hLt => ?_)
  have hLength := hLt.trans_le (firstExample_le (b := b) hm)
  have hBlocked := hFinished m
  rw [step, hTask] at hBlocked
  simp only [hStatus, getElem?_eq_getElem hLength, if_pos hLt] at hBlocked
  split at hBlocked <;> cases hBlocked

theorem Inv.parsed_all (h : b.Inv w) (hFinished : b.Finished w)
    (hOk : ∀ task ∈ w.tasks, task.status = .ok ()) {e : Nat} (he : e < b.serialized.length) :
    b.Written w e ∧ (b.said e).isSome := by
  obtain ⟨m, hm, hLow, hHigh⟩ := exists_minibatch he
  rw [← h.tasks_length] at hm
  have hTask := getElem?_eq_getElem hm
  have hDone := h.done hFinished hTask (hOk _ (getElem_mem hm))
  rw [← hDone] at hHigh
  exact ⟨⟨m, _, hTask, hLow, hHigh⟩, (h.tasks m _ hTask).parsed e hLow hHigh⟩

theorem Inv.ok_of_said (h : b.Inv w) (hSaid : ∀ e < b.serialized.length, (b.said e).isSome) :
    ∀ task ∈ w.tasks, task.status = .ok () := by
  intro task hMem
  obtain ⟨m, hTask⟩ := mem_iff_getElem?.mp hMem
  rcases (h.tasks m task hTask).status with hStatus | ⟨s, trouble, hSome, hSummary, -, -⟩
  · exact hStatus
  · obtain ⟨hLt, -⟩ := List.getElem?_eq_some_iff.mp hSome
    have hSome' := hSaid task.next hLt
    rw [said, hSome, bind_some, hSummary] at hSome'
    cases hSome'

theorem Inv.buffers_eq (h : b.Inv w) (hFinished : b.Finished w)
    (hOk : ∀ task ∈ w.tasks, task.status = .ok ()) {d : Nat} (hd : d < b.config.sparse.length) :
    w.tasks.map (fun task => (task.buffers[d]?).getD ⟨[], []⟩) = b.buffersOf d := by
  apply ext_getElem
  · rw [length_map, h.tasks_length, buffersOf, length_map, length_range]
  · intro m hm hm'
    rw [length_map] at hm
    have hTask := getElem?_eq_getElem hm
    have hInv := h.tasks m _ hTask
    have hBuffer := getElem?_eq_getElem (l := w.tasks[m].buffers)
      (by rw [hInv.buffers_length]; exact hd)
    rw [getElem_map, hBuffer, getD_some, hInv.buffers d _ hBuffer,
      h.done hFinished hTask (hOk _ (getElem_mem hm))]
    simp only [buffersOf, getElem_map, getElem_range]

theorem forM_status {tasks : List Task} :
    tasks.forM (fun task => task.status) = .ok () ↔ ∀ task ∈ tasks, task.status = .ok () := by
  induction tasks with
  | nil => exact ⟨fun _ _ hMem => absurd hMem not_mem_nil, fun _ => rfl⟩
  | cons task tasks ih =>
    change (task.status >>= fun _ => tasks.forM fun task => task.status) = .ok () ↔ _
    rw [forall_mem_cons, ← ih]
    cases task.status with
    | error e =>
      constructor
      · intro h
        cases h
      · rintro ⟨h, -⟩
        cases h
    | ok _ => exact ⟨fun h => ⟨rfl, h⟩, fun h => h.2⟩

def resultOf (b : Batch) (w : Work) : Result where
  sparse := (range b.config.sparse.length).map b.sparseOf
  dense := (b.config.dense.zip w.dense).map fun (c, values) =>
    DenseOutput.mk (b.serialized.length :: c.shape) values

def SparseFits (b : Batch) : Prop :=
  ∀ d < b.config.sparse.length, fitsTensor [(b.sparseOf d).values.length, 2]

theorem Inv.conclude_eq (h : b.Inv w) (hFinished : b.Finished w) (blank : Value)
    (hOk : ∀ task ∈ w.tasks, task.status = .ok ()) (hFits : b.SparseFits) :
    b.conclude blank w = .ok (b.resultOf w) := by
  have hSparse : (range b.config.sparse.length).mapM (fun d => b.mergeMinibatches blank
      (w.tasks.map fun task => (task.buffers[d]?).getD ⟨[], []⟩)) =
        .ok ((range b.config.sparse.length).map b.sparseOf) := by
    refine Fallible.mapM_eq_ok.mpr (forall₂_map_right_iff.mpr (forall₂_same.mpr fun d hMem => ?_))
    have hd := mem_range.mp hMem
    rw [h.buffers_eq hFinished hOk hd, mergeMinibatches_eq, if_pos (hFits d hd)]
  rw [conclude, forM_status.mpr hOk, hSparse]
  rfl

theorem status_of_conclude {blank : Value} {out : Result} (h : b.conclude blank w = .ok out) :
    ∀ task ∈ w.tasks, task.status = .ok () := by
  rw [← forM_status]
  rw [conclude] at h
  cases hStatus : w.tasks.forM (fun task => task.status) with
  | error e =>
    rw [hStatus] at h
    cases h
  | ok _ => rfl

theorem Inv.fits_of_conclude (h : b.Inv w) (hFinished : b.Finished w) {blank : Value} {out : Result}
    (hOut : b.conclude blank w = .ok out) : b.SparseFits := by
  have hOk := status_of_conclude hOut
  intro d hd
  rw [conclude, forM_status.mpr hOk] at hOut
  cases hSparse : (range b.config.sparse.length).mapM fun d =>
      b.mergeMinibatches blank (w.tasks.map fun task => (task.buffers[d]?).getD ⟨[], []⟩) with
  | error e =>
    simp only [bind, Except.bind, hSparse] at hOut
    cases hOut
  | ok outs =>
    have hEach := Fallible.mapM_eq_ok.mp hSparse
    have hd' : d < (range b.config.sparse.length).length := by rwa [length_range]
    have hFound := hEach.get hd' (hEach.length_eq ▸ hd')
    rw [get_eq_getElem, getElem_range, h.buffers_eq hFinished hOk hd, mergeMinibatches_eq] at hFound
    by_contra hLarge
    rw [if_neg hLarge] at hFound
    cases hFound

end Batch

open Transition (Outcome Reach anyStep)

namespace Batch

variable {b : Batch} {w w' : Work}

def effort (b : Batch) (task : Task) : Nat :=
  b.serialized.length - task.next + if task.status = .ok () then 1 else 0

theorem sum_set (g : α → Nat) (xs : List α) (i : Nat) (x y : α) (h : xs[i]? = some x)
    : ((xs.set i y).map g).sum + g x = (xs.map g).sum + g y := by
  induction xs generalizing i with
  | nil => cases h
  | cons x' xs ih =>
    cases i with
    | zero =>
      cases h
      simp only [set_cons_zero, map_cons, sum_cons]
      omega
    | succ i =>
      have hRest := ih i h
      simp only [set_cons_succ, map_cons, sum_cons]
      omega

theorem effort_step (h : b.Inv w) {m : Nat} (hStep : b.step w m = .next w') :
    (w'.tasks.map b.effort).sum < (w.tasks.map b.effort).sum := by
  obtain ⟨task, s, hTask, hStatus, hSome, -, hStepped⟩ := step_cases h hStep
  obtain ⟨hLt, -⟩ := List.getElem?_eq_some_iff.mp hSome
  have hBefore : b.effort task = b.serialized.length - task.next + 1 := by
    rw [effort, if_pos hStatus]
  cases hStepped with
  | parsed hSummary =>
    rename_i summary
    have hSum := sum_set b.effort w.tasks m task
      ⟨task.next + 1, .ok (), zipWith SparseBuffer.add task.buffers summary.lists⟩ hTask
    have hAfter : b.effort ⟨task.next + 1, .ok (),
        zipWith SparseBuffer.add task.buffers summary.lists⟩ =
          b.serialized.length - (task.next + 1) + 1 := by
      rw [effort, if_pos rfl]
    simp only
    omega
  | refused hSummary =>
    rename_i trouble
    have hSum := sum_set b.effort w.tasks m task
      { task with status := .error ((b.call task.next).report s trouble) } hTask
    have hAfter : b.effort { task with
        status := .error ((b.call task.next).report s trouble) } =
          b.serialized.length - task.next := by
      rw [effort, if_neg (fun hEq => by cases hEq), add_zero]
    simp only
    omega

theorem exists_finished (hDefaults : Index.Defaulted b.config) (blank : Value)
    (hRun : Reach b.step anyStep (b.start blank) w) :
    ∃ w', Reach b.step anyStep (b.start blank) w' ∧ b.Finished w' := by
  generalize hEffort : (w.tasks.map b.effort).sum = n
  induction n using Nat.strong_induction_on generalizing w with
  | _ n ih =>
    subst hEffort
    by_cases hFinished : b.Finished w
    · exact ⟨w, hRun, hFinished⟩
    · obtain ⟨m, hOpen⟩ := not_forall.mp hFinished
      cases hStep : b.step w m with
      | blocked => exact absurd hStep hOpen
      | failed check => cases check
      | next w' =>
        exact ih _ (effort_step (inv_reach hDefaults hRun) hStep)
          (.tail hRun trivial hStep) rfl

end Batch

section Fits

theorem fitsTensor_mono {sizes sizes' : List Nat} (h : Forall₂ (· ≤ ·) sizes sizes')
    (hFit : fitsTensor sizes') : fitsTensor sizes := by
  rw [fitsTensor, Bool.and_eq_true, decide_eq_true_eq] at hFit ⊢
  exact ⟨h.length_eq.trans_le hFit.1, Framework.elementsFit_mono h le_rfl hFit.2⟩

theorem fitsTensor_pair {total total' : Nat} (h : total ≤ total') (hFit : fitsTensor [total', 2]) :
    fitsTensor [total, 2] :=
  fitsTensor_mono (.cons h (.cons le_rfl .nil)) hFit

theorem Config.allocates_mono {config : Config} {n n' : Nat} (h : n ≤ n')
    (hFit : config.allocates n') : config.allocates n := by
  rw [allocates, List.all_eq_true] at hFit ⊢
  exact fun cfg hMem => fitsTensor_mono (.cons h (forall₂_same.mpr fun _ _ => le_rfl))
    (hFit cfg hMem)

end Fits

section Calls

variable {setting : Setting.{u}} {config : Config} {serialized exampleNames : List Text}

def Setting.index? (setting : Setting.{u}) (config : Config) : Option Index :=
  match config.check with
  | .error _ => none
  | .ok () => (config.configIndex setting.map setting.hash64).map fun (seed, table) =>
    ⟨setting.reader, config, setting.map.find table, setting.hash64 seed⟩

theorem exists_returns (setting : Setting.{u}) (hDefaults : Index.Defaulted config)
    (hNames : exampleNames = [] ∨ exampleNames.length = serialized.length) :
    ∃ r, FastParseExample setting config serialized exampleNames r := by
  cases hTypes : config.check with
  | error e => exact ⟨_, .badType hTypes⟩
  | ok _ =>
    cases hIndex : config.configIndex setting.map setting.hash64 with
    | none => exact ⟨_, .collision hTypes hIndex⟩
    | some found =>
      by_cases hFit : config.allocates serialized.length
      · obtain ⟨w, hRun, hFinished⟩ := exists_finished
          (b := ⟨setting.reader, config, setting.map.find found.2, setting.hash64 found.1,
            serialized, exampleNames, hNames⟩) hDefaults setting.blank .refl
        exact ⟨_, .parsed hTypes hIndex hFit hNames rfl hRun hFinished⟩
      · rw [Config.allocates, List.all_eq_true, not_forall] at hFit
        obtain ⟨cfg, hLarge⟩ := hFit
        obtain ⟨hMem, hLarge⟩ := Classical.not_imp.mp hLarge
        exact ⟨_, .tooLarge hTypes (by rw [hIndex]; exact some_ne_none _) hMem hLarge⟩

/-- The examples of `b` are accepted one by one, and its outputs pass the checks of `AddDim`. -/
structure Accepts (setting : Setting.{u}) (config : Config) (serialized : List Text) (b : Batch) :
    Prop where
  index_eq : setting.index? config = some b.index
  config_eq : b.config = config
  serialized_eq : b.serialized = serialized
  said : ∀ e < b.serialized.length, (b.said e).isSome
  allocated : config.allocates serialized.length
  fits : b.SparseFits

structure Succeeds (setting : Setting.{u}) (config : Config) (serialized : List Text) (out : Result)
    (b : Batch) (w : Work) : Prop extends Accepts setting config serialized b where
  written : ∀ e < b.serialized.length, b.Written w e
  inv : b.Inv w
  out_eq : out = b.resultOf w

theorem succeeds_of_returns (hDefaults : Index.Defaulted config) {out : Result}
    (h : FastParseExample setting config serialized exampleNames (.ok out)) :
    ∃ b w, Succeeds setting config serialized out b w := by
  generalize hr : Except.ok out = r at h
  cases h with
  | badType _ => cases hr
  | collision _ _ => cases hr
  | tooLarge _ _ _ _ => cases hr
  | parsed hTypes hIndex hAllocated hNames hBatch hRun hFinished =>
    rename_i seed table w b
    subst hBatch
    have hInv := inv_reach hDefaults hRun
    have hOk := status_of_conclude hr.symm
    have hFits := hInv.fits_of_conclude hFinished hr.symm
    rw [hInv.conclude_eq hFinished _ hOk hFits] at hr
    cases hr
    refine ⟨_, w, ⟨?_, rfl, rfl, ?_, hAllocated, hFits⟩, ?_, hInv, rfl⟩
    · rw [Setting.index?, hTypes, hIndex]
      rfl
    · exact fun e he => (hInv.parsed_all hFinished hOk he).2
    · exact fun e he => (hInv.parsed_all hFinished hOk he).1

theorem said_congr {b b' : Batch} (hIndex : b'.index = b.index) {e e' : Nat}
    (hSame : b'.serialized[e']? = b.serialized[e]?) : b'.said e' = b.said e := by
  rw [Batch.said, Batch.said, hIndex, hSame]

theorem sparseOf_congr {b b' : Batch} (hIndex : b'.index = b.index)
    (hSame : b'.serialized = b.serialized) (d : Nat) : b'.sparseOf d = b.sparseOf d := by
  have hList : b'.listOf d = b.listOf d := by
    funext e
    rw [listOf, listOf, said_congr hIndex (congrArg (·[e]?) hSame)]
  rw [sparseOf, sparseOf, hSame, hList]

theorem returns_ok_iff (hDefaults : Index.Defaulted config) {r : Except Error Result}
    (h : FastParseExample setting config serialized exampleNames r) :
    (∃ out, r = .ok out) ↔ ∃ b, Accepts setting config serialized b := by
  constructor
  · rintro ⟨out, rfl⟩
    obtain ⟨b, w, hSucceeds⟩ := succeeds_of_returns hDefaults h
    exact ⟨b, hSucceeds.toAccepts⟩
  · rintro ⟨b, hAccepts⟩
    have hIndex? := hAccepts.index_eq
    cases h with
    | badType hTypes =>
      rw [Setting.index?, hTypes] at hIndex?
      cases hIndex?
    | collision hTypes hIndex =>
      rw [Setting.index?, hTypes, hIndex] at hIndex?
      cases hIndex?
    | tooLarge _ _ hMem hLarge =>
      exact absurd (List.all_eq_true.mp hAccepts.allocated _ hMem) hLarge
    | parsed hTypes hIndex hAllocated hNames hBatch hRun hFinished =>
      rename_i seed table w b'
      have hSame : b'.serialized = b.serialized := by
        rw [hBatch, hAccepts.serialized_eq]
      have hIndex' : b'.index = b.index := by
        rw [Setting.index?, hTypes, hIndex] at hIndex?
        rw [hBatch]
        exact some_inj.mp hIndex?
      have hConfig : b'.config = b.config := congrArg Index.config hIndex'
      have hInv := inv_reach (by rw [hBatch]; exact hDefaults) hRun
      refine ⟨_, hInv.conclude_eq hFinished _ (hInv.ok_of_said fun e he => ?_) fun d hd => ?_⟩
      · rw [said_congr hIndex' (congrArg (·[e]?) hSame)]
        exact hAccepts.said e (hSame ▸ he)
      · rw [sparseOf_congr hIndex' hSame]
        exact hAccepts.fits d (hConfig ▸ hd)

namespace Result

def sparseValues (d : Nat) (out : Result) : List Value :=
  ((out.sparse[d]?).map fun sparse => sparse.values).getD []

end Result

/-- The outputs of a batch, from those of its examples alone. -/
structure BatchOf (config : Config) (alone : List Result) (out : Result) : Prop where
  dense_length : out.dense.length = config.dense.length
  sparse_length : out.sparse.length = config.sparse.length
  dense : ∀ (d : Nat) (cfg : Dense), config.dense[d]? = some cfg →
    ∃ values, out.dense[d]? = some ⟨alone.length :: cfg.shape, values⟩ ∧
      values.length = alone.length * cfg.numElements ∧
      ∀ (e : Nat) (a : Result), alone[e]? = some a → a.dense[d]? =
        some ⟨1 :: cfg.shape, (values.drop (e * cfg.numElements)).take cfg.numElements⟩
  sparse : ∀ d < config.sparse.length, out.sparse[d]? = some
    ⟨alone.zipIdx.flatMap fun (a, e) =>
        (range (a.sparseValues d).length).map fun feature => (e, feature),
      alone.flatMap (Result.sparseValues d),
      (alone.length, (alone.map fun a => (a.sparseValues d).length).foldl max 0)⟩

variable {out : Result} {b : Batch} {w : Work}

section

variable (h : Succeeds setting config serialized out b w)
include h

theorem Succeeds.dense_get {d : Nat} {cfg : Dense} (hCfg : config.dense[d]? = some cfg) :
    ∃ values, out.dense[d]? = some ⟨serialized.length :: cfg.shape, values⟩ ∧
      values.length = serialized.length * cfg.numElements ∧
      ∀ e < serialized.length,
        (values.drop (e * cfg.numElements)).take cfg.numElements = b.rowOf d e := by
  rw [← h.serialized_eq]
  rw [← h.config_eq] at hCfg
  obtain ⟨hd, -⟩ := List.getElem?_eq_some_iff.mp hCfg
  rw [← h.inv.dense_length] at hd
  have hOut := getElem?_eq_getElem hd
  refine ⟨w.dense[d], ?_, h.inv.out_length d cfg _ hCfg hOut, ?_⟩
  · have hZip : (b.config.dense.zip w.dense)[d]? = some (cfg, w.dense[d]) :=
      getElem?_zip_eq_some.mpr ⟨hCfg, hOut⟩
    rw [h.out_eq, resultOf]
    simp only [getElem?_map, hZip, map_some]
  · exact fun e he => h.inv.rows d cfg _ e hCfg hOut (h.written e he)

theorem Succeeds.sparse_get {d : Nat} (hd : d < config.sparse.length) :
    out.sparse[d]? = some (b.sparseOf d) := by
  rw [← h.config_eq] at hd
  rw [h.out_eq, resultOf]
  simp only [getElem?_map, getElem?_range hd, map_some]

end

section Alone

/-- The outputs of a batch whose examples alone give `alone` pass the checks of `AddDim`. -/
def OutputsFit (config : Config) (alone : List Result) : Prop :=
  config.allocates alone.length ∧
    ∀ d < config.sparse.length, fitsTensor [(alone.flatMap (Result.sparseValues d)).length, 2]

variable (hDefaults : Index.Defaulted config) (hIndex : setting.index? config = some b.index)
  (hSame : b.serialized = serialized) {alone : List Result}
  (hAlone : Forall₂ (fun s a => FastParseExample setting config [s] [] (.ok a)) serialized alone)
include hDefaults hIndex hSame hAlone

theorem said_alone {e : Nat} {a : Result} (hGet : alone[e]? = some a) :
    e < serialized.length ∧
      ∃ s b' w', Succeeds setting config [s] a b' w' ∧ b'.said 0 = b.said e := by
  obtain ⟨he, rfl⟩ := List.getElem?_eq_some_iff.mp hGet
  have he' : e < serialized.length := he.trans_eq hAlone.length_eq.symm
  obtain ⟨b', w', h'⟩ := succeeds_of_returns hDefaults (hAlone.get he' he)
  have hIndex' : b'.index = b.index := some_inj.mp (h'.index_eq.symm.trans hIndex)
  refine ⟨he', _, b', w', h', said_congr hIndex' ?_⟩
  rw [h'.serialized_eq, hSame, getElem?_eq_getElem he']
  rfl

theorem sparseValues_alone {d : Nat} (hd : d < config.sparse.length) {e : Nat} {a : Result}
    (hGet : alone[e]? = some a) : a.sparseValues d = b.listOf d e := by
  obtain ⟨-, s, b', w', h', hSaid⟩ := said_alone hDefaults hIndex hSame hAlone hGet
  rw [Result.sparseValues, h'.sparse_get hd, map_some, getD_some, sparseOf, h'.serialized_eq]
  simp only [length_singleton, range_one, flatMap_singleton, listOf, hSaid]

theorem map_listOf {d : Nat} (hd : d < config.sparse.length) :
    (range alone.length).map (b.listOf d) = alone.map (Result.sparseValues d) := by
  apply ext_getElem
  · rw [length_map, length_map, length_range]
  · intro e he he'
    rw [length_map] at he'
    rw [getElem_map, getElem_map, getElem_range,
      sparseValues_alone hDefaults hIndex hSame hAlone hd (getElem?_eq_getElem he')]

theorem values_sparseOf {d : Nat} (hd : d < config.sparse.length) :
    (b.sparseOf d).values = alone.flatMap (Result.sparseValues d) := by
  change (range b.serialized.length).flatMap (b.listOf d) = _
  rw [hSame, hAlone.length_eq, flatMap_def,
    map_listOf hDefaults hIndex hSame hAlone hd, ← flatMap_def]

end Alone

theorem Succeeds.batchOf (hDefaults : Index.Defaulted config)
    (h : Succeeds setting config serialized out b w) {alone : List Result}
    (hAlone : Forall₂ (fun s a => FastParseExample setting config [s] [] (.ok a))
      serialized alone) : BatchOf config alone out := by
  have hLength := hAlone.length_eq
  constructor
  · rw [h.out_eq, resultOf, length_map, length_zip, h.inv.dense_length, h.config_eq]
    exact min_self _
  · rw [h.out_eq, resultOf, length_map, length_range, h.config_eq]
  · intro d cfg hCfg
    obtain ⟨values, hOut, hCount, hRows⟩ := h.dense_get hCfg
    rw [hLength] at hOut hCount
    refine ⟨values, hOut, hCount, fun e a hSome => ?_⟩
    obtain ⟨he, s, b', w', h', hSaid⟩ :=
      said_alone hDefaults h.index_eq h.serialized_eq hAlone hSome
    obtain ⟨row, hRow, hOne, hFirst⟩ := h'.dense_get hCfg
    have hSame := hFirst 0 (by simp)
    rw [zero_mul, drop_zero, take_of_length_le (by simpa using hOne.le)] at hSame
    rw [hRow, hRows e he, hSame, rowOf, rowOf, hSaid, length_singleton]
  · intro d hd
    have hCells : (range alone.length).flatMap (fun e => cells e (b.listOf d e).length) =
        alone.zipIdx.flatMap fun (a, e) => cells e (a.sparseValues d).length := by
      rw [flatMap_def]
      congr 1
      apply ext_getElem
      · simp
      · intro e he he'
        simp only [length_map, length_zipIdx] at he'
        simp only [getElem_map, getElem_range, getElem_zipIdx, zero_add]
        rw [sparseValues_alone hDefaults h.index_eq h.serialized_eq hAlone hd
          (getElem?_eq_getElem he')]
    have hMax : (range alone.length).map (fun e => (b.listOf d e).length) =
        alone.map fun a => (a.sparseValues d).length := by
      have hLengths := congrArg (map length)
        (map_listOf hDefaults h.index_eq h.serialized_eq hAlone hd)
      rwa [List.map_map, List.map_map] at hLengths
    have hFlat : (range alone.length).flatMap (b.listOf d) =
        alone.flatMap (Result.sparseValues d) := by
      rw [← hLength, ← h.serialized_eq]
      exact values_sparseOf hDefaults h.index_eq h.serialized_eq hAlone hd
    rw [h.sparse_get hd, sparseOf, h.serialized_eq, hLength, hCells, hMax, hFlat]
    rfl

theorem exists_forall₂ {β γ : Type*} {R : β → γ → Prop} {xs : List β} (h : ∀ x ∈ xs, ∃ y, R x y) :
    ∃ ys, Forall₂ R xs ys := by
  induction xs with
  | nil => exact ⟨[], .nil⟩
  | cons x xs ih =>
    rw [forall_mem_cons] at h
    obtain ⟨⟨y, hHead⟩, hTail⟩ := h
    obtain ⟨ys, hRest⟩ := ih hTail
    exact ⟨y :: ys, .cons hHead hRest⟩

/-- An accepted batch accepts each of its examples alone. -/
theorem Accepts.alone (h : Accepts setting config serialized b) {s : Text} (hMem : s ∈ serialized) :
    ∃ b', Accepts setting config [s] b' := by
  obtain ⟨e, hGet⟩ := mem_iff_getElem?.mp hMem
  obtain ⟨he, -⟩ := List.getElem?_eq_some_iff.mp hGet
  let b' : Batch := ⟨b.reader, b.config, b.find, b.hasher, [s], [], .inl rfl⟩
  have hIndex : b'.index = b.index := rfl
  have hSaid : b'.said 0 = b.said e := said_congr hIndex (by rw [h.serialized_eq, hGet]; rfl)
  refine ⟨b', h.index_eq, h.config_eq, rfl, ?_, ?_, ?_⟩
  · intro e' he'
    obtain rfl := Nat.lt_one_iff.mp he'
    rw [hSaid]
    exact h.said e (by rwa [h.serialized_eq])
  · exact Config.allocates_mono (Nat.one_le_of_lt he) h.allocated
  · intro d hd
    have hValues : (b'.sparseOf d).values = b.listOf d e := by
      change (range 1).flatMap (b'.listOf d) = b.listOf d e
      rw [range_one, flatMap_singleton, listOf, listOf, hSaid]
    have hSub := sublist_flatten_of_mem (mem_map_of_mem (f := b.listOf d) (mem_range.mpr he))
    rw [← flatMap_def] at hSub
    refine fitsTensor_pair ?_ (h.fits d hd)
    rw [hValues, sparseOf, h.serialized_eq]
    exact hSub.length_le

theorem Accepts.exists_alone (hDefaults : Index.Defaulted config)
    (h : Accepts setting config serialized b) :
    ∃ alone, Forall₂ (fun s a => FastParseExample setting config [s] [] (.ok a)) serialized alone ∧
      OutputsFit config alone := by
  have hEach : ∀ s ∈ serialized, ∃ a, FastParseExample setting config [s] [] (.ok a) := by
    intro s hMem
    have hNames : ([] : List Text) = [] ∨ ([] : List Text).length = [s].length := .inl rfl
    obtain ⟨r, hReturns⟩ := exists_returns setting hDefaults hNames
    obtain ⟨a, rfl⟩ := (returns_ok_iff hDefaults hReturns).mpr (h.alone hMem)
    exact ⟨a, hReturns⟩
  obtain ⟨alone, hAlone⟩ := exists_forall₂ hEach
  refine ⟨alone, hAlone, ?_, fun d hd => ?_⟩
  · rw [← hAlone.length_eq]
    exact h.allocated
  · rw [← values_sparseOf hDefaults h.index_eq h.serialized_eq hAlone hd]
    exact h.fits d (h.config_eq ▸ hd)

theorem accepts_of_alone (hDefaults : Index.Defaulted config) {x : Index}
    (hIndex : setting.index? config = some x) {alone : List Result}
    (hAlone : Forall₂ (fun s a => FastParseExample setting config [s] [] (.ok a)) serialized alone)
    (hFit : OutputsFit config alone) : ∃ b, Accepts setting config serialized b := by
  have hConfig : x.config = config := by
    rw [Setting.index?] at hIndex
    split at hIndex
    · cases hIndex
    · obtain ⟨found, -, rfl⟩ := map_eq_some_iff.mp hIndex
      rfl
  let b : Batch := ⟨x.reader, x.config, x.find, x.hasher, serialized, [], .inl rfl⟩
  have hIndex : setting.index? config = some b.index := hIndex
  refine ⟨b, hIndex, hConfig, rfl, fun e he => ?_, ?_, fun d hd => ?_⟩
  · have he' : e < alone.length := he.trans_eq hAlone.length_eq
    obtain ⟨-, s, b', w', h', hSaid⟩ :=
      said_alone hDefaults hIndex rfl hAlone (getElem?_eq_getElem he')
    rw [← hSaid]
    exact h'.said 0 (by rw [h'.serialized_eq]; exact Nat.one_pos)
  · rw [hAlone.length_eq]
    exact hFit.1
  · have hd' : d < config.sparse.length := hConfig ▸ hd
    rw [values_sparseOf hDefaults hIndex rfl hAlone hd']
    exact hFit.2 d hd'

end Calls

def listSetting : Setting := ⟨.documented, Config.roomyMap, Config.byteSum, .int64 0⟩

def pairAndList : Config where
  dense := [⟨[97], .int64, [2], [.int64 0, .int64 0]⟩]
  sparse := [⟨[98], .string⟩]

/-- `a` is the pair 1 and 2, and `b` has the string "x". -/
def pairAndString : Text :=
  [10, 25, 10, 11, 10, 1, 97, 18, 6, 26, 4, 10, 2, 1, 2, 10, 10, 10, 1, 98, 18, 5, 10, 3, 10, 1,
    120]

/-- `b` has the strings "y" and "z". -/
def twoStrings : Text := [10, 15, 10, 13, 10, 1, 98, 18, 8, 10, 6, 10, 1, 121, 10, 1, 122]

def pairAndListBatch : Batch where
  reader := .documented
  config := pairAndList
  find := listSetting.map.find [(0xDECAFCB060, .sparse 0), (0xDECAFCB05F, .dense 0)]
  hasher := Config.byteSum 0xDECAFCAFFE
  serialized := [pairAndString, twoStrings]
  exampleNames := []
  length_names := .inl rfl

theorem pairAndList_accepted :
    Accepts listSetting pairAndList [pairAndString, twoStrings] pairAndListBatch := by
  have hSaid : ∀ e < 2, (pairAndListBatch.said e).isSome := by decide
  refine ⟨rfl, rfl, rfl, hSaid, by decide, fun d hd => ?_⟩
  obtain rfl := Nat.lt_one_iff.mp hd
  decide

def hugeEmpty : Config where
  dense := [⟨[97], .int64, [2 ^ 40, 0], []⟩]
  sparse := []

/-- An example in which the list of `a` is empty. -/
def emptyList : Text := [10, 9, 10, 7, 10, 1, 97, 18, 2, 26, 0]

theorem emptyList_accepted : ∃ b, Accepts listSetting hugeEmpty [emptyList] b := by
  refine ⟨⟨.documented, hugeEmpty, listSetting.map.find [(0xDECAFCB05F, .dense 0)],
    Config.byteSum 0xDECAFCAFFE, [emptyList], [], .inl rfl⟩, rfl, rfl, rfl, ?_, by decide, ?_⟩
  · intro e he
    obtain rfl := Nat.lt_one_iff.mp he
    decide
  · intro d hd
    exact absurd hd (Nat.not_lt_zero d)

end TensorFlowOnSpark.Util
