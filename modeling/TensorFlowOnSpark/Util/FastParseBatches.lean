import TensorFlowOnSpark.Util.ExampleSummary

/-!
# Batches of examples

Whatever the order in which the tasks take their steps, a batch is put together from
what each example says: the invariant of the tasks, and the merge of their buffers.
-/

namespace TensorFlowOnSpark.Util

open Parsed List Option Nat
open Transition (Outcome Reach anyStep)

universe u

theorem countMinibatches_le (serialized : List Text) (state : Nat × Nat) :
    (serialized.foldl countMinibatches state).1 ≤ state.1 + serialized.length := by
  induction serialized generalizing state with
  | nil => exact le_rfl
  | cons s serialized ih =>
    have hStep : (countMinibatches state s).1 ≤ state.1 + 1 := by
      rw [countMinibatches]
      split <;> omega
    have hRest := ih (countMinibatches state s)
    rw [foldl_cons, length_cons]
    omega

theorem numMinibatches_le (serialized : List Text) :
    numMinibatches serialized ≤ serialized.length := by
  have hCount := countMinibatches_le serialized (0, 0)
  rw [numMinibatches]
  omega

theorem numMinibatches_pos {serialized : List Text} (h : 0 < serialized.length) :
    0 < numMinibatches serialized := by
  rw [numMinibatches]
  omega

namespace Batch

variable {b : Batch}

@[simp] theorem firstExample_zero : b.firstExampleOfMinibatch 0 = 0 := by
  rw [firstExampleOfMinibatch, mul_zero, Nat.zero_div]

theorem firstExample_last :
    b.firstExampleOfMinibatch (numMinibatches b.serialized) = b.serialized.length := by
  rcases Nat.eq_zero_or_pos b.serialized.length with hZero | hPos
  · rw [firstExampleOfMinibatch, hZero, zero_mul, Nat.zero_div]
  · exact Nat.mul_div_cancel _ (numMinibatches_pos hPos)

variable {m : Nat}

theorem firstExample_lt (h : m < numMinibatches b.serialized) :
    b.firstExampleOfMinibatch m < b.firstExampleOfMinibatch (m + 1) := by
  have hLe := numMinibatches_le b.serialized
  rw [firstExampleOfMinibatch, firstExampleOfMinibatch]
  have hAdd : b.serialized.length * m / numMinibatches b.serialized + 1 =
      (b.serialized.length * m + numMinibatches b.serialized) / numMinibatches b.serialized :=
    (add_div_right _ (by omega)).symm
  rw [← succ_le_iff, succ_eq_add_one, hAdd, mul_add]
  exact Nat.div_le_div_right (by omega)

theorem firstExample_mono {m m' : Nat} (h : m ≤ m') :
    b.firstExampleOfMinibatch m ≤ b.firstExampleOfMinibatch m' := by
  exact Nat.div_le_div_right (mul_le_mul_left _ h)

theorem firstExample_le (hm : m ≤ numMinibatches b.serialized) :
    b.firstExampleOfMinibatch m ≤ b.serialized.length := by
  have hLast := firstExample_mono (b := b) hm
  rwa [firstExample_last] at hLast

theorem flatMap_minibatches {α : Type u} (g : Nat → List α) :
    (range (numMinibatches b.serialized)).flatMap (fun m =>
        (range' (b.firstExampleOfMinibatch m)
          (b.firstExampleOfMinibatch (m + 1) - b.firstExampleOfMinibatch m)).flatMap g) =
      (range b.serialized.length).flatMap g := by
  have hUpTo : ∀ k ≤ numMinibatches b.serialized,
      (range k).flatMap (fun m => (range' (b.firstExampleOfMinibatch m)
          (b.firstExampleOfMinibatch (m + 1) - b.firstExampleOfMinibatch m)).flatMap g) =
        (range (b.firstExampleOfMinibatch k)).flatMap g := by
    intro k hk
    induction k with
    | zero => rw [firstExample_zero, range_zero, flatMap_nil, flatMap_nil]
    | succ k ih =>
      have hLt := firstExample_lt (b := b) (m := k) (by omega)
      have hSplit : range (b.firstExampleOfMinibatch (k + 1)) =
          range (b.firstExampleOfMinibatch k) ++ range' (b.firstExampleOfMinibatch k)
            (b.firstExampleOfMinibatch (k + 1) - b.firstExampleOfMinibatch k) := by
        rw [range_eq_range', range_eq_range', ← Nat.add_sub_cancel' hLt.le,
          ← range'_append_1, zero_add, Nat.add_sub_cancel_left]
      rw [range_succ, flatMap_append, ih (by omega), hSplit, flatMap_append,
        flatMap_singleton]
  have hAll := hUpTo _ le_rfl
  rwa [firstExample_last] at hAll

theorem exists_minibatch {e : Nat} (he : e < b.serialized.length) :
    ∃ m < numMinibatches b.serialized,
      b.firstExampleOfMinibatch m ≤ e ∧ e < b.firstExampleOfMinibatch (m + 1) := by
  have hUpTo : ∀ k ≤ numMinibatches b.serialized, e < b.firstExampleOfMinibatch k →
      ∃ m < k, b.firstExampleOfMinibatch m ≤ e ∧ e < b.firstExampleOfMinibatch (m + 1) := by
    intro k hk hLt
    induction k with
    | zero => exact absurd hLt (by rw [firstExample_zero]; omega)
    | succ k ih =>
      rcases lt_or_ge e (b.firstExampleOfMinibatch k) with hBelow | hAbove
      · obtain ⟨m, hm, hFound⟩ := ih (by omega) hBelow
        exact ⟨m, by omega, hFound⟩
      · exact ⟨k, by omega, hAbove, hLt⟩
  exact hUpTo _ le_rfl (by rw [firstExample_last]; exact he)

def index (b : Batch) : Index := ⟨b.reader, b.config, b.find, b.hasher⟩

/-- What example `e` says, when it is not refused. -/
def said (b : Batch) (e : Nat) : Option Summary :=
  (b.serialized[e]?).bind fun s => (b.index.summary s).toOption

def rowOf (b : Batch) (d e : Nat) : List Value :=
  ((b.said e).bind fun summary => summary.rows[d]?).getD []

def listOf (b : Batch) (d e : Nat) : List Value :=
  ((b.said e).bind fun summary => summary.lists[d]?).getD []

/-- The buffer of a sparse feature after the examples from `first` to `next`. -/
def bufferOf (b : Batch) (d first next : Nat) : SparseBuffer :=
  ((range' first (next - first)).map (b.listOf d)).foldl SparseBuffer.add ⟨[], []⟩

def Refused (b : Batch) (m : Nat) (task : Task) : Prop :=
  ∃ s trouble, b.serialized[task.next]? = some s ∧ b.index.summary s = .error trouble ∧
    task.status = .error ((b.call task.next).report s trouble) ∧
    task.next < b.firstExampleOfMinibatch (m + 1)

structure TaskInv (b : Batch) (m : Nat) (task : Task) : Prop where
  low : b.firstExampleOfMinibatch m ≤ task.next
  high : task.next ≤ b.firstExampleOfMinibatch (m + 1)
  parsed : ∀ e, b.firstExampleOfMinibatch m ≤ e → e < task.next → (b.said e).isSome
  buffers_length : task.buffers.length = b.config.sparse.length
  buffers : ∀ d buffer, task.buffers[d]? = some buffer →
    buffer = b.bufferOf d (b.firstExampleOfMinibatch m) task.next
  status : task.status = .ok () ∨ b.Refused m task

def Written (b : Batch) (w : Work) (e : Nat) : Prop :=
  ∃ (m : Nat) (task : Task), w.tasks[m]? = some task ∧ b.firstExampleOfMinibatch m ≤ e ∧
    e < task.next

structure Inv (b : Batch) (w : Work) : Prop where
  tasks_length : w.tasks.length = numMinibatches b.serialized
  tasks : ∀ m task, w.tasks[m]? = some task → b.TaskInv m task
  dense_length : w.dense.length = b.config.dense.length
  out_length : ∀ (d : Nat) (cfg : Dense) (out : List Value), b.config.dense[d]? = some cfg →
    w.dense[d]? = some out → out.length = b.serialized.length * cfg.numElements
  rows : ∀ (d : Nat) (cfg : Dense) (out : List Value) (e : Nat), b.config.dense[d]? = some cfg →
    w.dense[d]? = some out → b.Written w e →
    (out.drop (e * cfg.numElements)).take cfg.numElements = b.rowOf d e

theorem bufferOf_self (b : Batch) (d first : Nat) : b.bufferOf d first first = ⟨[], []⟩ := by
  rw [bufferOf, Nat.sub_self]
  rfl

theorem bufferOf_succ (b : Batch) {d first next : Nat} (h : first ≤ next) :
    b.bufferOf d first (next + 1) = (b.bufferOf d first next).add (b.listOf d next) := by
  have hCount : next + 1 - first = next - first + 1 := by omega
  rw [bufferOf, hCount, range'_1_concat, map_append, foldl_append, Nat.add_sub_cancel' h]
  rfl

theorem bufferOf_closed (b : Batch) {d first next : Nat} (h : first ≤ next) :
    (b.bufferOf d first next).Closed := by
  obtain ⟨count, rfl⟩ := Nat.exists_eq_add_of_le h
  cases count with
  | zero =>
    rw [add_zero, bufferOf_self]
    rfl
  | succ count =>
    rw [← add_assoc, bufferOf_succ b (by omega)]
    exact SparseBuffer.add_closed _ _

theorem inv_start (b : Batch) (blank : Value) : b.Inv (b.start blank) := by
  have hTask : ∀ m task, (b.start blank).tasks[m]? = some task →
      m < numMinibatches b.serialized ∧ task = ⟨b.firstExampleOfMinibatch m, .ok (),
        b.config.sparse.map fun _ => ⟨[], []⟩⟩ := by
    intro m task hTask
    rw [start, getElem?_map] at hTask
    obtain ⟨m', hRange, hEq⟩ := map_eq_some_iff.mp hTask
    obtain ⟨hm, rfl⟩ := List.getElem?_eq_some_iff.mp hRange
    rw [length_range] at hm
    rw [getElem_range] at hEq
    exact ⟨hm, hEq.symm⟩
  constructor
  · exact (length_map ..).trans length_range
  · intro m task hFound
    obtain ⟨hm, rfl⟩ := hTask m task hFound
    refine ⟨le_rfl, (firstExample_lt hm).le, ?_, length_map .., ?_, .inl rfl⟩
    · intro e hLow hHigh
      exact absurd hHigh (by simp only; omega)
    · intro d buffer hBuffer
      obtain ⟨_, -, rfl⟩ := map_eq_some_iff.mp ((getElem?_map ..).symm.trans hBuffer)
      exact (bufferOf_self b d _).symm
  · exact length_map ..
  · intro d cfg out hCfg hOut
    rw [start, getElem?_map, hCfg] at hOut
    cases hOut
    exact length_replicate
  · rintro d cfg out e - - ⟨m, task, hFound, hLow, hHigh⟩
    obtain ⟨-, rfl⟩ := hTask m task hFound
    exact absurd hHigh (by simp only; omega)

inductive Stepped (b : Batch) (w : Work) (m : Nat) (task : Task) (s : Text) : Work → Prop where
  | parsed {summary : Summary} (h : b.index.summary s = .ok summary) :
      Stepped b w m task s
        ⟨zipWith (b.call task.next).writeRow w.dense summary.rows,
          w.tasks.set m
            ⟨task.next + 1, .ok (), zipWith SparseBuffer.add task.buffers summary.lists⟩⟩
  | refused {trouble : Trouble} (h : b.index.summary s = .error trouble) :
      Stepped b w m task s
        ⟨w.dense,
          w.tasks.set m { task with status := .error ((b.call task.next).report s trouble) }⟩

variable {w w' : Work}

theorem Inv.fits (h : b.Inv w) {task : Task} (hTask : w.tasks[m]? = some task)
    (hNext : task.next < b.serialized.length) : (b.call task.next).Fits w.dense task.buffers := by
  have hInv := h.tasks m task hTask
  refine ⟨h.dense_length, hInv.buffers_length, ?_, ?_⟩
  · intro d cfg out hCfg hOut
    rw [h.out_length d cfg out hCfg hOut]
    exact mul_le_mul_right _ hNext
  · intro buffer hMem
    obtain ⟨d, hBuffer⟩ := mem_iff_getElem?.mp hMem
    rw [hInv.buffers d buffer hBuffer]
    exact bufferOf_closed b hInv.low

theorem step_cases (h : b.Inv w) (hStep : b.step w m = .next w') :
    ∃ task s, w.tasks[m]? = some task ∧ task.status = .ok () ∧
      b.serialized[task.next]? = some s ∧ task.next < b.firstExampleOfMinibatch (m + 1) ∧
      b.Stepped w m task s w' := by
  rw [step] at hStep
  split at hStep
  · cases hStep
  rename_i task hTask
  split at hStep
  · rename_i s hStatus hSome
    split at hStep
    · rename_i hNext
      obtain ⟨hLt, -⟩ := List.getElem?_eq_some_iff.mp hSome
      refine ⟨task, s, hTask, hStatus, hSome, hNext, ?_⟩
      rw [Call.fastParseSerializedExample_eq _ s (h.fits hTask hLt)] at hStep
      have hIndex : (b.call task.next).index = b.index := rfl
      rw [hIndex] at hStep
      cases hSummary : b.index.summary s with
      | error trouble =>
        rw [hSummary] at hStep
        cases hStep
        exact .refused hSummary
      | ok summary =>
        rw [hSummary] at hStep
        cases hStep
        exact .parsed hSummary
    · cases hStep
  · cases hStep

theorem said_of_summary {e : Nat} {s : Text} {summary : Summary} (hSome : b.serialized[e]? = some s)
    (h : b.index.summary s = .ok summary) : b.said e = some summary := by
  rw [said, hSome, bind_some, h]
  rfl

theorem tasks_set {m m' : Nat} {task task' found : Task} {tasks : List Task}
    (hTask : tasks[m]? = some task) (hFound : (tasks.set m task')[m']? = some found) :
    (m' = m ∧ found = task') ∨ (m' ≠ m ∧ tasks[m']? = some found) := by
  obtain ⟨hm, -⟩ := List.getElem?_eq_some_iff.mp hTask
  by_cases hSame : m' = m
  · subst hSame
    rw [getElem?_set_self hm] at hFound
    cases hFound
    exact .inl ⟨rfl, rfl⟩
  · rw [getElem?_set_ne (Ne.symm hSame)] at hFound
    exact .inr ⟨hSame, hFound⟩

theorem row_copyN {out row : List Value} {e e' n : Nat} (hRow : row.length = n)
    (hRoom : (e + 1) * n ≤ out.length) :
    ((copyN out (e * n) row).drop (e' * n)).take n =
      if e' = e then row else (out.drop (e' * n)).take n := by
  have hMul : (e + 1) * n = e * n + n := by rw [add_mul, one_mul]
  have hTake : (out.take (e * n)).length = e * n := by
    rw [length_take]
    omega
  apply ext_getElem?
  intro i
  rw [getElem?_take, getElem?_drop, copyN, append_assoc, getElem?_append, hTake, getElem?_append,
    getElem?_drop]
  by_cases hi : i < n
  · rw [if_pos hi]
    by_cases hSame : e' = e
    · rw [if_pos hSame, hSame, if_neg (by omega), if_pos (by omega), Nat.add_sub_cancel_left]
    · have hRight : ((out.drop (e' * n)).take n)[i]? = out[e' * n + i]? := by
        rw [getElem?_take, if_pos hi, getElem?_drop]
      rw [if_neg hSame, hRight]
      rcases lt_or_gt_of_ne hSame with hBelow | hAbove
      · have hLe : (e' + 1) * n ≤ e * n := mul_le_mul_right _ hBelow
        rw [add_mul] at hLe
        rw [if_pos (by omega), getElem?_take, if_pos (by omega)]
      · have hLe : (e + 1) * n ≤ e' * n := mul_le_mul_right _ hAbove
        rw [if_neg (by omega), if_neg (by omega)]
        congr 1
        omega
  · rw [if_neg hi]
    split
    · exact (getElem?_eq_none (by omega)).symm
    · rw [getElem?_take, if_neg hi]

theorem inv_step (hDefaults : Index.Defaulted b.config) (h : b.Inv w)
    (hStep : b.step w m = .next w') : b.Inv w' := by
  obtain ⟨task, s, hTask, hStatus, hSome, hNext, hStepped⟩ := step_cases h hStep
  have hInv := h.tasks m task hTask
  obtain ⟨hLt, -⟩ := List.getElem?_eq_some_iff.mp hSome
  have hFits := h.fits hTask hLt
  cases hStepped with
  | refused hSummary =>
    refine ⟨(length_set ..).trans h.tasks_length, ?_, h.dense_length, h.out_length, ?_⟩
    · intro m' found hFound
      rcases tasks_set hTask hFound with ⟨rfl, rfl⟩ | ⟨-, hOld⟩
      · exact ⟨hInv.low, hInv.high, hInv.parsed, hInv.buffers_length, hInv.buffers,
          .inr ⟨s, _, hSome, hSummary, rfl, hNext⟩⟩
      · exact h.tasks m' found hOld
    · rintro d cfg out e hCfg hOut ⟨m', found, hFound, hLow, hHigh⟩
      refine h.rows d cfg out e hCfg hOut ?_
      rcases tasks_set hTask hFound with ⟨rfl, rfl⟩ | ⟨-, hOld⟩
      · exact ⟨m', task, hTask, hLow, hHigh⟩
      · exact ⟨m', found, hOld, hLow, hHigh⟩
  | parsed hSummary =>
    rename_i summary
    have hSaid := said_of_summary hSome hSummary
    have hSized : b.index.SummarySized summary := Index.summary_sized hDefaults hSummary
    have hRooms : ∀ (d : Nat) (cfg : Dense) (out : List Value), b.config.dense[d]? = some cfg →
        w.dense[d]? = some out → (task.next + 1) * cfg.numElements ≤ out.length := hFits.room
    have hRowOf : ∀ d row, summary.rows[d]? = some row → b.rowOf d task.next = row := by
      intro d row hRow
      rw [rowOf, hSaid, bind_some, hRow, getD_some]
    have hOuts : ∀ (d : Nat) (cfg : Dense) (out' : List Value), b.config.dense[d]? = some cfg →
        (zipWith (b.call task.next).writeRow w.dense summary.rows)[d]? = some out' →
        ∃ out row, w.dense[d]? = some out ∧ summary.rows[d]? = some row ∧
          row.length = cfg.numElements ∧
          out' = copyN out (task.next * cfg.numElements) row := by
      intro d cfg out' hCfg hOut'
      rw [getElem?_zipWith_eq_some] at hOut'
      obtain ⟨out, row, hOut, hRow, rfl⟩ := hOut'
      have hLength := hSized.row_length d cfg row hCfg hRow
      refine ⟨out, row, hOut, hRow, hLength, ?_⟩
      rw [Call.writeRow, hLength]
      rfl
    refine ⟨(length_set ..).trans h.tasks_length, ?_, ?_, ?_, ?_⟩
    · intro m' found hFound
      rcases tasks_set hTask hFound with ⟨rfl, rfl⟩ | ⟨-, hOld⟩
      · refine ⟨le_succ_of_le hInv.low, hNext, ?_, ?_, ?_, .inl rfl⟩
        · intro e hLow hHigh
          rcases Nat.lt_succ_iff_lt_or_eq.mp hHigh with hBefore | rfl
          · exact hInv.parsed e hLow hBefore
          · rw [hSaid, isSome_some]
        · rw [length_zipWith, hInv.buffers_length, hSized.lists_length]
          exact min_self _
        · intro d buffer hBuffer
          rw [getElem?_zipWith_eq_some] at hBuffer
          obtain ⟨old, list, hOld, hList, rfl⟩ := hBuffer
          rw [bufferOf_succ b hInv.low, ← hInv.buffers d old hOld, listOf, hSaid, bind_some,
            hList, getD_some]
      · exact h.tasks m' found hOld
    · rw [length_zipWith, h.dense_length, hSized.rows_length]
      exact min_self _
    · intro d cfg out' hCfg hOut'
      obtain ⟨out, row, hOut, -, hLength, rfl⟩ := hOuts d cfg out' hCfg hOut'
      have hRoom := hRooms d cfg out hCfg hOut
      rw [length_copyN, h.out_length d cfg out hCfg hOut]
      rw [add_mul] at hRoom
      omega
    · rintro d cfg out' e hCfg hOut' ⟨m', found, hFound, hLow, hHigh⟩
      obtain ⟨out, row, hOut, hRow, hLength, rfl⟩ := hOuts d cfg out' hCfg hOut'
      rw [row_copyN hLength (hRooms d cfg out hCfg hOut)]
      split
      · rename_i hSame
        rw [hSame, hRowOf d row hRow]
      · rename_i hOther
        refine h.rows d cfg out e hCfg hOut ?_
        rcases tasks_set hTask hFound with ⟨rfl, rfl⟩ | ⟨-, hOld⟩
        · exact ⟨m', task, hTask, hLow, by simp only at hHigh; omega⟩
        · exact ⟨m', found, hOld, hLow, hHigh⟩

theorem inv_reach (hDefaults : Index.Defaulted b.config) {blank : Value}
    (hRun : Reach b.step anyStep (b.start blank) w) : b.Inv w :=
  hRun.invariant b.Inv (inv_start b blank) fun _ _ _ hInv _ hStep => inv_step hDefaults hInv hStep

end Batch

end TensorFlowOnSpark.Util
