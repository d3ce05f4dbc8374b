import TensorFlowOnSpark.Framework.ShapeInference
import TensorFlowOnSpark.Lib.Fallible
import TensorFlowOnSpark.Lib.Transition
import TensorFlowOnSpark.Util.ExampleParser

/-!
# FastParseExample

`FastParseSerializedExample` and `FastParseExample` of
`util/example_proto_fast_parsing.cc`.
-/

namespace TensorFlowOnSpark.Util

open Parsed List
open Transition (Outcome Reach anyStep)

universe u

/-- `FastParseExampleConfig::Dense`; `defaultValue` holds the elements of the tensor. -/
structure Dense where
  featureName : Text
  dtype : DataType
  shape : List Nat
  defaultValue : List Value

namespace Dense

def numElements (c : Dense) : Nat := c.shape.prod

end Dense

structure Sparse where
  featureName : Text
  dtype : DataType

structure Config where
  dense : List Dense
  sparse : List Sparse

inductive Slot where
  | sparse (d : Nat)
  | dense (d : Nat)
deriving DecidableEq

/-- `PresizedCuckooMap`; an insertion fails when the key is there or there is no room. -/
structure PresizedCuckooMap where
  Table : Type u
  clear : Nat → Table
  insertUnique : Table → UInt64 → Slot → Bool × Table
  find : Table → UInt64 → Option Slot

inductive Complaint where
  | cannotParse
  | typesDiffer (found expected : Text)
  | sparseTypesDiffer (expected : Text)
  | wrongCount (kind : Text) (size : Int) (shape : List Nat)
deriving DecidableEq

inductive Error where
  | invalidConfigType (dtype : Text)
  | collision
  | couldNotParse (serialized : Text)
  | unsupportedDatatype
  | example (name key : Text) (index : Nat) (complaint : Complaint)
  | required (name feature : Text)
  | shouldNotHappen
  | addDim (sizes : List Nat)
  | emptyMinibatch
deriving DecidableEq

def dataTypeString : DataType → Text
  | .invalid => "INVALID".toUTF8.toList
  | .string => "string".toUTF8.toList
  | .float => "float".toUTF8.toList
  | .int64 => "int64".toUTF8.toList
  | .other name => name

def typeString : DataType → Text
  | .string => "bytes".toUTF8.toList
  | dtype => dataTypeString dtype

def shapeDebugString (shape : List Nat) : String :=
  "[" ++ ",".intercalate (shape.map toString) ++ "]"

def Complaint.text : Complaint → Text
  | .cannotParse => "Can't parse serialized Example.".toUTF8.toList
  | .typesDiffer found expected =>
    "Data types don't match. Data type: ".toUTF8.toList ++ found ++
      "Expected type: ".toUTF8.toList ++ expected
  | .sparseTypesDiffer expected =>
    "Data types don't match. Expected type: ".toUTF8.toList ++ expected
  | .wrongCount kind size shape =>
    "Number of ".toUTF8.toList ++ kind ++ " values != expected.  Values size: ".toUTF8.toList ++
      (toString size).toUTF8.toList ++ " but output shape: ".toUTF8.toList ++
      (shapeDebugString shape).toUTF8.toList

/-- The message of the status; the last three stand for failed checks and undefined behaviour. -/
def Error.message : Error → Text
  | .invalidConfigType dtype => "Invalid config dtype: ".toUTF8.toList ++ dtype
  | .collision => "Could not avoid collision. This should not happen.".toUTF8.toList
  | .couldNotParse serialized =>
    "Could not parse example input, value: '".toUTF8.toList ++ serialized ++ "'".toUTF8.toList
  | .unsupportedDatatype => "Unsuported datatype.".toUTF8.toList
  | .example name key index complaint =>
    "Name: ".toUTF8.toList ++ name ++ ", Key: ".toUTF8.toList ++ key ++ ", Index: ".toUTF8.toList ++
      (toString index).toUTF8.toList ++ ".  ".toUTF8.toList ++ complaint.text
  | .required name feature =>
    "Name: ".toUTF8.toList ++ name ++ ", Feature: ".toUTF8.toList ++ feature ++
      " is required but could not be found.".toUTF8.toList
  | .shouldNotHappen => "Should not happen.".toUTF8.toList
  | .addDim _ => []
  | .emptyMinibatch => []

/-- The checks of `AddDim` when a shape is made of these sizes. -/
def fitsTensor (sizes : List Nat) : Bool :=
  sizes.length ≤ 254 && Framework.elementsFit 1 sizes

/-- `std::copy_n` of `source` to the elements of `out` from `start`. -/
def copyN {α : Type u} (out : List α) (start : Nat) (source : List α) : List α :=
  out.take start ++ source ++ out.drop (start + source.length)

structure LimitedArraySlice where
  out : List Value
  current : Nat
  stop : Nat

namespace LimitedArraySlice

def endDistance (slice : LimitedArraySlice) : Int := slice.stop - slice.current

def pushBack (slice : LimitedArraySlice) (value : Value) : LimitedArraySlice where
  out := if 0 < slice.endDistance then slice.out.set slice.current value else slice.out
  current := slice.current + 1
  stop := slice.stop

end LimitedArraySlice

/-- Only the list of the configured type is used; it is `values`. -/
structure SparseBuffer where
  values : List Value
  exampleEndIndices : List Nat
deriving DecidableEq

structure Call where
  reader : Wire.Reader
  config : Config
  find : UInt64 → Option Slot
  hasher : Text → UInt64
  exampleName : Text
  exampleIndex : Nat

structure Progress where
  denseLast : List Int
  sparseLast : List Int
  dense : List (List Value)
  sparse : List SparseBuffer

namespace Call

def exampleError (c : Call) (featureName : Text) (complaint : Complaint) : Error :=
  .example c.exampleName featureName c.exampleIndex complaint

def visitDense (c : Call) (p : Progress) (d : Nat) (cfg : Dense) (name : Text)
    (exampleDtype : DataType) (feature : Feature) : Except Error Progress :=
  if exampleDtype = .invalid then .ok p
  else if p.denseLast[d]? = some (c.exampleIndex : Int) then .ok p
  else
    let denseLast := p.denseLast.set d c.exampleIndex
    if exampleDtype ≠ cfg.dtype then
      .error (c.exampleError name
        (.typesDiffer (dataTypeString exampleDtype) (dataTypeString cfg.dtype)))
    else
      let offset := c.exampleIndex * cfg.numElements
      match feature.parseList c.reader cfg.dtype with
      | none => .error (c.exampleError name .cannotParse)
      | some values =>
        let slice := values.foldl LimitedArraySlice.pushBack
          ⟨(p.dense[d]?).getD [], offset, offset + cfg.numElements⟩
        if slice.endDistance ≠ 0 then
          .error (c.exampleError name (.wrongCount (typeString cfg.dtype)
            (cfg.numElements - slice.endDistance) cfg.shape))
        else .ok { p with denseLast := denseLast, dense := p.dense.set d slice.out }

def visitSparse (c : Call) (p : Progress) (d : Nat) (cfg : Sparse) (name : Text)
    (exampleDtype : DataType) (feature : Feature) : Except Error Progress :=
  if p.sparseLast[d]? = some (c.exampleIndex : Int) then .ok p
  else
    let sparseLast := p.sparseLast.set d c.exampleIndex
    let out := (p.sparse[d]?).getD ⟨[], []⟩
    if exampleDtype ≠ .invalid ∧ exampleDtype ≠ cfg.dtype then
      .error (c.exampleError name (.sparseTypesDiffer (dataTypeString cfg.dtype)))
    else
      match if exampleDtype = .invalid then some [] else feature.parseList c.reader cfg.dtype with
      | none => .error (c.exampleError name .cannotParse)
      | some values =>
        let all := out.values ++ values
        .ok { p with
          sparseLast := sparseLast
          sparse := p.sparse.set d ⟨all, out.exampleEndIndices ++ [all.length]⟩ }

/-- One turn of the loop over the features of the example. -/
def visit (c : Call) (p : Progress) (entry : FeatureMapEntry) : Except Error Progress :=
  match c.find (c.hasher entry.name) with
  | none => .ok p
  | some (.dense d) =>
    match c.config.dense[d]? with
    | none => .error .shouldNotHappen
    | some cfg =>
      if entry.name ≠ cfg.featureName then .ok p
      else
        match entry.feature.parseDataType with
        | none => .error .unsupportedDatatype
        | some (dtype, feature) => c.visitDense p d cfg entry.name dtype feature
  | some (.sparse d) =>
    match c.config.sparse[d]? with
    | none => .error .shouldNotHappen
    | some cfg =>
      if entry.name ≠ cfg.featureName then .ok p
      else
        match entry.feature.parseDataType with
        | none => .error .unsupportedDatatype
        | some (dtype, feature) => c.visitSparse p d cfg entry.name dtype feature

def missingDense (c : Call) (p : Progress) (d : Nat) (cfg : Dense) : Except Error Progress :=
  if p.denseLast[d]? = some (c.exampleIndex : Int) then .ok p
  else if cfg.defaultValue.length = 0 then .error (.required c.exampleName cfg.featureName)
  else
    let offset := c.exampleIndex * cfg.defaultValue.length
    .ok { p with dense := p.dense.set d (copyN ((p.dense[d]?).getD []) offset cfg.defaultValue) }

def missingSparse (c : Call) (p : Progress) (d : Nat) : Progress :=
  if p.sparseLast[d]? = some (c.exampleIndex : Int) then p
  else
    let out := (p.sparse[d]?).getD ⟨[], []⟩
    let previous := out.exampleEndIndices.getLast?.getD 0
    { p with sparse := p.sparse.set d ⟨out.values, out.exampleEndIndices ++ [previous]⟩ }

/-- The outputs as `FastParseSerializedExample` leaves them. -/
def fastParseSerializedExample (c : Call) (serialized : Text) (dense : List (List Value))
    (sparse : List SparseBuffer) : Except Error (List (List Value) × List SparseBuffer) := do
  let some entries := parseExample c.reader serialized | throw (.couldNotParse serialized)
  let start : Progress :=
    ⟨c.config.dense.map fun _ => -1, c.config.sparse.map fun _ => -1, dense, sparse⟩
  let p ← entries.reverse.foldlM c.visit start
  let p ← c.config.dense.zipIdx.foldlM (fun p (cfg, d) => c.missingDense p d cfg) p
  let p := (range c.config.sparse.length).foldl c.missingSparse p
  return (p.dense, p.sparse)

end Call

def checkConfigDataType (dtype : DataType) : Except Error Unit :=
  match dtype with
  | .int64 | .float | .string => .ok ()
  | dtype => .error (.invalidConfigType (dataTypeString dtype))

namespace Config

def check (config : Config) : Except Error Unit := do
  config.sparse.forM fun c => checkConfigDataType c.dtype
  config.dense.forM fun c => checkConfigDataType c.dtype

def slots (config : Config) : List (Text × Slot) :=
  config.dense.zipIdx.map (fun (c, d) => (c.featureName, .dense d)) ++
    config.sparse.zipIdx.map fun (c, d) => (c.featureName, .sparse d)

/-- One try to insert all names; `ok` is not set again after a failure. -/
def insertAll (config : Config) (map : PresizedCuckooMap.{u}) (hasher : Text → UInt64)
    (ok : Bool) (table : map.Table) : Bool × map.Table :=
  config.slots.foldl (fun (ok, table) (name, slot) =>
    let (inserted, table) := map.insertUnique table (hasher name) slot
    (ok && inserted, table)) (ok, table)

def indexLoop (config : Config) (map : PresizedCuckooMap.{u}) (hash64 : UInt64 → Text → UInt64) :
    Nat → UInt64 → Bool → map.Table → Option (UInt64 × map.Table)
  | 0, _, _, _ => none
  | tries + 1, seed, ok, table =>
    match config.insertAll map (hash64 seed) ok table with
    | (true, table) => some (seed, table)
    | (false, _) => config.indexLoop map hash64 tries (seed + 1) false
        (map.clear (config.dense.length + config.sparse.length))

def configIndex (config : Config) (map : PresizedCuckooMap.{u})
    (hash64 : UInt64 → Text → UInt64) : Option (UInt64 × map.Table) :=
  config.indexLoop map hash64 1000 0xDECAFCAFFE true
    (map.clear (config.dense.length + config.sparse.length))

end Config

/-- Whether the dense outputs of `batchSize` examples can be allocated. -/
def Config.allocates (config : Config) (batchSize : Nat) : Bool :=
  config.dense.all fun c => fitsTensor (batchSize :: c.shape)

def kMiniBatchSizeBytes : Nat := 50000

def countMinibatches (state : Nat × Nat) (serialized : Text) : Nat × Nat :=
  let result := if state.2 = 0 then state.1 + 1 else state.1
  let minibatchBytes := state.2 + (serialized.length + 1)
  (result, if kMiniBatchSizeBytes < minibatchBytes then 0 else minibatchBytes)

def numMinibatches (serialized : List Text) : Nat :=
  let result := (serialized.foldl countMinibatches (0, 0)).1
  max (min 8 serialized.length) (min 64 result)

/-- The arguments of `FastParseExample` with the index of the names; the caller gives no name
or one for each example. -/
structure Batch where
  reader : Wire.Reader
  config : Config
  find : UInt64 → Option Slot
  hasher : Text → UInt64
  serialized : List Text
  exampleNames : List Text
  length_names : exampleNames = [] ∨ exampleNames.length = serialized.length

structure Task where
  next : Nat
  status : Except Error Unit
  buffers : List SparseBuffer

structure Work where
  dense : List (List Value)
  tasks : List Task

namespace Batch

variable (b : Batch)

def firstExampleOfMinibatch (minibatch : Nat) : Nat :=
  b.serialized.length * minibatch / numMinibatches b.serialized

def exampleName (e : Nat) : Text :=
  if 0 < b.exampleNames.length then (b.exampleNames[e]?).getD [] else "<unknown>".toUTF8.toList

def call (e : Nat) : Call := ⟨b.reader, b.config, b.find, b.hasher, b.exampleName e, e⟩

/-- `blank` stands for what a new tensor holds. -/
def start (blank : Value) : Work where
  dense := b.config.dense.map fun c =>
    replicate (b.serialized.length * c.numElements) blank
  tasks := (range (numMinibatches b.serialized)).map fun m =>
    ⟨b.firstExampleOfMinibatch m, .ok (), b.config.sparse.map fun _ => ⟨[], []⟩⟩

/-- The next example of a task, unless it is done or has failed. -/
def step (w : Work) (minibatch : Nat) : Outcome Work Empty :=
  match w.tasks[minibatch]? with
  | none => .blocked
  | some task =>
    match task.status, b.serialized[task.next]? with
    | .ok (), some serialized =>
      if task.next < b.firstExampleOfMinibatch (minibatch + 1) then
        match (b.call task.next).fastParseSerializedExample serialized w.dense task.buffers with
        | .ok (dense, buffers) =>
          .next ⟨dense, w.tasks.set minibatch ⟨task.next + 1, .ok (), buffers⟩⟩
        | .error e =>
          .next { w with tasks := w.tasks.set minibatch { task with status := .error e } }
      else .blocked
    | _, _ => .blocked

def Finished (w : Work) : Prop := ∀ minibatch, b.step w minibatch = .blocked

end Batch

structure SparseOutput where
  indices : List (Nat × Nat)
  values : List Value
  shape : Nat × Nat
deriving DecidableEq

structure DenseOutput where
  shape : List Nat
  values : List Value
deriving DecidableEq

structure Result where
  sparse : List SparseOutput
  dense : List DenseOutput
deriving DecidableEq

def exampleSizes (previous : Nat) : List Nat → List Nat
  | [] => []
  | exampleEnd :: rest => (exampleEnd - previous) :: exampleSizes exampleEnd rest

def bufferIndices (exampleIndex delta : Nat) : List Nat → List (Nat × Nat) × Nat
  | [] => ([], delta)
  | exampleEnd :: rest =>
    let (indices, count) := bufferIndices (exampleIndex + 1) (max delta exampleEnd) rest
    ((range (exampleEnd - delta)).map (fun feature => (exampleIndex, feature)) ++ indices, count)

/-- A buffer's part of the outputs, from `offset` on. -/
def mergeBuffer (firstExample : Nat → Nat) (state : SparseOutput × Nat)
    (buffer : SparseBuffer × Nat) : SparseOutput × Nat :=
  let (out, offset) := state
  let (indices, delta) := bufferIndices (firstExample buffer.2) 0 buffer.1.exampleEndIndices
  ({ out with
      indices := copyN out.indices offset indices
      values := copyN out.values offset buffer.1.values }, offset + delta)

def Batch.mergeMinibatches (b : Batch) (blank : Value) (buffers : List SparseBuffer) :
    Except Error SparseOutput :=
  -- The back of each vector of end indices is taken.
  if buffers.any fun buffer => buffer.exampleEndIndices.isEmpty then .error .emptyMinibatch
  else
    let total := (buffers.map fun buffer => buffer.exampleEndIndices.getLast?.getD 0).sum
    let sizes := buffers.flatMap fun buffer => exampleSizes 0 buffer.exampleEndIndices
    if fitsTensor [total, 2] then
      let out : SparseOutput := ⟨replicate total (0, 0), replicate total blank,
        (b.serialized.length, sizes.foldl max 0)⟩
      .ok (buffers.zipIdx.foldl (mergeBuffer b.firstExampleOfMinibatch) (out, 0)).1
    else .error (.addDim [total, 2])

def Batch.conclude (b : Batch) (blank : Value) (w : Work) : Except Error Result := do
  w.tasks.forM fun task => task.status
  let sparse ← (range b.config.sparse.length).mapM fun d =>
    b.mergeMinibatches blank (w.tasks.map fun task => (task.buffers[d]?).getD ⟨[], []⟩)
  let dense := (b.config.dense.zip w.dense).map fun (c, values) =>
    DenseOutput.mk (b.serialized.length :: c.shape) values
  return ⟨sparse, dense⟩

structure Setting where
  reader : Wire.Reader
  map : PresizedCuckooMap.{u}
  hash64 : UInt64 → Text → UInt64
  blank : Value

/-- What a call of `FastParseExample` may return, under any schedule of its tasks. -/
inductive FastParseExample (setting : Setting.{u}) (config : Config)
    (serialized exampleNames : List Text) : Except Error Result → Prop where
  | badType {e : Error} (h : config.check = .error e) :
      FastParseExample setting config serialized exampleNames (.error e)
  | collision (hTypes : config.check = .ok ())
      (h : config.configIndex setting.map setting.hash64 = none) :
      FastParseExample setting config serialized exampleNames (.error .collision)
  | tooLarge {cfg : Dense} (hTypes : config.check = .ok ())
      (hIndex : config.configIndex setting.map setting.hash64 ≠ none) (hMem : cfg ∈ config.dense)
      (h : ¬fitsTensor (serialized.length :: cfg.shape)) :
      FastParseExample setting config serialized exampleNames
        (.error (.addDim (serialized.length :: cfg.shape)))
  | parsed {seed : UInt64} {table : setting.map.Table} {w : Work} {b : Batch}
      (hTypes : config.check = .ok ())
      (hIndex : config.configIndex setting.map setting.hash64 = some (seed, table))
      (hAllocated : config.allocates serialized.length)
      (hNames : exampleNames = [] ∨ exampleNames.length = serialized.length)
      (hBatch : b = ⟨setting.reader, config, setting.map.find table, setting.hash64 seed,
        serialized, exampleNames, hNames⟩)
      (hRun : Reach b.step anyStep (b.start setting.blank) w) (hFinished : b.Finished w) :
      FastParseExample setting config serialized exampleNames (b.conclude setting.blank w)

namespace Config

open Option Bool

/-- What the insertions of a try return. -/
def insertions (map : PresizedCuckooMap.{u}) (hasher : Text → UInt64) :
    List (Text × Slot) → map.Table → List Bool
  | [], _ => []
  | (name, slot) :: rest, table =>
    (map.insertUnique table (hasher name) slot).1 ::
      insertions map hasher rest (map.insertUnique table (hasher name) slot).2

variable (config : Config) (map : PresizedCuckooMap.{u}) (hash64 : UInt64 → Text → UInt64)

/-- Some insertion into the cleared index fails under `seed`. -/
def Collides (seed : UInt64) : Prop :=
  false ∈ insertions map (hash64 seed) config.slots
    (map.clear (config.dense.length + config.sparse.length))

theorem insertAll_ok (hasher : Text → UInt64) (ok : Bool) (table : map.Table) :
    (config.insertAll map hasher ok table).1 =
      (ok && (insertions map hasher config.slots table).all id) := by
  unfold insertAll
  induction config.slots generalizing ok table with
  | nil => exact (Bool.and_true ok).symm
  | cons entry rest ih =>
    rw [foldl_cons, ih, Bool.and_assoc]
    rfl

/-- A failure is not forgotten when the next seed is tried. -/
theorem indexLoop_failed (tries : Nat) (seed : UInt64) (table : map.Table) :
    config.indexLoop map hash64 tries seed false table = none := by
  induction tries generalizing seed table with
  | zero => rfl
  | succ tries ih =>
    have hFailed := config.insertAll_ok map (hash64 seed) false table
    rw [indexLoop]
    split
    · rename_i hEq
      rw [hEq] at hFailed
      cases hFailed
    · exact ih _ _

theorem configIndex_eq_none_iff :
    config.configIndex map hash64 = none ↔ config.Collides map hash64 0xDECAFCAFFE := by
  have hFirst := config.insertAll_ok map (hash64 0xDECAFCAFFE) true
    (map.clear (config.dense.length + config.sparse.length))
  rw [configIndex, indexLoop, Collides]
  rw [Bool.true_and] at hFirst
  split
  · rename_i hEq
    rw [hEq, eq_comm, List.all_eq_true] at hFirst
    exact iff_of_false (some_ne_none _) fun hMem => false_ne_true (hFirst _ hMem)
  · rename_i hEq
    rw [hEq, eq_comm, List.all_eq_false] at hFirst
    obtain ⟨result, hMem, hFalse⟩ := hFirst
    rw [indexLoop_failed]
    exact iff_of_true rfl ((eq_false_iff.mpr hFalse) ▸ hMem)

end Config

section Collision

open Fallible (Ends)

/-- What is read after the index is made does not complain of a collision. -/
abbrev Clear {α : Type} (r : Except Error α) : Prop := Ends (fun _ => True) (· ≠ .collision) r

theorem Call.visitDense_clear (c : Call) (p : Progress) (d : Nat) (cfg : Dense) (name : Text)
    (dtype : DataType) (feature : Feature) : Clear (c.visitDense p d cfg name dtype feature) := by
  rw [visitDense]
  split
  · trivial
  split
  · trivial
  split
  · exact Error.noConfusion
  split
  · exact Error.noConfusion
  · dsimp only
    split
    · exact Error.noConfusion
    · trivial

theorem Call.visitSparse_clear (c : Call) (p : Progress) (d : Nat) (cfg : Sparse) (name : Text)
    (dtype : DataType) (feature : Feature) : Clear (c.visitSparse p d cfg name dtype feature) := by
  rw [visitSparse]
  split
  · trivial
  split
  · exact Error.noConfusion
  split
  · exact Error.noConfusion
  · trivial

theorem Call.visit_clear (c : Call) (p : Progress) (entry : FeatureMapEntry) :
    Clear (c.visit p entry) := by
  rw [visit]
  split
  · trivial
  all_goals
    split
    · exact Error.noConfusion
    split
    · trivial
    split
    · exact Error.noConfusion
  · exact c.visitDense_clear ..
  · exact c.visitSparse_clear ..

theorem Call.missingDense_clear (c : Call) (p : Progress) (d : Nat) (cfg : Dense) :
    Clear (c.missingDense p d cfg) := by
  rw [missingDense]
  split
  · trivial
  split
  · exact Error.noConfusion
  · trivial

theorem Call.fastParseSerializedExample_clear (c : Call) (serialized : Text)
    (dense : List (List Value)) (sparse : List SparseBuffer) :
    Clear (c.fastParseSerializedExample serialized dense sparse) := by
  rw [fastParseSerializedExample]
  split
  · refine Ends.bind (Ends.foldlM (fun p entry _ => c.visit_clear p entry) trivial) fun p _ _ => ?_
    exact Ends.bind (Ends.foldlM (fun p entry _ => c.missingDense_clear p entry.2 entry.1) trivial)
      fun _ _ _ => trivial
  · exact Error.noConfusion

theorem Batch.step_clear {b : Batch} {w w' : Work} {m : Nat}
    (h : ∀ task ∈ w.tasks, Clear task.status) (hStep : b.step w m = .next w') :
    ∀ task ∈ w'.tasks, Clear task.status := by
  have hSet (task' : Task) (hClear : Clear task'.status) :
      ∀ task ∈ w.tasks.set m task', Clear task.status := by
    intro task hMem
    rcases mem_or_eq_of_mem_set hMem with hOld | rfl
    · exact h task hOld
    · exact hClear
  rw [step] at hStep
  split at hStep
  · cases hStep
  split at hStep
  · split at hStep
    · have hParsed := Call.fastParseSerializedExample_clear
      split at hStep
      · cases hStep
        exact hSet _ trivial
      · rename_i e hError
        cases hStep
        exact hSet _ ((hParsed _ _ _ _).of_error hError)
    · cases hStep
  · cases hStep

theorem forM_clear {tasks : List Task} (h : ∀ task ∈ tasks, Clear task.status) :
    Clear (tasks.forM fun task => task.status) := by
  induction tasks with
  | nil => trivial
  | cons task tasks ih =>
    rw [forall_mem_cons] at h
    exact h.1.bind fun _ _ _ => ih h.2

theorem Batch.conclude_clear {b : Batch} {blank : Value} {w : Work}
    (h : ∀ task ∈ w.tasks, Clear task.status) : Clear (b.conclude blank w) := by
  have hMerged (buffers : List SparseBuffer) : Clear (b.mergeMinibatches blank buffers) := by
    rw [mergeMinibatches]
    split
    · exact Error.noConfusion
    · dsimp only
      split
      · trivial
      · exact Error.noConfusion
  exact (forM_clear h).bind fun _ _ _ => (Ends.mapM fun d _ => hMerged _).bind fun _ _ _ => trivial

theorem fastParseExample_collision_iff {setting : Setting.{u}} {config : Config}
    {serialized exampleNames : List Text} (hTypes : config.check = .ok ()) :
    FastParseExample setting config serialized exampleNames (.error .collision) ↔
      config.configIndex setting.map setting.hash64 = none := by
  constructor
  · intro h
    generalize hr : Except.error Error.collision = r at h
    cases h with
    | badType hError =>
      rw [hTypes] at hError
      cases hError
    | collision _ hIndex => exact hIndex
    | tooLarge _ _ _ _ => cases hr
    | parsed hTypes' hIndex hAllocated hNames hBatch hRun hFinished =>
      rename_i seed table w b
      have hStart : ∀ task ∈ (b.start setting.blank).tasks, Clear task.status := by
        intro task hMem
        obtain ⟨m, -, rfl⟩ := List.mem_map.mp hMem
        trivial
      have hClear := hRun.invariant (fun w => ∀ task ∈ w.tasks, Clear task.status) hStart
        fun _ _ _ hInv _ hStep => Batch.step_clear hInv hStep
      exact absurd rfl ((Batch.conclude_clear hClear).of_error hr.symm)
  · exact .collision hTypes

end Collision

namespace Config

/-- The index recovers from a collision under the first seed if and only if no seed would do. -/
theorem configIndex_collides_iff (setting : Setting.{u}) (config : Config)
    (serialized exampleNames : List Text) (hTypes : config.check = .ok ()) :
    (FastParseExample setting config serialized exampleNames (.error .collision) →
      ∀ i < 1000, config.Collides setting.map setting.hash64 (0xDECAFCAFFE + UInt64.ofNat i)) ↔
    ¬config.Collides setting.map setting.hash64 0xDECAFCAFFE ∨
      ∀ i < 1000, config.Collides setting.map setting.hash64 (0xDECAFCAFFE + UInt64.ofNat i) := by
  rw [fastParseExample_collision_iff hTypes, configIndex_eq_none_iff, imp_iff_not_or]

/-- A map with room for every key. -/
def roomyMap : PresizedCuckooMap where
  Table := List (UInt64 × Slot)
  clear _ := []
  insertUnique table k v :=
    if (table.lookup k).isSome then (false, table) else (true, (k, v) :: table)
  find table k := table.lookup k

def byteSum (seed : UInt64) (name : Text) : UInt64 :=
  name.foldl (fun sum byte => sum + byte.toUInt64) seed

/-- All names have one hash under the first seed. -/
def firstSeedFails : Setting where
  reader := .documented
  map := roomyMap
  hash64 seed name := if seed = 0xDECAFCAFFE then 7 else byteSum 0 name
  blank := .int64 0

def twoNames : Config := ⟨[⟨[97], .int64, [], []⟩], [⟨[98], .int64⟩]⟩

theorem twoNames_collides_iff :
    (FastParseExample firstSeedFails twoNames [] [] (.error .collision) →
      ∀ i < 1000, twoNames.Collides roomyMap firstSeedFails.hash64
        (0xDECAFCAFFE + UInt64.ofNat i)) ↔
    ¬twoNames.Collides roomyMap firstSeedFails.hash64 0xDECAFCAFFE ∨
      ∀ i < 1000, twoNames.Collides roomyMap firstSeedFails.hash64
        (0xDECAFCAFFE + UInt64.ofNat i) :=
  configIndex_collides_iff firstSeedFails twoNames [] [] rfl

/-- Two names that collide under the first seed only. -/
theorem configIndex_gives_up :
    ¬∀ (setting : Setting.{0}) (config : Config) (serialized exampleNames : List Text),
      (config.slots.map Prod.fst).Nodup →
      FastParseExample setting config serialized exampleNames (.error .collision) →
      ∀ i < 1000, config.Collides setting.map setting.hash64 (0xDECAFCAFFE + UInt64.ofNat i) := by
  intro h
  have hFirst : twoNames.Collides roomyMap firstSeedFails.hash64 0xDECAFCAFFE := by
    unfold Collides
    decide
  have hNone := (configIndex_eq_none_iff _ _ _).mpr hFirst
  have hTwo : 1 < 1000 := by decide
  refine absurd (h firstSeedFails twoNames [] [] (by decide) (.collision rfl hNone) 1 hTwo) ?_
  unfold Collides
  decide

end Config

end TensorFlowOnSpark.Util
