import Mathlib.Data.List.Nodup
import Mathlib.Data.Set.Function

/-!
# The buffer tables of a channel

`RdmaChannel` keeps its buffers in three tables: from the hash of a name to the buffer,
from the hash to the name, and from the name to the hash.
-/

namespace TensorFlowOnSpark.Rdma

open List

/-- A step of the mixing loop of `Hash32`; the four bytes of `k` are little-endian. -/
def mixWord (h k : UInt32) : UInt32 :=
  let m : UInt32 := 0x5bd1e995
  let k := k * m
  let k := k ^^^ (k >>> 24)
  (h * m) ^^^ (k * m)

def finishHash (h : UInt32) : UInt32 :=
  let m : UInt32 := 0x5bd1e995
  let h := (h ^^^ (h >>> 13)) * m
  h ^^^ (h >>> 15)

/-- The loop of `Hash32` and the `switch` over the bytes that are left. -/
def hashBytes (h : UInt32) : List UInt8 → UInt32
  | a :: b :: c :: d :: rest =>
    hashBytes (mixWord h (a.toUInt32 ||| (b.toUInt32 <<< 8) ||| (c.toUInt32 <<< 16) |||
      (d.toUInt32 <<< 24))) rest
  | [a, b, c] => finishHash ((h ^^^ (c.toUInt32 <<< 16) ^^^ (b.toUInt32 <<< 8) ^^^ a.toUInt32) *
      0x5bd1e995)
  | [a, b] => finishHash ((h ^^^ (b.toUInt32 <<< 8) ^^^ a.toUInt32) * 0x5bd1e995)
  | [a] => finishHash ((h ^^^ a.toUInt32) * 0x5bd1e995)
  | [] => finishHash h

def hash32 (data : List UInt8) (seed : UInt32) : UInt32 :=
  hashBytes (seed ^^^ UInt32.ofNat data.length) data

def nameHash (name : String) : UInt32 := hash32 name.toUTF8.data.toList 0x1234ABCD

inductive BufferType where
  | ack | message | tensor
deriving DecidableEq, Repr

/-- `buffers` are the buffers that were created, each with its name; a pointer to a buffer
is its place there. -/
structure BufferTables where
  buffers : List (String × BufferType)
  bufferTable : List (UInt32 × Nat)
  bufferIndexNameTable : List (UInt32 × String)
  bufferNameIndexTable : List (String × UInt32)
deriving DecidableEq, Repr

def insertNew {α β : Type} [BEq α] (table : List (α × β)) (key : α) (value : β) :
    List (α × β) :=
  if (table.lookup key).isSome then table else table ++ [(key, value)]

theorem lookup_insertNew {α β : Type} [BEq α] (table : List (α × β)) (key key' : α) (value : β) :
    (insertNew table key value).lookup key' =
      if (table.lookup key).isSome then table.lookup key'
      else (table.lookup key').or (if key' == key then some value else none) := by
  unfold insertNew
  split
  · rfl
  · rw [lookup_append]
    congr 1
    rw [lookup_cons]
    split <;> simp_all

namespace BufferTables

def empty : BufferTables := ⟨[], [], [], []⟩

variable (hash : String → UInt32)

/-- `new` of a buffer and the three calls of `insert`. -/
def create (t : BufferTables) (name : String) (type : BufferType) : BufferTables where
  buffers := t.buffers ++ [(name, type)]
  bufferTable := insertNew t.bufferTable (hash name) t.buffers.length
  bufferIndexNameTable := insertNew t.bufferIndexNameTable (hash name) name
  bufferNameIndexTable := insertNew t.bufferNameIndexTable name (hash name)

/-- `buffer_names` of the constructor, with the type of each buffer. -/
def messageBuffers : List (String × BufferType) :=
  [("tx_message_buffer", .message), ("rx_message_buffer", .message), ("tx_ack_buffer", .ack),
    ("rx_ack_buffer", .ack)]

/-- The tables that the constructor `RdmaChannel` leaves. -/
def initial : BufferTables :=
  messageBuffers.foldl (fun t buffer => t.create hash buffer.1 buffer.2) empty

/-- `none` is a failed `CHECK`, here and in the functions below. -/
def lookupBufferIndex (t : BufferTables) (name : String) : Option UInt32 :=
  t.bufferNameIndexTable.lookup name

def findBufferAt (t : BufferTables) (index : UInt32) : Option Nat := t.bufferTable.lookup index

def findBuffer (t : BufferTables) (name : String) : Option Nat :=
  (t.lookupBufferIndex name).bind t.findBufferAt

def findOrCreateBuffer (t : BufferTables) (name : String) (type : BufferType) :
    Option (BufferTables × Nat) :=
  match t.bufferNameIndexTable.lookup name with
  | some index => (t.bufferTable.lookup index).map fun rb => (t, rb)
  | none => some (t.create hash name type, t.buffers.length)

/-- The calls of `FindOrCreateBuffer` one after the other, with the buffers they return. -/
def findOrCreateBuffers :
    BufferTables → List (String × BufferType) → Option (BufferTables × List Nat)
  | t, [] => some (t, [])
  | t, call :: calls => do
    let (t, rb) ← t.findOrCreateBuffer hash call.1 call.2
    let (t, rbs) ← findOrCreateBuffers t calls
    some (t, rb :: rbs)

def names (t : BufferTables) : List String := t.buffers.map Prod.fst

def CreatedFor (t : BufferTables) (rb : Nat) (name : String) : Prop := t.names[rb]? = some name

structure Agree (t : BufferTables) : Prop where
  found : ∀ name ∈ t.names, ∃ index rb, t.lookupBufferIndex name = some index ∧
    t.findBufferAt index = some rb ∧ t.findBuffer name = some rb ∧ t.CreatedFor rb name
  distinct : ∀ name name' rb, t.findBuffer name = some rb → t.findBuffer name' = some rb →
    name = name'
  inverse : ∀ name index, t.bufferNameIndexTable.lookup name = some index ↔
    t.bufferIndexNameTable.lookup index = some name
  buffer : ∀ index rb, t.bufferTable.lookup index = some rb ↔
    ∃ name, t.bufferIndexNameTable.lookup index = some name ∧ t.CreatedFor rb name

structure Tabulates (t : BufferTables) : Prop where
  nodup : t.names.Nodup
  nameIndex : ∀ name, t.bufferNameIndexTable.lookup name =
    if name ∈ t.names then some (hash name) else none
  indexName : ∀ index, t.bufferIndexNameTable.lookup index =
    t.names.find? fun name => hash name = index
  buffer : ∀ index, t.bufferTable.lookup index =
    t.names.findIdx? fun name => hash name = index

variable {hash} {t : BufferTables}

variable (hash) in
theorem tabulates_empty : empty.Tabulates hash where
  nodup := nodup_nil
  nameIndex _ := rfl
  indexName _ := rfl
  buffer _ := rfl

theorem names_create (name : String) (type : BufferType) :
    (t.create hash name type).names = t.names ++ [name] := by
  simp [names, create]

variable {name : String} {rb : Nat}

theorem Tabulates.create (h : t.Tabulates hash) (hNew : name ∉ t.names)
    (type : BufferType) : (t.create hash name type).Tabulates hash where
  nodup := by
    rw [names_create]
    exact nodup_append.mpr ⟨h.nodup, nodup_singleton name, by
      intro a hMem b hSingle hEq
      exact hNew (mem_singleton.mp hSingle ▸ hEq ▸ hMem)⟩
  nameIndex name' := by
    rw [names_create]
    change (insertNew t.bufferNameIndexTable name (hash name)).lookup name' = _
    rw [lookup_insertNew, h.nameIndex, h.nameIndex]
    by_cases hOld : name' ∈ t.names
    · simp [hOld]
    · by_cases hSame : name' = name
      · simp [hSame, hNew]
      · simp [hSame]
  indexName index := by
    rw [names_create]
    change (insertNew t.bufferIndexNameTable (hash name) name).lookup index = _
    rw [lookup_insertNew, h.indexName, h.indexName, find?_append]
    split
    · rename_i hTaken
      by_cases hSame : hash name = index
      · rw [hSame] at hTaken
        rw [Option.or_of_isSome hTaken]
      · simp [hSame]
    · congr 1
      by_cases hSame : hash name = index
      · simp [hSame]
      · simp [hSame, Ne.symm hSame]
  buffer index := by
    rw [names_create]
    change (insertNew t.bufferTable (hash name) t.buffers.length).lookup index = _
    have hLength : t.buffers.length = t.names.length := (length_map _).symm
    rw [lookup_insertNew, h.buffer, h.buffer, findIdx?_append, hLength]
    split
    · rename_i hTaken
      by_cases hSame : hash name = index
      · rw [hSame] at hTaken
        rw [Option.or_of_isSome hTaken]
      · simp [hSame]
    · congr 1
      by_cases hSame : hash name = index
      · simp [hSame]
      · simp [hSame, Ne.symm hSame]

theorem tabulates_initial : (initial hash).Tabulates hash := by
  have h₀ := tabulates_empty hash
  have h₁ := h₀.create (show "tx_message_buffer" ∉ _ by simp [names, empty]) .message
  have h₂ := h₁.create (show "rx_message_buffer" ∉ _ by simp [names, create, empty]) .message
  have h₃ := h₂.create (show "tx_ack_buffer" ∉ _ by simp [names, create, empty]) .ack
  exact h₃.create (show "rx_ack_buffer" ∉ _ by simp [names, create, empty]) .ack

theorem Tabulates.findOrCreateBuffer (h : t.Tabulates hash) (name : String) (type : BufferType) :
    ∃ t' rb, t.findOrCreateBuffer hash name type = some (t', rb) ∧ t'.Tabulates hash ∧
      (∀ other, other ∈ t'.names ↔ other ∈ t.names ∨ other = name) ∧
      t.names <+: t'.names ∧ ∃ name', t'.CreatedFor rb name' ∧ hash name' = hash name := by
  unfold BufferTables.findOrCreateBuffer
  rw [h.nameIndex]
  by_cases hOld : name ∈ t.names
  · have hFound : ∃ rb, t.names.findIdx? (fun other => hash other = hash name) = some rb := by
      rw [← Option.isSome_iff_exists, findIdx?_isSome, any_eq_true]
      exact ⟨name, hOld, by simp⟩
    obtain ⟨rb, hRb⟩ := hFound
    obtain ⟨hLess, hHash, -⟩ := findIdx?_eq_some_iff_getElem.mp hRb
    refine ⟨t, rb, by simp [hOld, h.buffer, hRb], h, ?_, prefix_refl _, t.names[rb], ?_, ?_⟩
    · intro other
      constructor
      · exact Or.inl
      · rintro (hMem | rfl)
        · exact hMem
        · exact hOld
    · exact getElem?_eq_getElem hLess
    · simpa using hHash
  · refine ⟨t.create hash name type, t.buffers.length, by simp [hOld], h.create hOld type, ?_, ?_,
      name, ?_, rfl⟩
    · intro other
      rw [names_create, mem_append, mem_singleton]
    · rw [names_create]
      exact prefix_append _ _
    · change (t.create hash name type).names[t.buffers.length]? = some name
      rw [names_create, show t.buffers.length = t.names.length from (length_map _).symm]
      exact getElem?_concat_length

theorem CreatedFor.mono {t' : BufferTables} (hPrefix : t.names <+: t'.names)
    (h : t.CreatedFor rb name) : t'.CreatedFor rb name := by
  obtain ⟨more, hMore⟩ := hPrefix
  have hGet : t.names[rb]? = some name := h
  change t'.names[rb]? = some name
  rw [← hMore, getElem?_append_left (List.getElem?_eq_some_iff.mp hGet).1]
  exact hGet

def Answers (hash : String → UInt32) (t : BufferTables) :
    List (String × BufferType) → List Nat → Prop :=
  Forall₂ fun call rb => ∃ name, t.CreatedFor rb name ∧ hash name = hash call.1

theorem Tabulates.findOrCreateBuffers (calls : List (String × BufferType)) (h : t.Tabulates hash) :
    ∃ t' rbs, t.findOrCreateBuffers hash calls = some (t', rbs) ∧ t'.Tabulates hash ∧
      (∀ other, other ∈ t'.names ↔ other ∈ t.names ∨ other ∈ calls.map Prod.fst) ∧
      t.names <+: t'.names ∧ Answers hash t' calls rbs := by
  induction calls generalizing t with
  | nil => exact ⟨t, [], rfl, h, by simp, prefix_refl _, Forall₂.nil⟩
  | cons call calls ih =>
    obtain ⟨t₁, rb, hCall, h₁, hNames₁, hPrefix₁, name, hCreated, hHash⟩ :=
      h.findOrCreateBuffer call.1 call.2
    obtain ⟨t₂, rbs, hCalls, h₂, hNames₂, hPrefix₂, hAnswers⟩ := ih h₁
    refine ⟨t₂, rb :: rbs, ?_, h₂, ?_, hPrefix₁.trans hPrefix₂, ?_⟩
    · simp [findOrCreateBuffers, hCall, hCalls]
    · intro other
      rw [hNames₂, hNames₁, map_cons, mem_cons, or_assoc]
    · exact Forall₂.cons ⟨name, hCreated.mono hPrefix₂, hHash⟩ hAnswers

theorem Tabulates.findBuffer (h : t.Tabulates hash) (hMem : name ∈ t.names) :
    t.findBuffer name = t.names.findIdx? fun other => hash other = hash name := by
  rw [BufferTables.findBuffer, lookupBufferIndex, h.nameIndex, if_pos hMem]
  exact h.buffer (hash name)

theorem Tabulates.mem_of_findBuffer (h : t.Tabulates hash)
    (hFound : t.findBuffer name = some rb) : name ∈ t.names := by
  rw [BufferTables.findBuffer, lookupBufferIndex, h.nameIndex] at hFound
  split at hFound
  · assumption
  · cases hFound

theorem Tabulates.injOn_of_agree (h : t.Tabulates hash) (hAgree : t.Agree) :
    Set.InjOn hash {name | name ∈ t.names} := by
  intro name hMem name' hMem' hSame
  obtain ⟨index, rb, -, -, hFound, -⟩ := hAgree.found name hMem
  apply hAgree.distinct name name' rb hFound
  rw [h.findBuffer hMem', ← hSame, ← h.findBuffer hMem]
  exact hFound

theorem findIdx?_hash {names : List String} (hInj : Set.InjOn hash {name | name ∈ names})
    (hNodup : names.Nodup) {index : UInt32} (hName : names[rb]? = some name) :
    names.findIdx? (fun other => hash other = index) = some rb ↔ hash name = index := by
  obtain ⟨hLess, hGet⟩ := List.getElem?_eq_some_iff.mp hName
  rw [findIdx?_eq_some_iff_getElem]
  constructor
  · rintro ⟨_, hHash, -⟩
    rw [hGet] at hHash
    simpa using hHash
  · intro hHash
    refine ⟨hLess, by simpa [hGet] using hHash, ?_⟩
    intro j hj
    have hNe : names[j] ≠ name := by
      intro hEq
      rw [← hGet] at hEq
      exact absurd ((hNodup.getElem_inj_iff).mp hEq) (Nat.ne_of_lt hj)
    have hOther : hash names[j] ≠ index := by
      intro hSame
      exact hNe (hInj (getElem_mem _) (hGet ▸ getElem_mem hLess) (hSame.trans hHash.symm))
    simpa using hOther

theorem find?_hash {names : List String} (hInj : Set.InjOn hash {name | name ∈ names})
    {index : UInt32} :
    names.find? (fun other => hash other = index) = some name ↔
      name ∈ names ∧ hash name = index := by
  constructor
  · intro hFound
    exact ⟨mem_of_find?_eq_some hFound, by simpa using find?_some hFound⟩
  · rintro ⟨hMem, hHash⟩
    have hSome : (names.find? fun other => hash other = index).isSome := by
      rw [find?_isSome]
      exact ⟨name, hMem, by simpa using hHash⟩
    obtain ⟨other, hOther⟩ := Option.isSome_iff_exists.mp hSome
    have hSame : hash other = index := by simpa using find?_some hOther
    rw [hOther, hInj (mem_of_find?_eq_some hOther) hMem (hSame.trans hHash.symm)]

theorem Tabulates.agree_of_injOn (h : t.Tabulates hash)
    (hInj : Set.InjOn hash {name | name ∈ t.names}) : t.Agree where
  found := by
    intro name hMem
    obtain ⟨rb, hGet⟩ := mem_iff_getElem?.mp hMem
    have hIdx := (findIdx?_hash hInj h.nodup hGet).mpr rfl
    refine ⟨hash name, rb, ?_, ?_, ?_, hGet⟩
    · rw [lookupBufferIndex, h.nameIndex, if_pos hMem]
    · rw [findBufferAt, h.buffer, hIdx]
    · rw [h.findBuffer hMem, hIdx]
  distinct := by
    intro name name' rb hFound hFound'
    have hMem := h.mem_of_findBuffer hFound
    have hMem' := h.mem_of_findBuffer hFound'
    rw [h.findBuffer hMem] at hFound
    rw [h.findBuffer hMem'] at hFound'
    obtain ⟨_, hHash, -⟩ := findIdx?_eq_some_iff_getElem.mp hFound
    obtain ⟨_, hHash', -⟩ := findIdx?_eq_some_iff_getElem.mp hFound'
    have hSame : hash name = hash name' :=
      (of_decide_eq_true hHash).symm.trans (of_decide_eq_true hHash')
    exact hInj hMem hMem' hSame
  inverse := by
    intro name index
    rw [h.nameIndex, h.indexName, find?_hash hInj]
    split
    · rename_i hMem
      simp [hMem]
    · rename_i hMem
      simp [hMem]
  buffer := by
    intro index rb
    rw [h.buffer, h.indexName]
    constructor
    · intro hFound
      obtain ⟨hLess, hHash, -⟩ := findIdx?_eq_some_iff_getElem.mp hFound
      exact ⟨t.names[rb], (find?_hash hInj).mpr ⟨getElem_mem hLess, of_decide_eq_true hHash⟩,
        getElem?_eq_getElem hLess⟩
    · rintro ⟨name, hFound, hCreated⟩
      exact (findIdx?_hash hInj h.nodup hCreated).mpr ((find?_hash hInj).mp hFound).2

def usedNames (calls : List (String × BufferType)) : List String :=
  messageBuffers.map Prod.fst ++ calls.map Prod.fst

/-- No `CHECK` fails, the tables agree after the calls, and every call has returned the
buffer that was created for the name it asked for. -/
def Serves (hash : String → UInt32) (calls : List (String × BufferType)) : Prop :=
  ∃ t rbs, (initial hash).findOrCreateBuffers hash calls = some (t, rbs) ∧ t.Agree ∧
    (∀ name, name ∈ t.names ↔ name ∈ usedNames calls) ∧
    Forall₂ (fun call rb => t.CreatedFor rb call.1) calls rbs

theorem findOrCreateBuffers_isSome (hash : String → UInt32) (calls : List (String × BufferType)) :
    ((initial hash).findOrCreateBuffers hash calls).isSome := by
  obtain ⟨t, rbs, hRun, -⟩ := tabulates_initial.findOrCreateBuffers calls
  rw [hRun]
  rfl

theorem serves_iff_injOn (hash : String → UInt32) (calls : List (String × BufferType)) :
    Serves hash calls ↔ Set.InjOn hash {name | name ∈ usedNames calls} := by
  obtain ⟨t, rbs, hRun, h, hNames, -, hAnswers⟩ := tabulates_initial.findOrCreateBuffers calls
  have hUsed : ∀ name, name ∈ t.names ↔ name ∈ usedNames calls := by
    intro name
    rw [hNames, usedNames, mem_append]
    rfl
  have hSet : {name | name ∈ t.names} = {name | name ∈ usedNames calls} := Set.ext hUsed
  constructor
  · rintro ⟨t', rbs', hRun', hAgree, -, -⟩
    obtain ⟨rfl, rfl⟩ := Prod.mk.inj (Option.some.inj (hRun.symm.trans hRun'))
    rw [← hSet]
    exact h.injOn_of_agree hAgree
  · intro hInj
    rw [← hSet] at hInj
    refine ⟨t, rbs, hRun, h.agree_of_injOn hInj, hUsed, ?_⟩
    have hCalls : ∀ call ∈ calls, call.1 ∈ t.names := by
      intro call hMem
      exact (hUsed call.1).mpr (mem_append_right _ (mem_map_of_mem hMem))
    clear hRun hNames hUsed hSet
    induction hAnswers with
    | nil => exact Forall₂.nil
    | @cons call rb calls rbs hFirst _ ih =>
      rw [forall_mem_cons] at hCalls
      obtain ⟨name, hCreated, hHash⟩ := hFirst
      have hMem : name ∈ t.names := mem_of_getElem? hCreated
      exact Forall₂.cons (hInj hMem hCalls.1 hHash ▸ hCreated) (ih hCalls.2)

/-- The calls never fail a `CHECK`; the tables serve them exactly when no two of the names
have the same hash. -/
theorem bufferTables_serve_iff (hash : String → UInt32) (calls : List (String × BufferType)) :
    ((initial hash).findOrCreateBuffers hash calls).isSome ∧
      (Serves hash calls ↔ Set.InjOn hash {name | name ∈ usedNames calls}) := by
  constructor
  · exact findOrCreateBuffers_isSome hash calls
  · exact serves_iff_injOn hash calls

def firstKey : String :=
  "/job:ps/task:0/cpu:0;0000000000000001;/job:worker/task:0/cpu:0;edge_20918_w;0:0"

def secondKey : String :=
  "/job:ps/task:0/cpu:0;0000000000000001;/job:worker/task:0/cpu:0;edge_67420_w;0:0"

/-- The second key gets a buffer of its own at first, and then the buffer of the first key. -/
theorem collidingKeys_share :
    ((initial nameHash).findOrCreateBuffers nameHash [(firstKey, .tensor), (secondKey, .tensor),
        (firstKey, .tensor), (secondKey, .tensor)]).map Prod.snd = some [4, 5, 4, 4] ∧
      ¬ Serves nameHash [(firstKey, .tensor), (secondKey, .tensor)] := by
  have hHash : nameHash firstKey = nameHash secondKey := by decide +kernel
  constructor
  · decide +kernel
  · rw [serves_iff_injOn]
    intro hInj
    have hEq : firstKey = secondKey := hInj (by simp [usedNames]) (by simp [usedNames]) hHash
    exact absurd hEq (by decide +kernel)

end BufferTables

end TensorFlowOnSpark.Rdma
