import TensorFlowOnSpark.Util.FastParseMerge

/-!
# Agreement with the messages

What the parser finds in serialized examples, compared with the map that the entries
make when each one replaces those of its name before it.
-/

namespace TensorFlowOnSpark.Util

open Parsed List Option Index

def featureMap (entries : List MapEntry) : Text → Option (Option Kind) :=
  entries.foldl (fun map entry name => if name = entry.name then some entry.feature else map name)
    fun _ => none

def Dense.accept (cfg : Dense) (kind : Kind) : Except Complaint (List Value) :=
  if kind.dtype ≠ cfg.dtype then
    .error (.typesDiffer (dataTypeString kind.dtype) (dataTypeString cfg.dtype))
  else if kind.values.length ≠ cfg.numElements then
    .error (.wrongCount (typeString cfg.dtype) kind.values.length cfg.shape)
  else .ok kind.values

def Sparse.accept (cfg : Sparse) : Option Kind → Except Complaint (List Value)
  | none => .ok []
  | some kind =>
    if kind.dtype ≠ cfg.dtype then .error (.sparseTypesDiffer (dataTypeString cfg.dtype))
    else .ok kind.values

def Dense.wanted (cfg : Dense) (feature : Option (Option Kind)) : Except Trouble (List Value) :=
  match feature.join with
  | none => cfg.row none
  | some kind =>
    match cfg.accept kind with
    | .ok values => .ok values
    | .error complaint => .error (.example cfg.featureName complaint)

def Sparse.wanted (cfg : Sparse) (feature : Option (Option Kind)) : Except Trouble (List Value) :=
  match cfg.accept feature.join with
  | .ok values => .ok values
  | .error complaint => .error (.example cfg.featureName complaint)

/-- What a call is to do for the features in `map`: the values of all of them, or the
error of one of them. -/
def Agrees (c : Call) (dense : List (List Value)) (sparse : List SparseBuffer) (serialized : Text)
    (map : Text → Option (Option Kind)) :
    Except Error (List (List Value) × List SparseBuffer) → Prop
  | .ok out => ∃ summary : Summary,
    Forall₂ (fun cfg row => cfg.wanted (map cfg.featureName) = .ok row)
      c.config.dense summary.rows ∧
    Forall₂ (fun cfg list => cfg.wanted (map cfg.featureName) = .ok list)
      c.config.sparse summary.lists ∧
    out = (zipWith c.writeRow dense summary.rows,
      zipWith SparseBuffer.add sparse summary.lists)
  | .error e => ∃ trouble, e = c.report serialized trouble ∧
    ((∃ cfg ∈ c.config.dense, cfg.wanted (map cfg.featureName) = .error trouble) ∨
      ∃ cfg ∈ c.config.sparse, cfg.wanted (map cfg.featureName) = .error trouble)

structure Indexed (x : Index) (names : List Text) : Prop where
  dense : ∀ (d : Nat) (cfg : Dense), x.config.dense[d]? = some cfg →
    x.find (x.hasher cfg.featureName) = some (.dense d)
  sparse : ∀ (d : Nat) (cfg : Sparse), x.config.sparse[d]? = some cfg →
    x.find (x.hasher cfg.featureName) = some (.sparse d)
  dense_within : ∀ name ∈ names, ∀ d, x.find (x.hasher name) = some (.dense d) →
    d < x.config.dense.length
  sparse_within : ∀ name ∈ names, ∀ d, x.find (x.hasher name) = some (.sparse d) →
    d < x.config.sparse.length

def firstSet (entries : List MapEntry) (name : Text) : Option Kind :=
  entries.findSome? fun entry => if entry.name = name then entry.feature else none

def firstEntry (entries : List MapEntry) (name : Text) : Option (Option Kind) :=
  (entries.find? fun entry => entry.name = name).map MapEntry.feature

theorem featureMap_eq (entries : List MapEntry) (name : Text) :
    featureMap entries name = firstEntry entries.reverse name := by
  have hFold : ∀ (later : List MapEntry) (map : Text → Option (Option Kind)),
      (later.foldl (fun map entry name =>
        if name = entry.name then some entry.feature else map name) map) name =
          (firstEntry later.reverse name).or (map name) := by
    intro later
    induction later with
    | nil => exact fun map => rfl
    | cons entry later ih =>
      intro map
      rw [foldl_cons, ih, firstEntry, firstEntry, reverse_cons, find?_append]
      by_cases hName : entry.name = name
      · cases later.reverse.find? fun entry => entry.name = name with
        | none => simp [hName]
        | some found => simp
      · cases later.reverse.find? fun entry => entry.name = name with
        | none => simp [hName, Ne.symm hName]
        | some found => simp
  rw [featureMap, hFold, or_none]

theorem firstSet_append (before after : List MapEntry) (name : Text) :
    firstSet (before ++ after) name = (firstSet before name).or (firstSet after name) := by
  rw [firstSet, findSome?_append]
  rfl

theorem firstEntry_append (before after : List MapEntry) (name : Text) :
    firstEntry (before ++ after) name = (firstEntry before name).or (firstEntry after name) := by
  rw [firstEntry, find?_append, firstEntry]
  cases before.find? fun entry => entry.name = name <;> rfl

theorem firstSet_singleton (entry : MapEntry) (name : Text) :
    firstSet [entry] name = if entry.name = name then entry.feature else none := by
  rw [firstSet, findSome?_singleton]

theorem firstEntry_singleton (entry : MapEntry) (name : Text) :
    firstEntry [entry] name = if entry.name = name then some entry.feature else none := by
  by_cases hName : entry.name = name <;> simp [firstEntry]

variable {before : List MapEntry}

theorem firstSet_other {entry : MapEntry} {name : Text}
    (h : entry.name ≠ name) : firstSet (before ++ [entry]) name = firstSet before name := by
  rw [firstSet_append, firstSet_singleton, if_neg h, or_none]

theorem firstEntry_other {entry : MapEntry} {name : Text}
    (h : entry.name ≠ name) : firstEntry (before ++ [entry]) name = firstEntry before name := by
  rw [firstEntry_append, firstEntry_singleton, if_neg h, or_none]

variable {kind : Kind}

section Read

variable {io : Wire.Reader} {view : io.Stream → Wire.CodedInputStream} {limit : io.Limit → Nat}
  (hIo : io.Documented view limit)
include hIo

theorem dense_read_eq (cfg : Dense) (h : kind.body.length < 2 ^ 32) :
    cfg.read io kind.dtype ⟨Wire.writeDelimited kind.body⟩ = cfg.accept kind := by
  rw [Dense.read, Dense.accept]
  by_cases hType : kind.dtype = cfg.dtype
  · rw [if_neg (not_not.mpr hType), if_neg (not_not.mpr hType), Feature.parseList_eq hIo,
      ← hType, parseList_write kind h]
  · rw [if_pos hType, if_pos hType]

theorem sparse_read_eq (cfg : Sparse) (h : kind.body.length < 2 ^ 32) :
    cfg.read io kind.dtype ⟨Wire.writeDelimited kind.body⟩ = cfg.accept (some kind) := by
  have hValid : kind.dtype ≠ .invalid := by cases kind <;> exact DataType.noConfusion
  rw [Sparse.read, Sparse.accept]
  by_cases hType : kind.dtype = cfg.dtype
  · rw [if_neg (fun hBoth => hBoth.2 hType), if_neg (not_not.mpr hType), if_neg hValid,
      Feature.parseList_eq hIo, ← hType, parseList_write kind h]
  · rw [if_pos ⟨hValid, hType⟩, if_pos hType]

end Read

theorem sparse_read_unset (cfg : Sparse) (io : Wire.Reader) (feature : Feature) :
    cfg.read io .invalid feature = cfg.accept none := by
  rfl

variable {trouble : Trouble}

section Loop

variable {x : Index} {names : List Text} {before : List MapEntry} {f : Found}

/-- What has been found after the entries `before`. -/
structure Seen (x : Index) (before : List MapEntry) (f : Found) : Prop where
  dense_length : f.dense.length = x.config.dense.length
  sparse_length : f.sparse.length = x.config.sparse.length
  dense : ∀ (d : Nat) (cfg : Dense), x.config.dense[d]? = some cfg →
    (firstSet before cfg.featureName = none ∧ f.dense[d]? = some none) ∨
      ∃ kind values, firstSet before cfg.featureName = some kind ∧ cfg.accept kind = .ok values ∧
        f.dense[d]? = some (some values)
  sparse : ∀ (d : Nat) (cfg : Sparse), x.config.sparse[d]? = some cfg →
    (firstEntry before cfg.featureName = none ∧ f.sparse[d]? = some none) ∨
      ∃ feature values, firstEntry before cfg.featureName = some feature ∧
        cfg.accept feature = .ok values ∧ f.sparse[d]? = some (some values)

def Wrong (x : Index) (entries : List MapEntry) (trouble : Trouble) : Prop :=
  (∃ cfg ∈ x.config.dense, ∃ kind complaint, firstSet entries cfg.featureName = some kind ∧
    cfg.accept kind = .error complaint ∧ trouble = .example cfg.featureName complaint) ∨
  ∃ cfg ∈ x.config.sparse, ∃ feature complaint, firstEntry entries cfg.featureName = some feature ∧
    cfg.accept feature = .error complaint ∧ trouble = .example cfg.featureName complaint

theorem Wrong.append (h : Wrong x before trouble) (after : List MapEntry) :
    Wrong x (before ++ after) trouble := by
  rcases h with ⟨cfg, hMem, kind, complaint, hFirst, hRest⟩ |
    ⟨cfg, hMem, feature, complaint, hFirst, hRest⟩
  · exact .inl ⟨cfg, hMem, kind, complaint, by rw [firstSet_append, hFirst, some_or], hRest⟩
  · exact .inr ⟨cfg, hMem, feature, complaint, by rw [firstEntry_append, hFirst, some_or], hRest⟩

variable {entry : MapEntry} {d d' : Nat} {cfg : Dense}

theorem Seen.skip (h : Seen x before f)
    (hDense : ∀ cfg ∈ x.config.dense, entry.name ≠ cfg.featureName)
    (hSparse : ∀ cfg ∈ x.config.sparse, entry.name ≠ cfg.featureName) :
    Seen x (before ++ [entry]) f := by
  refine ⟨h.dense_length, h.sparse_length, fun d cfg hCfg => ?_, fun d cfg hCfg => ?_⟩
  · rw [firstSet_other (hDense cfg (mem_of_getElem? hCfg))]
    exact h.dense d cfg hCfg
  · rw [firstEntry_other (hSparse cfg (mem_of_getElem? hCfg))]
    exact h.sparse d cfg hCfg

theorem Indexed.dense_inj (h : Indexed x names) {cfg' : Dense}
    (hCfg : x.config.dense[d]? = some cfg) (hCfg' : x.config.dense[d']? = some cfg')
    (hName : cfg.featureName = cfg'.featureName) : d = d' := by
  have hFind := h.dense d cfg hCfg
  rw [hName, h.dense d' cfg' hCfg'] at hFind
  cases hFind
  rfl

theorem Indexed.sparse_inj (h : Indexed x names) {cfg cfg' : Sparse}
    (hCfg : x.config.sparse[d]? = some cfg) (hCfg' : x.config.sparse[d']? = some cfg')
    (hName : cfg.featureName = cfg'.featureName) : d = d' := by
  have hFind := h.sparse d cfg hCfg
  rw [hName, h.sparse d' cfg' hCfg'] at hFind
  cases hFind
  rfl

theorem Indexed.separate (h : Indexed x names) {cfg' : Sparse}
    (hCfg : x.config.dense[d]? = some cfg) (hCfg' : x.config.sparse[d']? = some cfg') :
    cfg.featureName ≠ cfg'.featureName := by
  intro hName
  have hFind := h.dense d cfg hCfg
  rw [hName, h.sparse d' cfg' hCfg'] at hFind
  cases hFind

def Turned (x : Index) (entries : List MapEntry) : Except Trouble Found → Prop
  | .ok f => Seen x entries f
  | .error trouble => Wrong x entries trouble

section

variable {view : x.reader.Stream → Wire.CodedInputStream} {limit : x.reader.Limit → Nat}
  (hIo : x.reader.Documented view limit) (hIndexed : Indexed x names)
include hIo hIndexed

theorem lookDense_turned (h : Seen x before f)
    (hCfg : x.config.dense[d]? = some cfg) (hName : entry.name = cfg.featureName)
    (hFits : ∀ kind, entry.feature = some kind → kind.body.length < 2 ^ 32) :
    ∃ dtype feature, entry.parsed.feature.parseDataType = some (dtype, feature) ∧
      Turned x (before ++ [entry]) (x.lookDense f d cfg entry.name dtype feature) := by
  have hSparse : ∀ (d' : Nat) (cfg' : Sparse), x.config.sparse[d']? = some cfg' →
      entry.name ≠ cfg'.featureName :=
    fun d' cfg' hCfg' hSame => hIndexed.separate hCfg hCfg' (hName.symm.trans hSame)
  have hOther : ∀ (d' : Nat) (cfg' : Dense), x.config.dense[d']? = some cfg' → d' ≠ d →
      entry.name ≠ cfg'.featureName :=
    fun d' cfg' hCfg' hNe hSame => hNe (hIndexed.dense_inj hCfg' hCfg (hSame.symm.trans hName))
  have hKeep : ∀ f', f'.dense.length = f.dense.length → f'.sparse = f.sparse →
      (∀ d' ≠ d, f'.dense[d']? = f.dense[d']?) →
      ((firstSet (before ++ [entry]) cfg.featureName = none ∧ f'.dense[d]? = some none) ∨
        ∃ kind values, firstSet (before ++ [entry]) cfg.featureName = some kind ∧
          cfg.accept kind = .ok values ∧ f'.dense[d]? = some (some values)) →
      Seen x (before ++ [entry]) f' := by
    intro f' hLength hSame hRest hHere
    refine ⟨hLength.trans h.dense_length, ?_, fun d' cfg' hCfg' => ?_, fun d' cfg' hCfg' => ?_⟩
    · rw [hSame]
      exact h.sparse_length
    · by_cases hd : d' = d
      · subst hd
        cases hCfg.symm.trans hCfg'
        exact hHere
      · rw [firstSet_other (hOther d' cfg' hCfg' hd), hRest d' hd]
        exact h.dense d' cfg' hCfg'
    · rw [firstEntry_other (hSparse d' cfg' hCfg'), hSame]
      exact h.sparse d' cfg' hCfg'
  have hSet : firstSet (before ++ [entry]) cfg.featureName =
      (firstSet before cfg.featureName).or entry.feature := by
    rw [firstSet_append, firstSet_singleton, if_pos hName]
  cases hFeature : entry.feature with
  | none =>
    refine ⟨.invalid, ⟨[]⟩, ?_, ?_⟩
    · rw [MapEntry.parsed, hFeature]
      rfl
    · refine hKeep f rfl rfl (fun _ _ => rfl) ?_
      rw [hSet, hFeature, or_none]
      exact h.dense d cfg hCfg
  | some kind =>
    have hValid : kind.dtype ≠ .invalid := by cases kind <;> exact DataType.noConfusion
    refine ⟨kind.dtype, ⟨Wire.writeDelimited kind.body⟩, ?_, ?_⟩
    · rw [MapEntry.parsed, hFeature]
      exact parseDataType_write kind
    · rw [lookDense]
      rcases h.dense d cfg hCfg with ⟨hFirst, hFound⟩ | ⟨kind', values, hFirst, hAccept, hFound⟩
      · rw [hFirst, hFeature] at hSet
        rw [hFound, if_neg (by simp [hValid]), dense_read_eq hIo cfg (hFits kind hFeature)]
        cases hAccept : cfg.accept kind with
        | error complaint =>
          refine .inl ⟨cfg, mem_of_getElem? hCfg, kind, complaint, hSet, hAccept, ?_⟩
          rw [hName]
        | ok values =>
          refine hKeep _ (length_set ..) rfl (fun d' hd => ?_)
            (.inr ⟨kind, values, hSet, hAccept, ?_⟩)
          · exact getElem?_set_ne (Ne.symm hd)
          · exact getElem?_set_self (List.getElem?_eq_some_iff.mp hFound).1
      · rw [hFound, if_pos (by simp)]
        refine hKeep f rfl rfl (fun _ _ => rfl) (.inr ⟨kind', values, ?_, hAccept, hFound⟩)
        rw [hSet, hFirst, some_or]

theorem lookSparse_turned (h : Seen x before f) {cfg : Sparse}
    (hCfg : x.config.sparse[d]? = some cfg) (hName : entry.name = cfg.featureName)
    (hFits : ∀ kind, entry.feature = some kind → kind.body.length < 2 ^ 32) :
    ∃ dtype feature, entry.parsed.feature.parseDataType = some (dtype, feature) ∧
      Turned x (before ++ [entry]) (x.lookSparse f d cfg entry.name dtype feature) := by
  have hDense : ∀ (d' : Nat) (cfg' : Dense), x.config.dense[d']? = some cfg' →
      entry.name ≠ cfg'.featureName :=
    fun d' cfg' hCfg' hSame => hIndexed.separate hCfg' hCfg (hSame.symm.trans hName)
  have hOther : ∀ (d' : Nat) (cfg' : Sparse), x.config.sparse[d']? = some cfg' → d' ≠ d →
      entry.name ≠ cfg'.featureName :=
    fun d' cfg' hCfg' hNe hSame => hNe (hIndexed.sparse_inj hCfg' hCfg (hSame.symm.trans hName))
  have hKeep : ∀ f', f'.sparse.length = f.sparse.length → f'.dense = f.dense →
      (∀ d' ≠ d, f'.sparse[d']? = f.sparse[d']?) →
      (∃ feature values, firstEntry (before ++ [entry]) cfg.featureName = some feature ∧
        cfg.accept feature = .ok values ∧ f'.sparse[d]? = some (some values)) →
      Seen x (before ++ [entry]) f' := by
    intro f' hLength hSame hRest hHere
    refine ⟨?_, hLength.trans h.sparse_length, fun d' cfg' hCfg' => ?_, fun d' cfg' hCfg' => ?_⟩
    · rw [hSame]
      exact h.dense_length
    · rw [firstSet_other (hDense d' cfg' hCfg'), hSame]
      exact h.dense d' cfg' hCfg'
    · by_cases hd : d' = d
      · subst hd
        cases hCfg.symm.trans hCfg'
        exact .inr hHere
      · rw [firstEntry_other (hOther d' cfg' hCfg' hd), hRest d' hd]
        exact h.sparse d' cfg' hCfg'
  have hEntry : firstEntry (before ++ [entry]) cfg.featureName =
      (firstEntry before cfg.featureName).or (some entry.feature) := by
    rw [firstEntry_append, firstEntry_singleton, if_pos hName]
  have hRead : ∃ dtype feature, entry.parsed.feature.parseDataType = some (dtype, feature) ∧
      cfg.read x.reader dtype feature = cfg.accept entry.feature := by
    cases hFeature : entry.feature with
    | none =>
      refine ⟨.invalid, ⟨[]⟩, ?_, sparse_read_unset cfg _ _⟩
      rw [MapEntry.parsed, hFeature]
      rfl
    | some kind =>
      refine ⟨kind.dtype, ⟨Wire.writeDelimited kind.body⟩, ?_,
        sparse_read_eq hIo cfg (hFits kind hFeature)⟩
      rw [MapEntry.parsed, hFeature]
      exact parseDataType_write kind
  obtain ⟨dtype, feature, hParsed, hRead⟩ := hRead
  refine ⟨dtype, feature, hParsed, ?_⟩
  rw [lookSparse]
  rcases h.sparse d cfg hCfg with ⟨hFirst, hFound⟩ | ⟨feature', values, hFirst, hAccept, hFound⟩
  · rw [hFirst] at hEntry
    rw [hFound, hRead]
    cases hAccept : cfg.accept entry.feature with
    | error complaint =>
      refine .inr ⟨cfg, mem_of_getElem? hCfg, entry.feature, complaint, hEntry, hAccept, ?_⟩
      rw [hName]
    | ok values =>
      refine hKeep _ (length_set ..) rfl (fun d' hd => ?_)
        ⟨entry.feature, values, hEntry, hAccept, ?_⟩
      · exact getElem?_set_ne (Ne.symm hd)
      · exact getElem?_set_self (List.getElem?_eq_some_iff.mp hFound).1
  · rw [hFound]
    refine hKeep f rfl rfl (fun _ _ => rfl) ⟨feature', values, ?_, hAccept, hFound⟩
    rw [hEntry, hFirst, some_or]

theorem look_turned (h : Seen x before f) (hMem : entry.name ∈ names)
    (hFits : ∀ kind, entry.feature = some kind → kind.body.length < 2 ^ 32) :
    Turned x (before ++ [entry]) (x.look f entry.parsed) := by
  have hOther : ∀ slot, x.find (x.hasher entry.name) = slot →
      (∀ d (cfg : Dense), x.config.dense[d]? = some cfg → slot = some (.dense d) →
        entry.name ≠ cfg.featureName) →
      (∀ d (cfg : Sparse), x.config.sparse[d]? = some cfg → slot = some (.sparse d) →
        entry.name ≠ cfg.featureName) →
      Seen x (before ++ [entry]) f := by
    intro slot hSlot hDense hSparse
    refine h.skip (fun cfg hCfg hSame => ?_) fun cfg hCfg hSame => ?_
    · obtain ⟨d, hCfg⟩ := mem_iff_getElem?.mp hCfg
      refine hDense d cfg hCfg ?_ hSame
      rw [← hSlot, hSame]
      exact hIndexed.dense d cfg hCfg
    · obtain ⟨d, hCfg⟩ := mem_iff_getElem?.mp hCfg
      refine hSparse d cfg hCfg ?_ hSame
      rw [← hSlot, hSame]
      exact hIndexed.sparse d cfg hCfg
  rw [look]
  cases hFind : x.find (x.hasher entry.parsed.name) with
  | none =>
    exact hOther none hFind (fun _ _ _ hNone => by cases hNone) fun _ _ _ hNone => by cases hNone
  | some slot =>
    cases slot with
    | dense d =>
      have hd := hIndexed.dense_within entry.name hMem d hFind
      have hCfg := getElem?_eq_getElem hd
      simp only [hCfg]
      by_cases hName : entry.parsed.name = x.config.dense[d].featureName
      · obtain ⟨dtype, feature, hParsed, hTurned⟩ :=
          lookDense_turned hIo hIndexed h hCfg hName hFits
        rw [if_neg (not_not.mpr hName), hParsed]
        exact hTurned
      · rw [if_pos hName]
        refine hOther _ hFind (fun d' cfg' hCfg' hSlot => ?_) fun d' cfg' _ hSlot => by cases hSlot
        cases hSlot
        cases hCfg.symm.trans hCfg'
        exact hName
    | sparse d =>
      have hd := hIndexed.sparse_within entry.name hMem d hFind
      have hCfg := getElem?_eq_getElem hd
      simp only [hCfg]
      by_cases hName : entry.parsed.name = x.config.sparse[d].featureName
      · obtain ⟨dtype, feature, hParsed, hTurned⟩ :=
          lookSparse_turned hIo hIndexed h hCfg hName hFits
        rw [if_neg (not_not.mpr hName), hParsed]
        exact hTurned
      · rw [if_pos hName]
        refine hOther _ hFind (fun d' cfg' _ hSlot => by cases hSlot) fun d' cfg' hCfg' hSlot => ?_
        cases hSlot
        cases hCfg.symm.trans hCfg'
        exact hName

theorem foldlM_turned (entries : List MapEntry)
    (hNames : ∀ entry ∈ entries, entry.name ∈ names)
    (hFits : ∀ entry ∈ entries, ∀ kind, entry.feature = some kind → kind.body.length < 2 ^ 32)
    (h : Seen x before f) :
    Turned x (before ++ entries) ((entries.map MapEntry.parsed).foldlM x.look f) := by
  induction entries generalizing before f with
  | nil =>
    rw [append_nil]
    exact h
  | cons entry entries ih =>
    have hStep := look_turned hIo hIndexed h (hNames entry (mem_cons_self ..))
      (hFits entry (mem_cons_self ..))
    rw [map_cons, foldlM_cons, append_cons]
    cases hLook : x.look f entry.parsed with
    | error trouble =>
      rw [hLook] at hStep
      exact Wrong.append hStep entries
    | ok next =>
      rw [hLook] at hStep
      exact ih (fun other hMem => hNames other (mem_cons_of_mem _ hMem))
        (fun other hMem => hFits other (mem_cons_of_mem _ hMem)) hStep

end

theorem seen_nothing (x : Index) : Seen x [] x.nothing := by
  refine ⟨length_map .., length_map .., fun d cfg hCfg => .inl ⟨rfl, ?_⟩,
    fun d cfg hCfg => .inl ⟨rfl, ?_⟩⟩
  · rw [nothing, getElem?_map, hCfg]
    rfl
  · rw [nothing, getElem?_map, hCfg]
    rfl

variable {founds : List (Option (List Value))}

variable {configs : List Dense}

theorem rows_get {rows : List (List Value)}
    (hLength : founds.length = configs.length) (h : Index.rows configs founds = .ok rows) :
    Forall₂ (fun cfg row => ∃ found, cfg.row found = .ok row ∧
      ∃ d : Nat, configs[d]? = some cfg ∧ founds[d]? = some found) configs rows := by
  induction configs generalizing founds rows with
  | nil =>
    cases h
    exact .nil
  | cons cfg configs ih =>
    obtain ⟨found, founds, rfl⟩ := exists_cons_of_length_eq_add_one hLength
    rw [Index.rows] at h
    cases hRow : cfg.row found with
    | error trouble =>
      rw [hRow] at h
      cases h
    | ok row =>
      cases hMore : Index.rows configs founds with
      | error trouble =>
        rw [hRow, hMore] at h
        cases h
      | ok more =>
        rw [hRow, hMore] at h
        cases h
        refine .cons ⟨found, hRow, 0, rfl, rfl⟩ ((ih (by simpa using hLength) hMore).imp ?_)
        rintro cfg' row' ⟨found', hRow', d, hCfg, hFound⟩
        exact ⟨found', hRow', d + 1, hCfg, hFound⟩

theorem rows_error (h : rows configs founds = .error trouble) :
    ∃ (d : Nat) (cfg : Dense) (found : Option (List Value)), configs[d]? = some cfg ∧
      founds[d]? = some found ∧ cfg.row found = .error trouble := by
  induction configs generalizing founds with
  | nil => cases h
  | cons cfg configs ih =>
    cases founds with
    | nil => cases h
    | cons found founds =>
      rw [rows] at h
      cases hRow : cfg.row found with
      | error trouble' =>
        rw [hRow] at h
        cases h
        exact ⟨0, cfg, found, rfl, rfl, hRow⟩
      | ok row =>
        cases hMore : rows configs founds with
        | error trouble' =>
          rw [hRow, hMore] at h
          cases h
          obtain ⟨d, cfg', found', hCfg, hFound, hError⟩ := ih hMore
          exact ⟨d + 1, cfg', found', hCfg, hFound, hError⟩
        | ok more =>
          rw [hRow, hMore] at h
          cases h

end Loop

def SettledAt (entries : List MapEntry) (name : Text) : Prop :=
  featureMap entries name = some none → ∀ entry ∈ entries, entry.name = name → entry.feature = none

variable {entries : List MapEntry} {name : Text}

theorem firstSet_eq_none :
    firstSet entries name = none ↔ ∀ entry ∈ entries, entry.name = name → entry.feature = none := by
  rw [firstSet, findSome?_eq_none_iff]
  refine forall₂_congr fun entry _ => ?_
  by_cases hName : entry.name = name <;> simp [hName]

theorem firstSet_of_firstEntry (h : firstEntry entries name = some (some kind))
    : firstSet entries name = some kind := by
  induction entries with
  | nil => cases h
  | cons entry entries ih =>
    rw [← singleton_append, firstEntry_append, firstEntry_singleton] at h
    rw [← singleton_append, firstSet_append, firstSet_singleton]
    by_cases hName : entry.name = name
    · rw [if_pos hName, some_or, some_inj] at h
      rw [if_pos hName, h, some_or]
    · rw [if_neg hName] at h
      rw [if_neg hName, none_or, ih h]

theorem firstSet_of_absent (h : firstEntry entries name = none) : firstSet entries name = none := by
  rw [firstEntry, map_eq_none_iff, find?_eq_none] at h
  rw [firstSet_eq_none]
  intro entry hMem hName
  exact absurd (decide_eq_true hName) (h entry hMem)

theorem firstSet_settled (h : SettledAt entries name) :
    firstSet entries.reverse name = (featureMap entries name).join := by
  rw [SettledAt] at h
  rw [featureMap_eq] at h ⊢
  cases hEntry : firstEntry entries.reverse name with
  | none => exact firstSet_of_absent hEntry
  | some feature =>
    cases feature with
    | some kind => exact firstSet_of_firstEntry hEntry
    | none =>
      refine firstSet_eq_none.mpr fun entry hMem => h hEntry entry (mem_reverse.mp hMem)

section Agreement

variable {c : Call} {dense : List (List Value)} {sparse : List SparseBuffer}
  {examples : List ExampleMessage}

variable {x : Index} {entries : List MapEntry}
variable {found : Option (List Value)}

theorem wanted_of_seen {f : Found}
    (hSettled : ∀ cfg ∈ x.config.dense, SettledAt entries cfg.featureName)
    (h : Seen x entries.reverse f) {d : Nat} {cfg : Dense} (hCfg : x.config.dense[d]? = some cfg)
    (hFound : f.dense[d]? = some found) :
    cfg.wanted (featureMap entries cfg.featureName) = cfg.row found := by
  have hFirst := firstSet_settled (hSettled cfg (mem_of_getElem? hCfg))
  rw [Dense.wanted, ← hFirst]
  rcases h.dense d cfg hCfg with ⟨hNone, hFound'⟩ | ⟨kind, values, hSet, hAccept, hFound'⟩
  · rw [hFound] at hFound'
    cases hFound'
    rw [hNone]
  · rw [hFound] at hFound'
    cases hFound'
    rw [hSet]
    simp only [hAccept, Dense.row]

theorem sparse_wanted_of_seen {f : Found} (h : Seen x entries.reverse f) {d : Nat} {cfg : Sparse}
    (hCfg : x.config.sparse[d]? = some cfg) (hFound : f.sparse[d]? = some found) :
    cfg.wanted (featureMap entries cfg.featureName) = .ok (found.getD []) := by
  rw [Sparse.wanted, featureMap_eq]
  rcases h.sparse d cfg hCfg with ⟨hNone, hFound'⟩ | ⟨feature, values, hSet, hAccept, hFound'⟩
  · rw [hFound] at hFound'
    cases hFound'
    rw [hNone]
    rfl
  · rw [hFound] at hFound'
    cases hFound'
    rw [hSet, join_some, hAccept]
    rfl

theorem wanted_of_wrong (hSettled : ∀ cfg ∈ x.config.dense, SettledAt entries cfg.featureName)
    (h : Wrong x entries.reverse trouble) :
    (∃ cfg ∈ x.config.dense, cfg.wanted (featureMap entries cfg.featureName) = .error trouble) ∨
      ∃ cfg ∈ x.config.sparse, cfg.wanted (featureMap entries cfg.featureName) =
        .error trouble := by
  rcases h with ⟨cfg, hMem, kind, complaint, hFirst, hAccept, rfl⟩ |
    ⟨cfg, hMem, feature, complaint, hFirst, hAccept, rfl⟩
  · refine .inl ⟨cfg, hMem, ?_⟩
    rw [Dense.wanted, ← firstSet_settled (hSettled cfg hMem), hFirst]
    simp only [hAccept]
  · refine .inr ⟨cfg, hMem, ?_⟩
    rw [Sparse.wanted, featureMap_eq, hFirst, join_some, hAccept]

theorem foldlM_examples {view : x.reader.Stream → Wire.CodedInputStream}
    {limit : x.reader.Limit → Nat} (hIo : x.reader.Documented view limit)
    (hSize : (serialize examples).length < 2 ^ 31)
    (hIndexed : Indexed x ((entriesOf examples).map MapEntry.name)) :
    Turned x (entriesOf examples).reverse
      (((entriesOf examples).map MapEntry.parsed).reverse.foldlM x.look x.nothing) := by
  have hTurned := foldlM_turned hIo hIndexed (entriesOf examples).reverse
    (fun entry hMem => mem_map_of_mem (mem_reverse.mp hMem))
    (fun entry hMem kind hKind => feature_fits hSize (mem_reverse.mp hMem) hKind)
    (seen_nothing x)
  rwa [nil_append, map_reverse] at hTurned

theorem agrees_of_settled {view : c.reader.Stream → Wire.CodedInputStream}
    {limit : c.reader.Limit → Nat} (hIo : c.reader.Documented view limit)
    (hSize : (serialize examples).length < 2 ^ 31)
    (hIndexed : Indexed c.index ((entriesOf examples).map MapEntry.name))
    (hFits : c.Fits dense sparse)
    (hSettled : ∀ cfg ∈ c.config.dense, SettledAt (entriesOf examples) cfg.featureName) :
    Agrees c dense sparse (serialize examples) (featureMap (entriesOf examples))
      (c.fastParseSerializedExample (serialize examples) dense sparse) := by
  have hTurned := foldlM_examples hIo hSize hIndexed
  rw [Call.fastParseSerializedExample_eq c _ hFits, summary, Call.index_reader,
    parseExample_eq hIo, parseExample_serialize hSize]
  simp only
  cases hFound : ((entriesOf examples).map MapEntry.parsed).reverse.foldlM c.index.look
      c.index.nothing with
  | error trouble =>
    rw [hFound] at hTurned
    exact ⟨trouble, rfl, wanted_of_wrong hSettled hTurned⟩
  | ok f =>
    rw [hFound] at hTurned
    have hSeen : Seen c.index (entriesOf examples).reverse f := hTurned
    simp only [bind, Except.bind, summarize]
    cases hRows : rows c.index.config.dense f.dense with
    | error trouble =>
      obtain ⟨d, cfg, found, hCfg, hGet, hRow⟩ := rows_error hRows
      refine ⟨trouble, rfl, .inl ⟨cfg, mem_of_getElem? hCfg, ?_⟩⟩
      rw [wanted_of_seen hSettled hSeen hCfg hGet, hRow]
    | ok rows =>
      refine ⟨⟨rows, f.sparse.map fun found => found.getD []⟩, ?_, ?_, rfl⟩
      · refine (rows_get hSeen.dense_length hRows).imp ?_
        rintro cfg row ⟨found, hRow, d, hCfg, hGet⟩
        rw [wanted_of_seen hSettled hSeen hCfg hGet, hRow]
      · rw [forall₂_iff_get]
        refine ⟨(length_map ..).trans hSeen.sparse_length |>.symm, fun d hd hd' => ?_⟩
        have hGet := getElem?_eq_getElem (l := f.sparse)
          (by rw [hSeen.sparse_length]; exact hd)
        simp only [get_eq_getElem, getElem_map]
        exact sparse_wanted_of_seen hSeen (getElem?_eq_getElem hd) hGet

def requiredOnly (name : Text) : Config := ⟨[⟨name, .string, [], []⟩], []⟩

def requiredCall (io : Wire.Reader) (name : Text) : Call :=
  ⟨io, requiredOnly name, fun _ => some (.dense 0), fun _ => 0, [], 0⟩

section Required

variable {io : Wire.Reader} {view : io.Stream → Wire.CodedInputStream} {limit : io.Limit → Nat}

theorem requiredCall_indexed (name : Text) (names : List Text) :
    Indexed (requiredCall io name).index names := by
  refine ⟨fun d cfg hCfg => ?_, fun d cfg hCfg => (by cases hCfg), fun _ _ d hFind => ?_,
    fun _ _ d hFind => (by cases hFind)⟩
  · cases d with
    | zero => rfl
    | succ d => cases hCfg
  · cases hFind
    exact Nat.one_pos

theorem requiredCall_fits (name : Text) : (requiredCall io name).Fits [[.string []]] [] := by
  refine ⟨rfl, rfl, fun d cfg out hCfg hOut => ?_, fun buffer hMem => absurd hMem not_mem_nil⟩
  cases d with
  | zero =>
    cases hCfg
    cases hOut
    exact le_rfl
  | succ d => cases hCfg

/-- A name that is not settled is taken for present where the messages lack it. -/
theorem not_agrees_of_unsettled (hIo : io.Documented view limit)
    (hSize : (serialize examples).length < 2 ^ 31) {name : Text}
    (h : ¬SettledAt (entriesOf examples) name) :
    ¬Agrees (requiredCall io name) [[.string []]] [] (serialize examples)
      (featureMap (entriesOf examples))
      ((requiredCall io name).fastParseSerializedExample (serialize examples)
        [[.string []]] []) := by
  obtain ⟨hUnset, hSome⟩ := Classical.not_imp.mp h
  have hFirst : firstSet (entriesOf examples).reverse name ≠ none := fun hNone =>
    hSome fun entry hMem => firstSet_eq_none.mp hNone entry (mem_reverse.mpr hMem)
  have hWanted : Dense.wanted ⟨name, .string, [], []⟩ (featureMap (entriesOf examples) name) =
      .error (.required name) := by
    rw [hUnset]
    rfl
  have hReader : (requiredCall io name).index.reader = io := rfl
  have hIndexed : Indexed (requiredCall io name).index ((entriesOf examples).map MapEntry.name) :=
    requiredCall_indexed name _
  have hTurned := foldlM_examples (x := (requiredCall io name).index) hIo hSize hIndexed
  rw [Call.fastParseSerializedExample_eq _ _ (requiredCall_fits name), summary, hReader,
    parseExample_eq hIo, parseExample_serialize hSize]
  simp only
  cases hFound : ((entriesOf examples).map MapEntry.parsed).reverse.foldlM
      (requiredCall io name).index.look (requiredCall io name).index.nothing with
  | error trouble =>
    rw [hFound] at hTurned
    rintro ⟨trouble', hReport, ⟨cfg, hMem, hError⟩ | ⟨cfg, hMem, -⟩⟩
    · cases mem_singleton.mp hMem
      cases hWanted.symm.trans hError
      rcases hTurned with ⟨_, -, _, _, -, -, rfl⟩ | ⟨_, -, _, _, -, -, rfl⟩
      · cases hReport
      · cases hReport
    · exact absurd hMem not_mem_nil
  | ok f =>
    rw [hFound] at hTurned
    have hSeen : Seen (requiredCall io name).index (entriesOf examples).reverse f := hTurned
    simp only [bind, Except.bind, summarize]
    rcases hSeen.dense 0 ⟨name, .string, [], []⟩ rfl with ⟨hNone, -⟩ | ⟨kind, values, -, -, hGet⟩
    · exact absurd hNone hFirst
    · obtain ⟨founds, hDense⟩ : ∃ founds, f.dense = some values :: founds := by
        cases hDense : f.dense with
        | nil =>
          rw [hDense] at hGet
          cases hGet
        | cons found founds =>
          rw [hDense] at hGet
          cases hGet
          exact ⟨founds, rfl⟩
      rw [hDense]
      rintro ⟨⟨rows, lists⟩, hRows, -⟩
      cases hRows with
      | cons hRow _ => cases hWanted.symm.trans hRow

end Required

end Agreement

/-- The parser agrees with the messages on the configurations whose dense features are
among `names` exactly when the last entries settle these names. -/
theorem fastParse_agrees_iff {io : Wire.Reader} {view : io.Stream → Wire.CodedInputStream}
    {limit : io.Limit → Nat} (hIo : io.Documented view limit) (examples : List ExampleMessage)
    (hSize : (serialize examples).length < 2 ^ 31) (names : Set Text) :
    (∀ (c : Call) (dense : List (List Value)) (sparse : List SparseBuffer), c.reader = io →
      (∀ cfg ∈ c.config.dense, cfg.featureName ∈ names) → c.config.check = .ok () →
      Indexed c.index ((entriesOf examples).map MapEntry.name) → c.Fits dense sparse →
      Agrees c dense sparse (serialize examples) (featureMap (entriesOf examples))
        (c.fastParseSerializedExample (serialize examples) dense sparse)) ↔
      ∀ name ∈ names, featureMap (entriesOf examples) name = some none →
        ∀ entry ∈ entriesOf examples, entry.name = name → entry.feature = none := by
  constructor
  · intro h name hMem
    by_contra hUnsettled
    refine not_agrees_of_unsettled hIo hSize hUnsettled (h (requiredCall io name) _ _ rfl ?_ rfl
      (requiredCall_indexed name _) (requiredCall_fits name))
    intro cfg hCfg
    cases mem_singleton.mp hCfg
    exact hMem
  · rintro h c dense sparse rfl hNames - hIndexed hFits
    exact agrees_of_settled hIo hSize hIndexed hFits fun cfg hMem => h _ (hNames cfg hMem)

/-- An integer of the name `a`, and then the name again with its feature unset. -/
def setThenUnset : List ExampleMessage :=
  [some [⟨[97], some (.int64List true [7])⟩], some [⟨[97], none⟩]]

theorem setThenUnset_agrees_iff :
    (∀ (c : Call) (dense : List (List Value)) (sparse : List SparseBuffer),
      c.reader = .documented →
      (∀ cfg ∈ c.config.dense, cfg.featureName ∈ ({[97]} : Set Text)) → c.config.check = .ok () →
      Indexed c.index ((entriesOf setThenUnset).map MapEntry.name) → c.Fits dense sparse →
      Agrees c dense sparse (serialize setThenUnset) (featureMap (entriesOf setThenUnset))
        (c.fastParseSerializedExample (serialize setThenUnset) dense sparse)) ↔
      ∀ name ∈ ({[97]} : Set Text), featureMap (entriesOf setThenUnset) name = some none →
        ∀ entry ∈ entriesOf setThenUnset, entry.name = name → entry.feature = none :=
  fastParse_agrees_iff Wire.Reader.documented_documented setThenUnset (by decide +kernel) {[97]}

def oneInteger : Call :=
  ⟨.documented, ⟨[⟨[97], .int64, [1], []⟩], []⟩, fun _ => some (.dense 0), fun _ => 0, [], 0⟩

/-- The value 7 is given for a required feature that the merged example leaves unset. -/
theorem setThenUnset_disagrees :
    oneInteger.fastParseSerializedExample (serialize setThenUnset) [[.int64 0]] [] =
        .ok ([[.int64 7]], []) ∧
      ¬Agrees oneInteger [[.int64 0]] [] (serialize setThenUnset)
        (featureMap (entriesOf setThenUnset))
        (oneInteger.fastParseSerializedExample (serialize setThenUnset) [[.int64 0]] []) := by
  have hRun : oneInteger.fastParseSerializedExample (serialize setThenUnset) [[.int64 0]] [] =
      .ok ([[.int64 7]], []) := by rfl
  refine ⟨hRun, ?_⟩
  rintro ⟨⟨rows, lists⟩, hRows, -⟩
  cases hRows with
  | cons hRow _ =>
    have hWanted : Dense.wanted ⟨[97], .int64, [1], []⟩
        (featureMap (entriesOf setThenUnset) [97]) = .error (.required [97]) := by rfl
    cases hWanted.symm.trans hRow

end TensorFlowOnSpark.Util
