import TensorFlowOnSpark.Strings.Numbers

/-!
# Device names

`DeviceNameUtils` of `util/device_name_utils.cc`.
-/

namespace TensorFlowOnSpark.Util.DeviceNameUtils

open Strings Numeral List Option

def isAlpha (c : Char) : Bool := ('a' ≤ c ∧ c ≤ 'z') ∨ ('A' ≤ c ∧ c ≤ 'Z')

def isAlphaNum (c : Char) : Bool := isAlpha c || ('0' ≤ c ∧ c ≤ '9')

def isJobName : List Char → Bool
  | [] => false
  | c :: rest => isAlpha c && rest.all fun c => isAlphaNum c || c = '_'

/-- The loop of `ConsumeJobName` and of `ConsumeDeviceType`: the name, and what is left. -/
def consumeName (ends : Char → Bool) : List Char → Option (List Char × List Char)
  | [] => some ([], [])
  | c :: rest =>
    if ends c then some ([], c :: rest)
    else if !(isAlphaNum c || c = '_') then none
    else (consumeName ends rest).map fun (name, rest) => (c :: name, rest)

def consumeNameOf (ends : Char → Bool) : List Char → Option (String × List Char)
  | [] => none
  | c :: rest =>
    if !isAlpha c then none
    else (consumeName ends rest).map fun (name, rest) => (String.ofList (c :: name), rest)

def consumeJobName : List Char → Option (String × List Char) := consumeNameOf (· = '/')

def consumeDeviceType : List Char → Option (String × List Char) :=
  consumeNameOf fun c => c = '/' || c = ':'

def consumeNumber (s : List Char) : Option (Int32 × List Char) :=
  (consumeLeadingDigits s).map fun (tmp, rest) => (Int32.ofNat tmp.toNat, rest)

/-- `FullName`; there is no name when a check of the arguments fails. -/
def fullName (job : String) (replica task : Int32) (type : String) (id : Int32) : Option String :=
  if isJobName job.toList ∧ 0 ≤ replica ∧ 0 ≤ task ∧ type ≠ "" ∧ 0 ≤ id then
    some ("/job:" ++ job ++ "/replica:" ++ String.ofList (fastInt32ToBufferLeft replica) ++
      "/task:" ++ String.ofList (fastInt32ToBufferLeft task) ++ "/device:" ++ type ++ ":" ++
      String.ofList (fastInt32ToBufferLeft id))
  else none

structure ParsedName where
  hasJob : Bool := false
  job : String := ""
  hasReplica : Bool := false
  replica : Int32 := 0
  hasTask : Bool := false
  task : Int32 := 0
  hasType : Bool := false
  type : String := ""
  hasId : Bool := false
  id : Int32 := 0
deriving DecidableEq, Repr

namespace ParsedName

variable (p : ParsedName)

def setJob : Option String → ParsedName
  | some job => { p with hasJob := true, job := job }
  | none => { p with hasJob := false }

def setReplica : Option Int32 → ParsedName
  | some replica => { p with hasReplica := true, replica := replica }
  | none => { p with hasReplica := false }

def setTask : Option Int32 → ParsedName
  | some task => { p with hasTask := true, task := task }
  | none => { p with hasTask := false }

def setType : Option String → ParsedName
  | some type => { p with hasType := true, type := type }
  | none => { p with hasType := false }

def setId : Option Int32 → ParsedName
  | some id => { p with hasId := true, id := id }
  | none => { p with hasId := false }

end ParsedName

/-- The variables of `ParseFullName`. -/
structure Cursor where
  fullname : List Char
  p : ParsedName
  progress : Bool

/-- A component that is given, or `*`; without a result the parser returns false. -/
def component {α : Type} (consume : List Char → Option (α × List Char)) (s : List Char) :
    Option (Option α × List Char) :=
  match consumePrefix "*" s with
  | some rest => some (none, rest)
  | none => (consume s).map fun (value, rest) => (some value, rest)

def parseComponent {α : Type} (expected : String) (consume : List Char → Option (α × List Char))
    (set : ParsedName → Option α → ParsedName) (c : Cursor) : Option Cursor :=
  match consumePrefix expected c.fullname with
  | none => some c
  | some s => (component consume s).map fun (value, rest) => ⟨rest, set c.p value, true⟩

def parseJob : Cursor → Option Cursor :=
  parseComponent "/job:" consumeJobName ParsedName.setJob

def parseReplica : Cursor → Option Cursor :=
  parseComponent "/replica:" consumeNumber ParsedName.setReplica

def parseTask : Cursor → Option Cursor :=
  parseComponent "/task:" consumeNumber ParsedName.setTask

def parseId (p : ParsedName) (s : List Char) : Option Cursor :=
  (component consumeNumber s).map fun (id, rest) => ⟨rest, p.setId id, true⟩

def parseDevice (c : Cursor) : Option Cursor :=
  match consumePrefix "/device:" c.fullname with
  | none => some c
  | some s =>
    match component consumeDeviceType s with
    | none => none
    | some (type, rest) =>
      match consumePrefix ":" rest with
      | none => some ⟨rest, { c.p.setType type with hasId := false }, true⟩
      | some s => parseId (c.p.setType type) s

def parseLegacy (lower upper type : String) (c : Cursor) : Option Cursor :=
  match (consumePrefix lower c.fullname).or (consumePrefix upper c.fullname) with
  | none => some c
  | some s => parseId (c.p.setType (some type)) s

def parseTurn (fullname : List Char) (p : ParsedName) : Option Cursor := do
  let c ← parseJob ⟨fullname, p, false⟩
  let c ← parseReplica c
  let c ← parseTask c
  let c ← parseDevice c
  let c ← parseLegacy "/cpu:" "/CPU:" "CPU" c
  let c ← parseLegacy "/gpu:" "/GPU:" "GPU" c
  if c.progress then some c else none

def Advances (c c' : Cursor) : Prop :=
  c' = c ∨ c'.progress ∧ c'.fullname.length < c.fullname.length

variable {c c' : Cursor} {expected : String} {s rest : List Char} {ends : Char → Bool} {α : Type}
variable {consume : List Char → Option (α × List Char)}

theorem Advances.trans {c'' : Cursor} (h : Advances c c') (h' : Advances c' c'') :
    Advances c c'' := by
  rcases h with rfl | ⟨hProgress, hLess⟩
  · exact h'
  · rcases h' with rfl | ⟨hProgress', hLess'⟩
    · exact .inr ⟨hProgress, hLess⟩
    · exact .inr ⟨hProgress', hLess'.trans hLess⟩

theorem consumePrefix_eq
    (h : consumePrefix expected s = some rest) : s = expected.toList ++ rest := by
  rw [consumePrefix] at h
  generalize expected.toList = head at h
  induction head generalizing s with
  | nil =>
    exact some.inj h
  | cons c head ih =>
    cases s with
    | nil => cases h
    | cons c' s =>
      rw [isPrefixOf?] at h
      split at h
      · rename_i hSame
        rw [eq_of_beq hSame, ih h, cons_append]
      · cases h

@[simp] theorem consumePrefix_append (expected : String) (rest : List Char) :
    consumePrefix expected (expected.toList ++ rest) = some rest := by
  rw [consumePrefix]
  generalize expected.toList = head
  induction head with
  | nil => rfl
  | cons c head ih => rw [cons_append, isPrefixOf?, if_pos (beq_self_eq_true c), ih]

theorem digitsLoop_suffix {v v' : UInt64} (h : digitsLoop v s = some (v', rest)) : rest <:+ s := by
  induction s generalizing v with
  | nil =>
    cases h
    exact suffix_rfl
  | cons c s ih =>
    rw [digitsLoop] at h
    split at h
    · simp only at h
      split at h
      · cases h
      · exact (ih h).trans (suffix_cons c s)
    · cases h
      exact suffix_rfl

theorem consumeNumber_suffix {n : Int32} (h : consumeNumber s = some (n, rest)) : rest <:+ s := by
  obtain ⟨⟨v, rest'⟩, hDigits, hEq⟩ := map_eq_some_iff.mp h
  cases hEq
  rw [consumeLeadingDigits] at hDigits
  split at hDigits
  · cases hDigits
  · rename_i hLoop
    split at hDigits
    · cases hDigits
      exact digitsLoop_suffix hLoop
    · cases hDigits

theorem consumeName_suffix {name : List Char}
    (h : consumeName ends s = some (name, rest)) : rest <:+ s := by
  induction s generalizing name with
  | nil =>
    cases h
    exact suffix_rfl
  | cons c s ih =>
    rw [consumeName] at h
    split at h
    · cases h
      exact suffix_rfl
    · split at h
      · cases h
      · obtain ⟨⟨name', rest'⟩, hName, hEq⟩ := map_eq_some_iff.mp h
        cases hEq
        exact (ih hName).trans (suffix_cons c s)

theorem consumeNameOf_suffix {name : String}
    (h : consumeNameOf ends s = some (name, rest)) : rest <:+ s := by
  cases s with
  | nil => cases h
  | cons c s =>
    rw [consumeNameOf] at h
    split at h
    · cases h
    · obtain ⟨⟨name', rest'⟩, hName, hEq⟩ := map_eq_some_iff.mp h
      cases hEq
      exact (consumeName_suffix hName).trans (suffix_cons c s)

theorem consumePrefix_suffix (h : consumePrefix expected s = some rest) : rest <:+ s :=
  ⟨expected.toList, (consumePrefix_eq h).symm⟩

theorem component_suffix
    (hConsume : ∀ {s a rest}, consume s = some (a, rest) → rest <:+ s)
    {value : Option α} (h : component consume s = some (value, rest)) : rest <:+ s := by
  rw [component] at h
  split at h
  · rename_i rest' hStar
    cases h
    exact consumePrefix_suffix hStar
  · obtain ⟨⟨a, rest'⟩, hValue, hEq⟩ := map_eq_some_iff.mp h
    cases hEq
    exact hConsume hValue

theorem prefix_length_le (hSome : expected.toList ≠ [])
    (h : consumePrefix expected s = some rest) : rest.length < s.length := by
  have hPos := length_pos_of_ne_nil hSome
  rw [consumePrefix_eq h, length_append]
  omega

variable {set : ParsedName → Option α → ParsedName}

theorem parseComponent_cases (hConsume : ∀ {s a rest}, consume s = some (a, rest) → rest <:+ s)
    (h : parseComponent expected consume set c = some c') :
    c' = c ∨ ∃ s rest value, consumePrefix expected c.fullname = some s ∧ rest <:+ s ∧
      c' = ⟨rest, set c.p value, true⟩ := by
  rw [parseComponent] at h
  split at h
  · cases h
    exact .inl rfl
  · rename_i s hPrefix
    obtain ⟨⟨value, rest⟩, hValue, rfl⟩ := map_eq_some_iff.mp h
    exact .inr ⟨s, rest, value, hPrefix, component_suffix hConsume hValue, rfl⟩

theorem parseComponent_advances (hSome : expected.toList ≠ [])
    (hConsume : ∀ {s a rest}, consume s = some (a, rest) → rest <:+ s)
    (h : parseComponent expected consume set c = some c') : Advances c c' := by
  obtain rfl | ⟨s, rest, value, hPrefix, hRest, rfl⟩ := parseComponent_cases hConsume h
  · exact .inl rfl
  · exact .inr ⟨rfl, hRest.length_le.trans_lt (prefix_length_le hSome hPrefix)⟩

theorem parseId_cases {p : ParsedName} (h : parseId p s = some c) :
    ∃ rest id, rest <:+ s ∧ c = ⟨rest, p.setId id, true⟩ := by
  obtain ⟨⟨id, rest⟩, hId, rfl⟩ := map_eq_some_iff.mp h
  exact ⟨rest, id, component_suffix consumeNumber_suffix hId, rfl⟩

theorem parseDevice_advances (h : parseDevice c = some c') : Advances c c' := by
  rw [parseDevice] at h
  split at h
  · cases h
    exact .inl rfl
  · rename_i s hPrefix
    have hLess := prefix_length_le (by decide) hPrefix
    split at h
    · cases h
    · rename_i type rest hType
      have hLe := (component_suffix consumeNameOf_suffix hType).length_le
      split at h
      · cases h
        exact .inr ⟨rfl, hLe.trans_lt hLess⟩
      · rename_i s' hColon
        obtain ⟨rest', id, hId, rfl⟩ := parseId_cases h
        have hLess' := prefix_length_le (by decide) hColon
        have hLe' := hId.length_le
        exact .inr ⟨rfl, by simp only; omega⟩

theorem parseLegacy_cases {lower upper type : String}
    (h : parseLegacy lower upper type c = some c') :
    c' = c ∨ ∃ expected s rest id, (expected = lower ∨ expected = upper) ∧
      consumePrefix expected c.fullname = some s ∧ rest <:+ s ∧
        c' = ⟨rest, (c.p.setType (some type)).setId id, true⟩ := by
  rw [parseLegacy] at h
  split at h
  · cases h
    exact .inl rfl
  · rename_i s hPrefix
    obtain ⟨rest, id, hRest, rfl⟩ := parseId_cases h
    rcases or_eq_some_iff.mp hPrefix with hLower | ⟨-, hUpper⟩
    · exact .inr ⟨lower, s, rest, id, .inl rfl, hLower, hRest, rfl⟩
    · exact .inr ⟨upper, s, rest, id, .inr rfl, hUpper, hRest, rfl⟩

theorem parseLegacy_advances {lower upper type : String} (hLower : lower.toList ≠ [])
    (hUpper : upper.toList ≠ []) (h : parseLegacy lower upper type c = some c') :
    Advances c c' := by
  obtain rfl | ⟨expected, s, rest, id, hKey, hPrefix, hRest, rfl⟩ := parseLegacy_cases h
  · exact .inl rfl
  · refine .inr ⟨rfl, hRest.length_le.trans_lt (prefix_length_le ?_ hPrefix)⟩
    rcases hKey with rfl | rfl
    · exact hLower
    · exact hUpper

theorem parseTurn_length {fullname : List Char} {p : ParsedName}
    (h : parseTurn fullname p = some c) : c.fullname.length < fullname.length := by
  simp only [parseTurn, bind_eq_bind, bind_eq_some_iff] at h
  obtain ⟨c₁, hJob, c₂, hReplica, c₃, hTask, c₄, hDevice, c₅, hCpu, c₆, hGpu, hEnd⟩ := h
  split at hEnd
  · rename_i hProgress
    cases hEnd
    have hAll : Advances ⟨fullname, p, false⟩ c := by
      refine (parseComponent_advances (by decide) consumeNameOf_suffix hJob).trans ?_
      refine (parseComponent_advances (by decide) consumeNumber_suffix hReplica).trans ?_
      refine (parseComponent_advances (by decide) consumeNumber_suffix hTask).trans ?_
      refine (parseDevice_advances hDevice).trans ?_
      refine (parseLegacy_advances (by decide) (by decide) hCpu).trans ?_
      exact parseLegacy_advances (by decide) (by decide) hGpu
    rcases hAll with rfl | ⟨-, hLess⟩
    · cases hProgress
    · exact hLess
  · cases hEnd

def parseLoop (fullname : List Char) (p : ParsedName) : Option ParsedName :=
  if fullname = [] then some p
  else
    match _hTurn : parseTurn fullname p with
    | none => none
    | some c => parseLoop c.fullname c.p
termination_by fullname.length
decreasing_by exact parseTurn_length _hTurn

def parseFullName (fullname : List Char) : Option ParsedName :=
  if fullname = "/".toList then some {} else parseLoop fullname {}

def completeName (job : String) (replica task : Int32) (type : String) (id : Int32) :
    ParsedName :=
  ⟨true, job, true, replica, true, task, true, type, true, id⟩

theorem consumeName_append {name : List Char}
    (hName : ∀ c ∈ name, (isAlphaNum c || c = '_') ∧ ends c = false)
    (hRest : rest = [] ∨ ∃ c rest', rest = c :: rest' ∧ ends c) :
    consumeName ends (name ++ rest) = some (name, rest) := by
  induction name with
  | nil =>
    obtain rfl | ⟨c, rest', rfl, hEnds⟩ := hRest
    · rfl
    · rw [nil_append, consumeName, if_pos hEnds]
  | cons c name ih =>
    obtain ⟨hLetter, hEnds⟩ := hName c mem_cons_self
    rw [cons_append, consumeName, hEnds, hLetter,
      ih fun d hd => hName d (mem_cons_of_mem _ hd)]
    rfl

theorem ne_of_letter {c d : Char} (h : (isAlphaNum c || c = '_'))
    (hd : (isAlphaNum d || d = '_') = false) : c ≠ d := by
  rintro rfl
  exact Bool.false_ne_true (hd.symm.trans h)

theorem consumeNameOf_append {name : String} (hName : isJobName name.toList)
    (hEnds : ∀ c, (isAlphaNum c || c = '_') → ends c = false)
    (hRest : rest = [] ∨ ∃ c rest', rest = c :: rest' ∧ ends c) :
    component (consumeNameOf ends) (name.toList ++ rest) = some (some name, rest) := by
  obtain ⟨name, rfl⟩ : ∃ list, name = String.ofList list := ⟨name.toList, by simp⟩
  rw [String.toList_ofList] at hName ⊢
  cases name with
  | nil => cases hName
  | cons c letters =>
    rw [isJobName, Bool.and_eq_true, List.all_eq_true] at hName
    obtain ⟨hAlpha, hLetters⟩ := hName
    have hStar : consumePrefix "*" (c :: (letters ++ rest)) = none := by
      have hNe : c ≠ '*' := ne_of_letter (by simp [isAlphaNum, hAlpha]) (by decide)
      change (if '*' == c then _ else _) = _
      rw [if_neg (by simp [hNe.symm])]
    rw [cons_append, component, hStar]
    have hBoth : ∀ d ∈ letters, (isAlphaNum d || d = '_') ∧ ends d = false :=
      fun d hd => ⟨hLetters d hd, hEnds d (hLetters d hd)⟩
    rw [consumeNameOf, hAlpha, consumeName_append hBoth hRest]
    rfl

theorem consumeNumber_append {n : Int32} (h : 0 ≤ n) (hRest : Stops rest) :
    component consumeNumber (fastInt32ToBufferLeft n ++ rest) = some (some n, rest) := by
  have hFits : n.toUInt32.toNat < 2 ^ 64 := n.toUInt32.toNat_lt.trans (by decide)
  obtain ⟨d, hd, digits, hCons⟩ := exists_numeral_eq_cons digitChar
    (show 2 ≤ 10 by decide) n.toUInt32.toNat
  have hStar : consumePrefix "*" (numeral 10 digitChar n.toUInt32.toNat ++ rest) = none := by
    have hNe : digitChar d ≠ '*' := digitChar_ne hd (by decide)
    rw [hCons]
    change (if '*' == digitChar d then _ else _) = _
    rw [if_neg (by simp [hNe.symm])]
  have hBack : Int32.ofNat (UInt64.ofNat n.toUInt32.toNat).toNat = n := by
    rw [UInt64.toNat_ofNat', Nat.mod_eq_of_lt hFits]
    apply Int32.toBitVec.inj
    exact (BitVec.ofNat_toNat 32 n.toBitVec).trans (BitVec.setWidth_eq _)
  rw [fastInt32ToBufferLeft_eq h, component, hStar]
  rw [consumeNumber, consumeLeadingDigits_numeral hFits hRest]
  simp only [map_some, hBack]

theorem parseComponent_append {text : List Char} {value : α} (p : ParsedName) (progress : Bool)
    (h : component consume (text ++ rest) = some (some value, rest)) :
    parseComponent expected consume set ⟨expected.toList ++ (text ++ rest), p, progress⟩ =
      some ⟨rest, set p (some value), true⟩ := by
  rw [parseComponent, consumePrefix_append]
  simp only [h, map_some]

variable {job type name : String} {replica task id : Int32}

theorem fullName_eq (h : fullName job replica task type id = some name) :
    (isJobName job.toList ∧ 0 ≤ replica ∧ 0 ≤ task ∧ 0 ≤ id) ∧
      name.toList = "/job:".toList ++ (job.toList ++ ("/replica:".toList ++
        (fastInt32ToBufferLeft replica ++ ("/task:".toList ++ (fastInt32ToBufferLeft task ++
          ("/device:".toList ++ (type.toList ++ (":".toList ++
            (fastInt32ToBufferLeft id ++ []))))))))) := by
  rw [fullName] at h
  split at h
  · rename_i hChecks
    obtain ⟨hJob, hReplica, hTask, -, hId⟩ := hChecks
    refine ⟨⟨hJob, hReplica, hTask, hId⟩, ?_⟩
    rw [← some.inj h]
    simp only [String.toList_append, String.toList_ofList, append_assoc, append_nil]
  · cases h

/-- A turn of the loop takes the five components of a full name. -/
theorem parseFullName_fullName (h : fullName job replica task type id = some name)
    (hType : isJobName type.toList) :
    parseFullName name.toList = some (completeName job replica task type id) := by
  obtain ⟨⟨hJob, hReplica, hTask, hId⟩, hName⟩ := fullName_eq h
  have hSlash : ∀ c, (isAlphaNum c || c = '_') → decide (c = '/') = false := fun c hc =>
    decide_eq_false (ne_of_letter hc (by decide))
  have hEnds : ∀ c, (isAlphaNum c || c = '_') → (c = '/' || c = ':') = false := by
    intro c hc
    rw [hSlash c hc, decide_eq_false (ne_of_letter hc (by decide))]
    rfl
  have hJobPart (rest : List Char) :
      component consumeJobName (job.toList ++ ("/replica:".toList ++ rest)) =
        some (some job, "/replica:".toList ++ rest) :=
    consumeNameOf_append hJob hSlash (.inr ⟨'/', "replica:".toList ++ rest, rfl, rfl⟩)
  have hReplicaPart (rest : List Char) := consumeNumber_append hReplica
    (show Stops ("/task:".toList ++ rest) from rfl)
  have hTaskPart (rest : List Char) := consumeNumber_append hTask
    (show Stops ("/device:".toList ++ rest) from rfl)
  have hIdPart := consumeNumber_append hId (show Stops [] from rfl)
  have hTypePart (rest : List Char) :
      component consumeDeviceType (type.toList ++ (":".toList ++ rest)) =
        some (some type, ":".toList ++ rest) :=
    consumeNameOf_append hType hEnds (.inr ⟨':', rest, rfl, rfl⟩)
  have hTurn : parseTurn name.toList {} =
      some ⟨[], completeName job replica task type id, true⟩ := by
    rw [hName, parseTurn, parseJob, parseReplica, parseTask]
    rw [parseComponent_append _ _ (hJobPart _)]
    simp only [bind_eq_bind, bind_some]
    rw [parseComponent_append _ _ (hReplicaPart _)]
    simp only [bind_some]
    rw [parseComponent_append _ _ (hTaskPart _)]
    simp only [bind_some]
    rw [parseDevice, consumePrefix_append]
    simp only
    rw [hTypePart]
    simp only
    rw [consumePrefix_append]
    simp only
    rw [parseId, hIdPart]
    rfl
  have hLong : name.toList ≠ [] ∧ name.toList ≠ "/".toList := by
    rw [hName]
    exact ⟨nofun, nofun⟩
  rw [parseFullName, if_neg hLong.2, parseLoop, if_neg hLong.1]
  split
  · rename_i hNone
    cases hNone.symm.trans hTurn
  · rename_i c hSome
    cases hSome.symm.trans hTurn
    rw [parseLoop, if_pos rfl]

theorem not_mem_fastInt32 {n : Int32} (h : 0 ≤ n) {c : Char} (hc : isDigit c = false) :
    c ∉ fastInt32ToBufferLeft n := by
  rw [fastInt32ToBufferLeft_eq h]
  intro hMem
  obtain ⟨d, hd, rfl⟩ := mem_numeral (by decide) hMem
  exact digitChar_ne hd hc rfl

theorem not_mem_jobName {name : List Char} (h : isJobName name) {c : Char}
    (hc : (isAlphaNum c || c = '_') = false) : c ∉ name := by
  cases name with
  | nil => exact not_mem_nil
  | cons d letters =>
    rw [isJobName, Bool.and_eq_true, List.all_eq_true] at h
    intro hMem
    rcases mem_cons.mp hMem with rfl | hMem
    · exact ne_of_letter (d := c) (by simp [isAlphaNum, h.1]) hc rfl
    · exact ne_of_letter (h.2 c hMem) hc rfl

theorem not_mem_fullName (h : fullName job replica task type id = some name)
    (hType : isJobName type.toList) : ';' ∉ name.toList := by
  obtain ⟨⟨hJob, hReplica, hTask, hId⟩, hName⟩ := fullName_eq h
  have hJob' := not_mem_jobName hJob (c := ';') (by decide)
  have hType' := not_mem_jobName hType (c := ';') (by decide)
  have hReplica' := not_mem_fastInt32 hReplica (c := ';') (by decide)
  have hTask' := not_mem_fastInt32 hTask (c := ';') (by decide)
  have hId' := not_mem_fastInt32 hId (c := ';') (by decide)
  rw [hName]
  simp [hJob', hType', hReplica', hTask', hId']

end TensorFlowOnSpark.Util.DeviceNameUtils
