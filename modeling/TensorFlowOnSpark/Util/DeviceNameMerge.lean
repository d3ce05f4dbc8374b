import TensorFlowOnSpark.Framework.Status
import TensorFlowOnSpark.Util.DeviceNameUtils

/-!
# Merging device names

`ParsedNameToString`, `IsSpecification` and `MergeDevNames` of
`util/device_name_utils.cc`.
-/

namespace TensorFlowOnSpark.Util.DeviceNameUtils

open Strings Framework ParsedName

def parsedNameToString (pn : ParsedName) : String :=
  (if pn.hasJob then "/job:" ++ pn.job else "") ++
  (if pn.hasReplica then "/replica:" ++ String.ofList (fastInt32ToBufferLeft pn.replica) else "") ++
  (if pn.hasTask then "/task:" ++ String.ofList (fastInt32ToBufferLeft pn.task) else "") ++
  (if pn.hasType then
    "/" ++ pn.type ++ ":" ++
      (if pn.hasId then String.ofList (fastInt32ToBufferLeft pn.id) else "*")
  else "")

def isSpecification (lessSpecific moreSpecific : ParsedName) : Bool :=
  if lessSpecific.hasJob && (!moreSpecific.hasJob || lessSpecific.job != moreSpecific.job) then
    false
  else if lessSpecific.hasReplica &&
      (!moreSpecific.hasReplica || lessSpecific.replica != moreSpecific.replica) then false
  else if lessSpecific.hasTask &&
      (!moreSpecific.hasTask || lessSpecific.task != moreSpecific.task) then false
  else if lessSpecific.hasType &&
      (!moreSpecific.hasType || lessSpecific.type != moreSpecific.type) then false
  else if lessSpecific.hasId && (!moreSpecific.hasId || lessSpecific.id != moreSpecific.id) then
    false
  else true

def incompatible (what : String) (target other : ParsedName) : Status :=
  Errors.invalidArgument ("Cannot merge devices with incompatible " ++ what ++ ": '" ++
    parsedNameToString target ++ "' and '" ++ parsedNameToString other ++ "'")

/-- One block of `MergeDevNames`: `next` is the rest of the function. -/
def mergeComponent {α : Type} [DecidableEq α] (has : ParsedName → Bool) (value : ParsedName → α)
    (set : ParsedName → Bool → α → ParsedName) (other : ParsedName)
    (conflict next : ParsedName → Except Status ParsedName) (target : ParsedName) :
    Except Status ParsedName :=
  if has other then
    if has target && value target != value other then conflict target
    else next (set target (has other) (value other))
  else next target

section Blocks

variable (other : ParsedName) (allowSoftPlacement : Bool)
  (next : ParsedName → Except Status ParsedName)

def mergeJob : ParsedName → Except Status ParsedName :=
  mergeComponent (·.hasJob) (·.job) (fun p has job => { p with hasJob := has, job := job }) other
    (fun target => .error (incompatible "jobs" target other)) next

def mergeReplica : ParsedName → Except Status ParsedName :=
  mergeComponent (·.hasReplica) (·.replica)
    (fun p has replica => { p with hasReplica := has, replica := replica }) other
    (fun target => .error (incompatible "replicas" target other)) next

def mergeTask : ParsedName → Except Status ParsedName :=
  mergeComponent (·.hasTask) (·.task) (fun p has task => { p with hasTask := has, task := task })
    other (fun target => .error (incompatible "tasks" target other)) next

def mergeType : ParsedName → Except Status ParsedName :=
  mergeComponent (·.hasType) (·.type) (fun p has type => { p with hasType := has, type := type })
    other
    (fun target =>
      if !allowSoftPlacement then .error (incompatible "types" target other)
      else .ok { target with hasId := false, hasType := false })
    next

def mergeId : ParsedName → Except Status ParsedName :=
  mergeComponent (·.hasId) (·.id) (fun p has id => { p with hasId := has, id := id }) other
    (fun target =>
      if !allowSoftPlacement then .error (incompatible "ids" target other)
      else .ok { target with hasId := false })
    next

end Blocks

/-- `MergeDevNames`: the new target, or the status of the failure. -/
def mergeDevNames (target other : ParsedName) (allowSoftPlacement : Bool) :
    Except Status ParsedName :=
  (mergeJob other <| mergeReplica other <| mergeTask other <|
    mergeType other allowSoftPlacement <| mergeId other allowSoftPlacement .ok) target

def withComponent {α : Type} (has : ParsedName → Bool) (value : ParsedName → α)
    (set : ParsedName → Bool → α → ParsedName) (other target : ParsedName) : ParsedName :=
  if has other then set target (has other) (value other) else target

variable {α : Type} {p other target : ParsedName}

theorem mergeComponent_ok [DecidableEq α] {has : ParsedName → Bool}
    {value : ParsedName → α} {set : ParsedName → Bool → α → ParsedName}
    {conflict next : ParsedName → Except Status ParsedName}
    (h : mergeComponent has value set other conflict next target = .ok p)
    (hConflict : ∀ p', conflict target ≠ .ok p') :
    (has other → has target → value target = value other) ∧
      next (withComponent has value set other target) = .ok p := by
  rw [mergeComponent] at h
  rw [withComponent]
  split at h
  · next hOther =>
    rw [if_pos hOther]
    split at h
    · exact absurd h (hConflict p)
    · next hSame =>
      refine ⟨fun _ hTarget => ?_, h⟩
      by_contra hNe
      exact hSame (by simp [hTarget, hNe])
  · next hOther =>
    rw [if_neg hOther]
    exact ⟨fun h => absurd h hOther, h⟩

theorem component_iff [DecidableEq α] {has has' rest : Bool} {value value' : α} :
    (if has && (!has' || value != value') then false else rest) ↔
      (has → has' ∧ value = value') ∧ rest := by
  cases has <;> cases has' <;> simp

theorem isSpecification_iff (less more : ParsedName) :
    isSpecification less more ↔
      (less.hasJob → more.hasJob ∧ less.job = more.job) ∧
      (less.hasReplica → more.hasReplica ∧ less.replica = more.replica) ∧
      (less.hasTask → more.hasTask ∧ less.task = more.task) ∧
      (less.hasType → more.hasType ∧ less.type = more.type) ∧
      (less.hasId → more.hasId ∧ less.id = more.id) := by
  simp only [isSpecification, component_iff, and_true]

theorem isSpecification_refl (p : ParsedName) : isSpecification p p :=
  (isSpecification_iff p p).mpr (by simp)

theorem isSpecification_trans {q r : ParsedName} (h : isSpecification p q)
    (h' : isSpecification q r) : isSpecification p r := by
  rw [isSpecification_iff] at h h' ⊢
  refine ⟨fun hp => ?_, fun hp => ?_, fun hp => ?_, fun hp => ?_, fun hp => ?_⟩
  · obtain ⟨hq, hEq⟩ := h.1 hp
    exact (h'.1 hq).imp_right hEq.trans
  · obtain ⟨hq, hEq⟩ := h.2.1 hp
    exact (h'.2.1 hq).imp_right hEq.trans
  · obtain ⟨hq, hEq⟩ := h.2.2.1 hp
    exact (h'.2.2.1 hq).imp_right hEq.trans
  · obtain ⟨hq, hEq⟩ := h.2.2.2.1 hp
    exact (h'.2.2.2.1 hq).imp_right hEq.trans
  · obtain ⟨hq, hEq⟩ := h.2.2.2.2 hp
    exact (h'.2.2.2.2 hq).imp_right hEq.trans

theorem withComponent_keeps {has has' : Bool} {value value' : α}
    (hSame : has' → has → value = value') :
    (has → (if has' then has' else has) ∧
      value = if has' then value' else value) ∧
    (has' → (if has' then has' else has) ∧
      value' = if has' then value' else value) := by
  cases has' with
  | false => simp
  | true => simpa using hSame rfl

theorem mergeDevNames_specialises
    (h : mergeDevNames target other false = .ok p) :
    isSpecification target p ∧ isSpecification other p := by
  rw [mergeDevNames] at h
  obtain ⟨hJob, h⟩ := mergeComponent_ok h (by simp)
  obtain ⟨hReplica, h⟩ := mergeComponent_ok h (by simp)
  obtain ⟨hTask, h⟩ := mergeComponent_ok h (by simp)
  obtain ⟨hType, h⟩ := mergeComponent_ok h (by simp)
  obtain ⟨hId, h⟩ := mergeComponent_ok h (by simp)
  obtain rfl := Except.ok.inj h
  rw [isSpecification_iff, isSpecification_iff]
  simp only [withComponent, apply_ite hasJob, apply_ite job, apply_ite hasReplica,
    apply_ite replica, apply_ite hasTask, apply_ite task, apply_ite hasType,
    apply_ite type, apply_ite hasId, apply_ite ParsedName.id, ite_self]
    at hJob hReplica hTask hType hId ⊢
  have hJob := withComponent_keeps hJob
  have hReplica := withComponent_keeps hReplica
  have hTask := withComponent_keeps hTask
  have hType := withComponent_keeps hType
  have hId := withComponent_keeps hId
  exact ⟨⟨hJob.1, hReplica.1, hTask.1, hType.1, hId.1⟩,
    ⟨hJob.2, hReplica.2, hTask.2, hType.2, hId.2⟩⟩

open List Option

variable {α : Type} {s rest text value : List Char} {expected name : String} {has : Bool}
variable {pn p : ParsedName} {consume : List Char → Option (α × List Char)} {c c' : Cursor}

/-- A job name, a type of the same form, numbers that are not negative and an id with a type
only. -/
structure Printable (pn : ParsedName) : Prop where
  job : pn.hasJob → isJobName pn.job.toList
  replica : pn.hasReplica → 0 ≤ pn.replica
  task : pn.hasTask → 0 ≤ pn.task
  type : pn.hasType → isJobName pn.type.toList
  id : pn.hasId → pn.hasType ∧ 0 ≤ pn.id

/-- The same flags, and the same fields where the flags are set. -/
def Same (pn p : ParsedName) : Prop :=
  p.hasJob = pn.hasJob ∧ p.hasReplica = pn.hasReplica ∧ p.hasTask = pn.hasTask ∧
    p.hasType = pn.hasType ∧ p.hasId = pn.hasId ∧ (pn.hasJob → p.job = pn.job) ∧
    (pn.hasReplica → p.replica = pn.replica) ∧ (pn.hasTask → p.task = pn.task) ∧
    (pn.hasType → p.type = pn.type) ∧ (pn.hasId → p.id = pn.id)

/-- `/name:value`, when there is one. -/
def part (has : Bool) (name : String) (value : List Char) : List Char :=
  if has then '/' :: (name.toList ++ ':' :: value) else []

def idText (pn : ParsedName) : List Char :=
  if pn.hasId then fastInt32ToBufferLeft pn.id else ['*']

theorem toList_parsedNameToString (pn : ParsedName) : (parsedNameToString pn).toList =
    part pn.hasJob "job" pn.job.toList ++
      (part pn.hasReplica "replica" (fastInt32ToBufferLeft pn.replica) ++
        (part pn.hasTask "task" (fastInt32ToBufferLeft pn.task) ++
          part pn.hasType pn.type (idText pn))) := by
  unfold parsedNameToString part idText
  cases pn.hasJob <;> cases pn.hasReplica <;> cases pn.hasTask <;> cases pn.hasType <;>
    cases pn.hasId <;> simp

def Slashed (s : List Char) : Prop := s = [] ∨ ∃ s', s = '/' :: s'

theorem Slashed.stops (h : Slashed s) : Stops s := by
  rcases h with rfl | ⟨s', rfl⟩ <;> rfl

theorem Slashed.part (h : Slashed rest) (has : Bool) (name : String) (value : List Char) :
    Slashed (part has name value ++ rest) := by
  cases has
  · exact h
  · exact .inr ⟨_, rfl⟩

variable {set : ParsedName → Option α → ParsedName}

theorem parseComponent_part {progress : Bool} {v : α}
    (hKey : expected.toList = '/' :: (name.toList ++ [':']))
    (hPart : has → component consume (value ++ rest) = some (some v, rest))
    (hNone : consumePrefix expected rest = none) :
    parseComponent expected consume set ⟨part has name value ++ rest, p, progress⟩ =
      some ⟨rest, if has then set p (some v) else p, has || progress⟩ := by
  cases has with
  | true =>
    have hText : part true name value ++ rest = expected.toList ++ (value ++ rest) := by
      simp [part, hKey]
    rw [hText, parseComponent_append _ _ (hPart rfl)]
    rfl
  | false =>
    rw [part, if_neg Bool.false_ne_true, nil_append, parseComponent, hNone]
    rfl

theorem component_idText (h : Printable pn) :
    component consumeNumber (idText pn) = some (if pn.hasId then some pn.id else none, []) := by
  unfold idText
  cases hId : pn.hasId
  · rfl
  · have hRead := consumeNumber_append (h.id hId).2 (show Stops [] from rfl)
    rw [append_nil] at hRead
    exact hRead

/-- What is read of the type and the id. -/
def withType (pn p : ParsedName) : ParsedName :=
  if pn.hasType then (p.setType (some pn.type)).setId (if pn.hasId then some pn.id else none) else p

/-- What is read of the whole name. -/
def readBack (pn : ParsedName) : ParsedName :=
  let p : ParsedName := if pn.hasJob then setJob {} (some pn.job) else {}
  let p := if pn.hasReplica then p.setReplica (some pn.replica) else p
  withType pn (if pn.hasTask then p.setTask (some pn.task) else p)

theorem same_readBack (h : Printable pn) : Same pn (readBack pn) := by
  have hId := fun hHas => (h.id hHas).1
  unfold readBack withType Same
  cases pn.hasJob <;> cases pn.hasReplica <;> cases pn.hasTask <;> cases hType : pn.hasType <;>
    cases hHas : pn.hasId <;> simp_all [setJob, setReplica, setTask, setType, setId]

/-- No component is taken for another one. -/
theorem consumePrefix_parts (hType : has → name = "CPU" ∨ name = "GPU") (hasReplica hasTask : Bool)
    (replica task id : List Char) :
    consumePrefix "/device:" (part has name id) = none ∧
      consumePrefix "/task:" (part has name id) = none ∧
      consumePrefix "/replica:" (part hasTask "task" task ++ part has name id) = none ∧
      consumePrefix "/job:" (part hasReplica "replica" replica ++
        (part hasTask "task" task ++ part has name id)) = none := by
  cases has
  · cases hasReplica <;> cases hasTask <;> exact ⟨rfl, rfl, rfl, rfl⟩
  · rcases hType rfl with rfl | rfl <;> cases hasReplica <;> cases hasTask <;>
      exact ⟨rfl, rfl, rfl, rfl⟩

theorem parseTurn_printed (h : Printable pn)
    (hType : pn.hasType → pn.type = "CPU" ∨ pn.type = "GPU")
    (hSome : (pn.hasType || (pn.hasTask || (pn.hasReplica || pn.hasJob)))) :
    parseTurn (parsedNameToString pn).toList {} = some ⟨[], readBack pn, true⟩ := by
  obtain ⟨hNoDevice, hNoTask, hNoReplica, hNoJob⟩ := consumePrefix_parts hType pn.hasReplica
    pn.hasTask (fastInt32ToBufferLeft pn.replica) (fastInt32ToBufferLeft pn.task) (idText pn)
  have hDevice : Slashed (part pn.hasType pn.type (idText pn)) := by
    cases pn.hasType
    · exact .inl rfl
    · exact .inr ⟨_, rfl⟩
  have hTask := hDevice.part pn.hasTask "task" (fastInt32ToBufferLeft pn.task)
  have hReplica := hTask.part pn.hasReplica "replica" (fastInt32ToBufferLeft pn.replica)
  have hJob (hHas : pn.hasJob) :
      component consumeJobName (pn.job.toList ++ _) = some (some pn.job, _) :=
    consumeNameOf_append (h.job hHas) (fun c hc => decide_eq_false (ne_of_letter hc (by decide)))
      (hReplica.imp_right fun ⟨s', hs⟩ => ⟨'/', s', hs, rfl⟩)
  have hId := component_idText h
  rw [toList_parsedNameToString, parseTurn, parseJob, parseComponent_part rfl hJob hNoJob]
  simp only [bind_eq_bind, bind_some]
  rw [parseReplica, parseComponent_part rfl
    (fun hHas => consumeNumber_append (h.replica hHas) hTask.stops) hNoReplica]
  simp only [bind_some]
  rw [parseTask, parseComponent_part rfl
    (fun hHas => consumeNumber_append (h.task hHas) hDevice.stops) hNoTask]
  simp only [bind_some]
  rw [Bool.or_false]
  rw [readBack, withType]
  cases hHas : pn.hasType
  · rw [hHas, Bool.false_or] at hSome
    rw [hSome]
    rfl
  · rcases hType hHas with hName | hName <;> rw [hName]
    · change ((component consumeNumber (idText pn)).map _).bind _ = _
      rw [hId]
      rfl
    · change ((component consumeNumber (idText pn)).map _).bind _ = _
      rw [hId]
      rfl

/-- A turn takes what is printed of a name whose type is not printed or is `CPU` or `GPU`. -/
theorem parseFullName_printed (h : Printable pn)
    (hType : pn.hasType → pn.type = "CPU" ∨ pn.type = "GPU") :
    ∃ p, parseFullName (parsedNameToString pn).toList = some p ∧ Same pn p := by
  refine ⟨readBack pn, ?_, same_readBack h⟩
  cases hSome : pn.hasType || (pn.hasTask || (pn.hasReplica || pn.hasJob)) with
  | false =>
    simp only [Bool.or_eq_false_iff] at hSome
    obtain ⟨hNoType, hNoTask, hNoReplica, hNoJob⟩ := hSome
    rw [toList_parsedNameToString, readBack, withType, hNoType, hNoTask, hNoReplica, hNoJob]
    change parseFullName [] = _
    rw [parseFullName, parseLoop]
    rfl
  | true =>
    have hTurn := parseTurn_printed h hType hSome
    have hLong : (parsedNameToString pn).toList ≠ [] ∧
        (parsedNameToString pn).toList ≠ "/".toList := by
      constructor <;> intro hText <;> rw [hText] at hTurn <;> cases hTurn
    rw [parseFullName, if_neg hLong.2, parseLoop, if_neg hLong.1]
    split
    · rename_i hNone
      cases hNone.symm.trans hTurn
    · rename_i c hTook
      cases hTook.symm.trans hTurn
      rw [parseLoop, if_pos rfl]

theorem not_mem_idText (h : Printable pn) {c : Char} (hc : isDigit c = false ∧ c ≠ '*') :
    c ∉ idText pn := by
  unfold idText
  split_ifs with hId
  · exact not_mem_fastInt32 (h.id hId).2 hc.1
  · simpa using hc.2

theorem component_name_idText (h : Printable pn) {ends : Char → Bool} {v : Option String}
    (hRead : component (consumeNameOf ends) (idText pn) = some (v, rest)) :
    v = none ∧ rest = [] := by
  unfold idText at hRead
  split_ifs at hRead with hId
  · obtain ⟨d, hd, digits, hCons⟩ := Numeral.exists_numeral_eq_cons digitChar
      (show 2 ≤ 10 by decide) pn.id.toUInt32.toNat
    have hDigits : ∀ d < 10, ('*' == digitChar d) = false ∧ isAlpha (digitChar d) = false := by
      decide
    obtain ⟨hStar, hAlpha⟩ := hDigits d hd
    rw [fastInt32ToBufferLeft_eq (h.id hId).2, hCons] at hRead
    simp [component, consumePrefix, isPrefixOf?, hStar, consumeNameOf, hAlpha] at hRead
  · cases hRead
    exact ⟨rfl, rfl⟩

theorem suffix_part (hSlash : has → '/' ∉ name.toList ++ ':' :: value)
    (h : '/' :: s <:+ part has name value ++ rest) :
    has ∧ s = name.toList ++ ':' :: value ++ rest ∨ '/' :: s <:+ rest := by
  cases has with
  | false => exact .inr h
  | true =>
    refine (suffix_cons_iff.mp h).imp (fun hFirst => ⟨rfl, (cons.inj hFirst).2⟩) fun hLater => ?_
    have hSlash := hSlash rfl
    generalize name.toList ++ ':' :: value = skipped at hSlash hLater
    induction skipped with
    | nil => exact hLater
    | cons c skipped ih =>
      rw [mem_cons, not_or] at hSlash
      have hNext := (suffix_cons_iff.mp hLater).resolve_left fun hSame =>
        hSlash.1 (cons.inj hSame).1
      exact ih hSlash.2 hNext

/-- What follows a `/device:` in a printed name is the text of the id. -/
theorem device_suffix (h : Printable pn)
    (hSuffix : '/' :: ("device".toList ++ ':' :: s) <:+ (parsedNameToString pn).toList) :
    s = idText pn := by
  have hNumber {name : String} (hName : '/' ∉ name.toList) {n : Int32} (hn : 0 ≤ n) :
      '/' ∉ name.toList ++ ':' :: fastInt32ToBufferLeft n := by
    simpa [hName] using not_mem_fastInt32 hn (by decide)
  have hJob (hHas : pn.hasJob) : '/' ∉ "job".toList ++ ':' :: pn.job.toList := by
    simpa using not_mem_jobName (h.job hHas) (by decide)
  have hName (hHas : pn.hasType) {c : Char} := not_mem_jobName (h.type hHas) (c := c)
  have hId {c : Char} := not_mem_idText h (c := c)
  have hType (hHas : pn.hasType) : '/' ∉ pn.type.toList ++ ':' :: idText pn := by
    simp [hName hHas (c := '/') (by decide), hId (c := '/') (by decide)]
  rw [toList_parsedNameToString, ← append_nil (part pn.hasType _ _)] at hSuffix
  have hReplica := (suffix_part hJob hSuffix).resolve_left (by simp)
  have hTask := (suffix_part (fun hHas => hNumber (by decide) (h.replica hHas))
    hReplica).resolve_left (by simp)
  have hDevice := (suffix_part (fun hHas => hNumber (by decide) (h.task hHas))
    hTask).resolve_left (by simp)
  obtain ⟨hHas, hSame⟩ | hNil := suffix_part hType hDevice
  · rw [append_nil] at hSame
    obtain ⟨-, -, hRest⟩ := (append_cons_inj_of_notMem (hName hHas (by decide))
      (hId (by decide))).mp hSame.symm
    exact hRest.symm
  · exact absurd (suffix_nil.mp hNil) (cons_ne_nil _ _)

/-- A suffix of the text is left, and a type that was read is a legacy one. -/
structure Reads (text : List Char) (c : Cursor) : Prop where
  suffix : c.fullname <:+ text
  type : c.p.hasType → c.p.type = "CPU" ∨ c.p.type = "GPU"

theorem parseComponent_reads (hConsume : ∀ {s a rest}, consume s = some (a, rest) → rest <:+ s)
    (hSet : ∀ p v, (set p v).hasType = p.hasType ∧ (set p v).type = p.type) (hReads : Reads text c)
    (hParse : parseComponent expected consume set c = some c') :
    Reads text c' := by
  obtain rfl | ⟨s, rest, value, hPrefix, hRest, rfl⟩ := parseComponent_cases hConsume hParse
  · exact hReads
  · refine ⟨hRest.trans ((consumePrefix_suffix hPrefix).trans hReads.suffix), ?_⟩
    rw [(hSet c.p value).1, (hSet c.p value).2]
    exact hReads.type

theorem parseLegacy_reads {lower upper type : String} (hLegacy : type = "CPU" ∨ type = "GPU")
    (hReads : Reads text c) (hParse : parseLegacy lower upper type c = some c') :
    Reads text c' := by
  obtain rfl | ⟨expected, s, rest, id, -, hPrefix, hRest, rfl⟩ := parseLegacy_cases hParse
  · exact hReads
  · refine ⟨hRest.trans ((consumePrefix_suffix hPrefix).trans hReads.suffix), fun _ => ?_⟩
    cases id <;> exact hLegacy

theorem parseDevice_reads (h : Printable pn)
    (hReads : Reads (parsedNameToString pn).toList c) (hParse : parseDevice c = some c') :
    Reads (parsedNameToString pn).toList c' := by
  rw [parseDevice] at hParse
  split at hParse
  · cases hParse
    exact hReads
  · rename_i s hPrefix
    have hText := hReads.suffix
    rw [consumePrefix_eq hPrefix] at hText
    obtain rfl := device_suffix h hText
    split at hParse
    · cases hParse
    · rename_i type rest hRead
      obtain ⟨rfl, rfl⟩ := component_name_idText h hRead
      cases hParse
      exact ⟨nil_suffix, Bool.noConfusion⟩

theorem parseTurn_reads (h : Printable pn)
    (hReads : Reads (parsedNameToString pn).toList ⟨s, p, false⟩)
    (hParse : parseTurn s p = some c) :
    Reads (parsedNameToString pn).toList c := by
  simp only [parseTurn, bind_eq_bind, bind_eq_some_iff] at hParse
  obtain ⟨c₁, hJob, c₂, hReplica, c₃, hTask, c₄, hDevice, c₅, hCpu, c₆, hGpu, hEnd⟩ := hParse
  have hReads := parseComponent_reads consumeNameOf_suffix
    (by rintro p (_ | _) <;> exact ⟨rfl, rfl⟩) hReads hJob
  have hReads := parseComponent_reads consumeNumber_suffix
    (by rintro p (_ | _) <;> exact ⟨rfl, rfl⟩) hReads hReplica
  have hReads := parseComponent_reads consumeNumber_suffix
    (by rintro p (_ | _) <;> exact ⟨rfl, rfl⟩) hReads hTask
  have hReads := parseDevice_reads h hReads hDevice
  have hReads := parseLegacy_reads (.inr rfl) (parseLegacy_reads (.inl rfl) hReads hCpu) hGpu
  split at hEnd
  · cases hEnd
    exact hReads
  · cases hEnd

theorem parseLoop_reads (h : Printable pn) {p' : ParsedName}
    (hReads : Reads (parsedNameToString pn).toList ⟨s, p, false⟩)
    (hParse : parseLoop s p = some p') :
    p'.hasType → p'.type = "CPU" ∨ p'.type = "GPU" := by
  induction s, p using parseLoop.induct with
  | case1 p =>
    rw [parseLoop] at hParse
    cases hParse
    exact hReads.type
  | case2 s p hSome hNone =>
    rw [parseLoop, if_neg hSome] at hParse
    split at hParse
    · cases hParse
    · rename_i c hTurn
      cases hNone.symm.trans hTurn
  | case3 s p hSome c hTurn ih =>
    rw [parseLoop, if_neg hSome] at hParse
    split at hParse
    · cases hParse
    · rename_i c' hTurn'
      obtain rfl := some.inj (hTurn.symm.trans hTurn')
      obtain ⟨hSuffix, hType⟩ := parseTurn_reads h hReads hTurn
      exact ih ⟨hSuffix, hType⟩ hParse

/-- What is printed is read back unless there is a type that has no short form of its own. -/
theorem parseFullName_printed_iff (h : Printable pn) :
    (∃ p, parseFullName (parsedNameToString pn).toList = some p ∧ Same pn p) ↔
      (pn.hasType → pn.type = "CPU" ∨ pn.type = "GPU") := by
  refine ⟨fun hRead hHas => ?_, parseFullName_printed h⟩
  obtain ⟨p, hParse, -, -, -, hFlag, -, -, -, -, hName, -⟩ := hRead
  rw [← hName hHas]
  rw [parseFullName] at hParse
  split at hParse
  · cases hParse
    exact absurd (hFlag.trans hHas) Bool.false_ne_true
  · exact parseLoop_reads h ⟨suffix_rfl, Bool.noConfusion⟩ hParse (hFlag.trans hHas)

def workerName : ParsedName :=
  { hasJob := true, job := "worker", hasTask := true, task := 3, hasType := true, type := "GPU" }

theorem parseFullName_printed_worker :
    (∃ p, parseFullName (parsedNameToString workerName).toList = some p ∧ Same workerName p) ↔
      (workerName.hasType → workerName.type = "CPU" ∨ workerName.type = "GPU") :=
  parseFullName_printed_iff
    ⟨fun _ => by decide, Bool.noConfusion, fun _ => by decide, fun _ => by decide, Bool.noConfusion⟩

def tpuName : ParsedName := { hasType := true, type := "TPU" }

/-- A name of another type is not read at all. -/
theorem parseFullName_printed_tpu : Printable tpuName ∧
    (parsedNameToString tpuName).toList = "/TPU:*".toList ∧
      parseFullName (parsedNameToString tpuName).toList = none := by
  have hText : (parsedNameToString tpuName).toList = "/TPU:*".toList := rfl
  have hTurn : parseTurn "/TPU:*".toList {} = none := rfl
  refine ⟨⟨Bool.noConfusion, Bool.noConfusion, Bool.noConfusion, fun _ => by decide,
    Bool.noConfusion⟩, hText, ?_⟩
  rw [parseFullName, if_neg (by decide), parseLoop, if_neg (by decide)]
  split
  · rfl
  · rename_i c hTook
    cases hTurn.symm.trans hTook

end TensorFlowOnSpark.Util.DeviceNameUtils
