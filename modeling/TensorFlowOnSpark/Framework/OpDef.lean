import TensorFlowOnSpark.Framework.Status
import Mathlib.Algebra.Group.Int.Defs
import Mathlib.Algebra.GroupWithZero.Nat

/-!
# Ops, nodes and attributes

`AttrValue`, `OpDef` and `NodeDef` of `framework/*.proto`, and what the functions that
check them report.
-/

namespace TensorFlowOnSpark.Ops

abbrev Bytes := List UInt8

abbrev DataType := Int

def dtInvalid : DataType := 0

def kDataTypeRefOffset : Int := 100

def isRefType (dtype : DataType) : Bool := decide (kDataTypeRefOffset < dtype)

def makeRefType (dtype : DataType) : DataType := dtype + kDataTypeRefOffset

/-- `AttrValue.ListValue` -/
structure ListValue where
  s : List Bytes
  i : List Int
  f : List UInt32
  b : List Bool
  type : List DataType
  shape : List Bytes
  tensor : List Bytes
  func : List Bytes
deriving DecidableEq, Repr

def ListValue.empty : ListValue := ⟨[], [], [], [], [], [], [], []⟩

inductive AttrValue where
  | notSet
  | s (value : Bytes)
  | i (value : Int)
  | f (value : UInt32)
  | b (value : Bool)
  | type (value : DataType)
  | shape (value : Bytes)
  | tensor (value : Bytes)
  | list (value : ListValue)
  | func (value : Bytes)
  | placeholder (value : String)
deriving DecidableEq, Repr

namespace AttrValue

def getS : AttrValue → Bytes
  | .s value => value
  | _ => []

def getI : AttrValue → Int
  | .i value => value
  | _ => 0

def getType : AttrValue → DataType
  | .type value => value
  | _ => dtInvalid

def getList : AttrValue → ListValue
  | .list value => value
  | _ => .empty

def hasList : AttrValue → Bool
  | .list _ => true
  | _ => false

end AttrValue

/-- `OpDef.ArgDef`; an empty name of an attr stands for a field that is not set. -/
structure ArgDef where
  name : String
  type : DataType
  typeAttr : String
  numberAttr : String
  typeListAttr : String
  isRef : Bool
deriving DecidableEq, Repr

/-- `OpDef.AttrDef` -/
structure AttrDef where
  name : String
  type : String
  defaultValue : Option AttrValue
  hasMinimum : Bool
  minimum : Int
  allowedValues : Option AttrValue
deriving DecidableEq, Repr

structure OpDef where
  name : String
  inputArg : List ArgDef
  outputArg : List ArgDef
  attr : List AttrDef
deriving DecidableEq, Repr

structure AttrMap where
  entries : List (String × AttrValue)
  nodup : (entries.map Prod.fst).Nodup
deriving DecidableEq

structure NodeDef where
  name : String
  op : String
  input : List String
  device : String
  attr : AttrMap
deriving DecidableEq

/-- What makes an op incompatible with its old definition; `output` picks the word. -/
inductive Change where
  | nameMismatch
  | removed (attr : String)
  | changedType (attr oldType newType : String)
  | stricter (oldAttr newAttr : AttrDef)
  | higherMinimum (oldAttr newAttr : AttrDef)
  | addedWithoutDefault (attr : String)
  | signature (output : Bool) (oldSig newSig : String)
  | refLists (output : Bool)
  | ref (output : Bool) (i : Nat)

/-- What the checks report; `unrecognizedDataType` is a failed check of the program. -/
inductive Error where
  | unrecognizedDataType (dtype : DataType)
  | hadValue (found expected : String)
  | unexpectedPlaceholder
  | missingValue (expected : String)
  | referenceType (dtype : String)
  | invalidDataType
  | containsInvalidDataType
  | forAttr (error : Error) (attr : String)
  | belowMinimum (attr : String) (value minimum : Int)
  | shortList (attr : String) (length minimum : Int)
  | typeNotAllowed (attr dtype : String) (allowed : List String)
  | stringNotAllowed (attr : String) (str : Bytes) (allowed : List Bytes)
  | allowedValuesUnsupported (type : String)
  | allowedValues (error : Error) (attr op : String)
  | inOp (error : Error) (op : String)
  | invalidOpDef (problem : String) (op : OpDef)
  | noAttr (attr : String) (node : NodeDef)
  | outOfRange (attr : String) (value : Int)
  | negativeRepeats (repeats : Int)
  | missingTypeOrAttr (arg : ArgDef)
  | noTypeFields (arg : ArgDef)
  | opMismatch (node : NodeDef) (op : OpDef)
  | colonInControl (input : String) (node : NodeDef)
  | dataAfterControl (input : String) (node : NodeDef)
  | duplicateAttr (attr : String) (op : OpDef)
  | attrNotInOp (attr : String) (node : NodeDef) (op : OpDef)
  | inNode (error : Error) (node : NodeDef) (op : OpDef)
  | missingAttrs (attrs : List String) (node : NodeDef) (op : OpDef)
  | inputsMismatch (inputs : List DataType) (numInputs : Nat) (node : NodeDef) (op : OpDef)
  | incompatible (change : Change) (old new : OpDef)

structure Printers where
  protoShortDebugString : OpDef → String
  argShortDebugString : ArgDef → String
  summarizeOpDef : OpDef → String
  summarizeNodeDef : NodeDef → String
  summarizeAttrValue : AttrValue → String
  bytes : Bytes → String
  dataTypeVectorString : List DataType → String

namespace Change

def allowedStr (p : Printers) (attr : AttrDef) : String :=
  match attr.allowedValues with
  | none => "no restriction"
  | some values => p.summarizeAttrValue values

def minStr (attr : AttrDef) : String :=
  if attr.hasMinimum then toString attr.minimum else "no minimum"

def text (p : Printers) : Change → String
  | .nameMismatch => "Name mismatch"
  | .removed attr => s!"Attr '{attr}' removed"
  | .changedType attr oldType newType =>
    s!"Attr '{attr}' changed type '{oldType}' -> '{newType}'"
  | .stricter oldAttr newAttr =>
    s!"Attr '{oldAttr.name}' has a stricter set of allowed values; from " ++
      allowedStr p oldAttr ++ " to " ++ allowedStr p newAttr
  | .higherMinimum oldAttr newAttr =>
    s!"Attr '{oldAttr.name}' has a higher minimum; from {minStr oldAttr} to {minStr newAttr}"
  | .addedWithoutDefault attr => s!"Attr '{attr}' added without default"
  | .signature output oldSig newSig =>
    (if output then "Output" else "Input") ++ s!" signature mismatch '{oldSig}' vs. '{newSig}'"
  | .refLists output =>
    if output then "Unexpected change in output ref lists"
    else "Unexpected change in input ref lists."
  | .ref output i =>
    if output then s!"Output {i} changed from ref to non-ref"
    else s!"Input {i} changed from non-ref to ref"

end Change

namespace Error

open Framework (Code)

def code : Error → Code
  | .forAttr error _ | .allowedValues error _ _ | .inOp error _ | .inNode error _ _ => error.code
  | .allowedValuesUnsupported _ => .unimplemented
  | .noAttr _ _ => .notFound
  | _ => .invalidArgument

def message (p : Printers) : Error → String
  | .unrecognizedDataType dtype => s!"Unrecognized DataType enum value {dtype}"
  | .hadValue found expected =>
    s!"AttrValue had value with type '{found}' when '{expected}' expected"
  | .unexpectedPlaceholder => "AttrValue had value with unexpected type 'placeholder'"
  | .missingValue expected => s!"AttrValue missing value with expected type '{expected}'"
  | .referenceType dtype => s!"AttrValue must not have reference type value of {dtype}"
  | .invalidDataType => "AttrValue has invalid DataType"
  | .containsInvalidDataType => "AttrValue contains invalid DataType"
  | .forAttr error attr => s!"{error.message p}\n\t for attr '{attr}'"
  | .belowMinimum attr value minimum =>
    s!"Value for attr '{attr}' of {value} must be at least minimum {minimum}"
  | .shortList attr length minimum =>
    s!"Length for attr '{attr}' of {length} must be at least minimum {minimum}"
  | .typeNotAllowed attr dtype allowed =>
    s!"Value for attr '{attr}' of {dtype} is not in the list of allowed values: " ++
      ", ".intercalate allowed
  | .stringNotAllowed attr str allowed =>
    s!"Value for attr '{attr}' of \"{p.bytes str}\" is not in the list of allowed values: " ++
      ", ".intercalate (allowed.map fun a => s!"\"{p.bytes a}\"")
  | .allowedValuesUnsupported type =>
    s!"Support for allowed_values not implemented for type {type}"
  | .allowedValues error attr op => s!"{error.message p}\n\t for attr '{attr}' in Op '{op}'"
  | .inOp error op => s!"{error.message p}\n\t in Op '{op}'"
  | .invalidOpDef problem op => s!"{problem}; in OpDef: {p.protoShortDebugString op}"
  | .noAttr attr node =>
    s!"No attr named '{attr}' in NodeDef:" ++
      if attr.startsWith "_" then "" else s!"\n\t [[Node: {p.summarizeNodeDef node}]]"
  | .outOfRange attr value => s!"Attr {attr} has value {value} out of range for an int32"
  | .negativeRepeats repeats => s!"Value for number_attr() {repeats} < 0"
  | .missingTypeOrAttr arg =>
    s!"Missing type or type_attr field in {p.argShortDebugString arg}"
  | .noTypeFields arg => s!"No type fields in {p.argShortDebugString arg}"
  | .opMismatch node op =>
    s!"NodeDef op '{node.op}' does not match {p.summarizeOpDef op}" ++
      s!"; NodeDef: {p.summarizeNodeDef node}"
  | .colonInControl input node =>
    s!"Control input '{input}' must not have ':' in NodeDef: {p.summarizeNodeDef node}"
  | .dataAfterControl input node =>
    s!"Non-control input '{input}' after control input in NodeDef: {p.summarizeNodeDef node}"
  | .duplicateAttr attr op =>
    s!"OpDef has duplicate attr name '{attr}': {p.summarizeOpDef op}"
  | .attrNotInOp attr node op =>
    s!"NodeDef mentions attr '{attr}' not in {p.summarizeOpDef op}" ++
      s!"; NodeDef: {p.summarizeNodeDef node}"
  | .inNode error node op =>
    s!"{error.message p}\n\t; NodeDef: {p.summarizeNodeDef node}; {p.summarizeOpDef op}"
  | .missingAttrs attrs node op =>
    s!"NodeDef missing attr" ++ (if attrs.length = 1 then " '" else "s '") ++
      "', '".intercalate attrs ++ s!"' from {p.summarizeOpDef op}" ++
      s!"; NodeDef: {p.summarizeNodeDef node}"
  | .inputsMismatch inputs numInputs node op =>
    s!"NodeDef expected inputs '{p.dataTypeVectorString inputs}' do not match {numInputs}" ++
      s!" inputs specified; {p.summarizeOpDef op}; NodeDef: {p.summarizeNodeDef node}"
  | .incompatible change old new =>
    s!"Incompatible Op change: {change.text p}; old: {p.summarizeOpDef old}" ++
      s!"; new: {p.summarizeOpDef new}"

end Error

open List

def validate (condition : Bool) (error : Error) : Except Error Unit :=
  if condition then .ok () else .error error

def typeNames : List (DataType × String) :=
  [(0, "INVALID"), (1, "float"), (2, "double"), (3, "int32"), (4, "uint8"), (17, "uint16"),
    (5, "int16"), (6, "int8"), (7, "string"), (8, "complex64"), (18, "complex128"), (9, "int64"),
    (10, "bool"), (11, "qint8"), (12, "quint8"), (16, "quint16"), (15, "qint16"), (13, "qint32"),
    (14, "bfloat16"), (19, "half"), (20, "resource")]

def baseTypeString (dtype : DataType) : Except Error String :=
  match typeNames.find? fun entry => entry.1 = dtype with
  | some entry => .ok entry.2
  | none => .error (.unrecognizedDataType dtype)

/-- `DataTypeString` of a type with at most `depth` offsets for references. -/
def dataTypeStringFrom : Nat → DataType → Except Error String
  | 0, dtype => baseTypeString dtype
  | depth + 1, dtype =>
    if isRefType dtype then
      (· ++ "_ref") <$> dataTypeStringFrom depth (dtype - kDataTypeRefOffset)
    else baseTypeString dtype

def dataTypeString (dtype : DataType) : Except Error String :=
  dataTypeStringFrom (dtype.toNat / 100) dtype

/-- The names that `DataTypeFromString` reads besides those that end in `_ref`. -/
def baseTypeFromString (name : String) : Option DataType :=
  match [("float32", (1 : DataType)), ("float64", 2), ("float16", 19)].lookup name with
  | some dtype => some dtype
  | none => (typeNames.find? fun entry => entry.1 ≠ dtInvalid ∧ entry.2 = name).map Prod.fst

def dataTypeFromString (name : String) : Option DataType :=
  if "_ref".toList.isSuffixOf name.toList then
    (baseTypeFromString (String.ofList (name.toList.take (name.length - 4)))).map makeRefType
  else baseTypeFromString name

def listType (type : String) : String := "list(" ++ type ++ ")"

def isListType (type : String) : Bool := "list(".toList.isPrefixOf type.toList

/-- `VALIDATE_FIELD`: whether the field `name` of the value is set, which counts in `num_set`. -/
def validateField (value : AttrValue) (type name : String) (size : ListValue → Nat)
    (isCase : Bool) (numSet : Nat) : Except Error Nat :=
  match value with
  | .list l =>
    if 0 < size l then
      if type ≠ listType name then .error (.hadValue (listType name) type) else .ok (numSet + 1)
    else .ok numSet
  | _ =>
    if isCase then
      if type ≠ name then .error (.hadValue name type) else .ok (numSet + 1)
    else .ok numSet

def AttrValue.isS : AttrValue → Bool | .s _ => true | _ => false
def AttrValue.isI : AttrValue → Bool | .i _ => true | _ => false
def AttrValue.isF : AttrValue → Bool | .f _ => true | _ => false
def AttrValue.isB : AttrValue → Bool | .b _ => true | _ => false
def AttrValue.isType : AttrValue → Bool | .type _ => true | _ => false
def AttrValue.isShape : AttrValue → Bool | .shape _ => true | _ => false
def AttrValue.isTensor : AttrValue → Bool | .tensor _ => true | _ => false
def AttrValue.isFunc : AttrValue → Bool | .func _ => true | _ => false
def AttrValue.isPlaceholder : AttrValue → Bool | .placeholder _ => true | _ => false

/-- Ref types and `DT_INVALID` are illegal; `error` says that the latter was met. -/
def validateType (error : Error) (dtype : DataType) : Except Error Unit :=
  if isRefType dtype then dataTypeString dtype >>= fun name => .error (.referenceType name)
  else validate (dtype ≠ dtInvalid) error

def validateTypes (error : Error) : List DataType → Except Error Unit
  | [] => .ok ()
  | dtype :: rest => validateType error dtype >>= fun _ => validateTypes error rest

/-- The number of fields that are set, with the empty list that an unset value stands for. -/
def countFields (value : AttrValue) (type : String) : Except Error Nat := do
  let numSet ← validateField value type "string" (·.s.length) value.isS 0
  let numSet ← validateField value type "int" (·.i.length) value.isI numSet
  let numSet ← validateField value type "float" (·.f.length) value.isF numSet
  let numSet ← validateField value type "bool" (·.b.length) value.isB numSet
  let numSet ← validateField value type "type" (·.type.length) value.isType numSet
  let numSet ← validateField value type "shape" (·.shape.length) value.isShape numSet
  let numSet ← validateField value type "tensor" (·.tensor.length) value.isTensor numSet
  let numSet ← if value.isFunc then
      validate (type = "func") (.hadValue "func" type) >>= fun _ => .ok (numSet + 1)
    else .ok numSet
  validate (!value.isPlaceholder) .unexpectedPlaceholder
  if isListType type && !value.hasList then
    validate (numSet = 0) (.missingValue type)
    .ok (numSet + 1)
  else .ok numSet

def attrValueHasType (value : AttrValue) (type : String) : Except Error Unit := do
  let numSet ← countFields value type
  validate (numSet ≠ 0 || isListType type) (.missingValue type)
  if type = "type" then validateType .invalidDataType value.getType
  else if type = "list(type)" then validateTypes .containsInvalidDataType value.getList.type
  else .ok ()

def dataTypeStrings : List DataType → Except Error (List String)
  | [] => .ok []
  | dtype :: rest => do
    let name ← dataTypeString dtype
    let names ← dataTypeStrings rest
    .ok (name :: names)

def AttrDef.allowed (attr : AttrDef) : ListValue := (attr.allowedValues.getD .notSet).getList

def allowedTypeValue (dtype : DataType) (attr : AttrDef) : Except Error Unit :=
  if dtype ∈ attr.allowed.type then .ok ()
  else do
    let allowed ← dataTypeStrings attr.allowed.type
    let name ← dataTypeString dtype
    .error (.typeNotAllowed attr.name name allowed)

def allowedStringValue (str : Bytes) (attr : AttrDef) : Except Error Unit :=
  validate (str ∈ attr.allowed.s) (.stringNotAllowed attr.name str attr.allowed.s)

def forEach {α : Type} (check : α → Except Error Unit) : List α → Except Error Unit
  | [] => .ok ()
  | x :: rest => check x >>= fun _ => forEach check rest

def listLength (type : String) (l : ListValue) : Int :=
  if type = "list(string)" then l.s.length
  else if type = "list(int)" then l.i.length
  else if type = "list(float)" then l.f.length
  else if type = "list(bool)" then l.b.length
  else if type = "list(type)" then l.type.length
  else if type = "list(shape)" then l.shape.length
  else if type = "list(tensor)" then l.tensor.length
  else -1

def validateMinimum (value : AttrValue) (attr : AttrDef) : Except Error Unit :=
  if attr.hasMinimum then
    if attr.type = "int" then
      validate (attr.minimum ≤ value.getI) (.belowMinimum attr.name value.getI attr.minimum)
    else
      let length := listLength attr.type value.getList
      validate (attr.minimum ≤ length) (.shortList attr.name length attr.minimum)
  else .ok ()

def validateAllowed (value : AttrValue) (attr : AttrDef) : Except Error Unit :=
  if attr.allowedValues.isSome then
    if attr.type = "type" then allowedTypeValue value.getType attr
    else if attr.type = "list(type)" then
      forEach (fun dtype => allowedTypeValue dtype attr) value.getList.type
    else if attr.type = "string" then allowedStringValue value.getS attr
    else if attr.type = "list(string)" then
      forEach (fun str => allowedStringValue str attr) value.getList.s
    else .error (.allowedValuesUnsupported attr.type)
  else .ok ()

def validateAttrValue (value : AttrValue) (attr : AttrDef) : Except Error Unit := do
  (attrValueHasType value attr.type).mapError fun e => .forAttr e attr.name
  validateMinimum value attr
  validateAllowed value attr

def OpDef.findAttr (op : OpDef) (name : String) : Option AttrDef :=
  op.attr.find? fun attr => attr.name = name

def isUpperLetter (c : Char) : Bool := decide ('A' ≤ c ∧ c ≤ 'Z')

def isLetter (c : Char) : Bool := isUpperLetter c || decide ('a' ≤ c ∧ c ≤ 'z')

def isLetterDigit (c : Char) : Bool := isLetter c || decide ('0' ≤ c ∧ c ≤ '9')

def isCamelCase (name : String) : Bool :=
  match name.toList with
  | [] => false
  | c :: rest => isUpperLetter c && rest.all isLetterDigit

def consume (head : String) (s : List Char) : Option (List Char) := head.toList.isPrefixOf? s

def valueTypes : List String :=
  ["string", "int", "float", "bool", "type", "shape", "tensor", "func"]

/-- Reads the type of an attr to its end; the result says whether it is a list. -/
def validateAttrType (attr : AttrDef) (op : OpDef) : Except Error Bool := do
  let consumed := consume "list(" attr.type.toList
  let isList := consumed.isSome
  let rest := consumed.getD attr.type.toList
  let found := valueTypes.findSome? fun valid => consume valid rest
  let rest := found.getD rest
  validate found.isSome
    (.invalidOpDef s!"Unrecognized type '{String.ofList rest}' in attr '{attr.name}'" op)
  let closed := consume ")" rest
  validate (!isList || closed.isSome)
    (.invalidOpDef s!"'list(' is missing ')' in attr {attr.name}'s type {attr.type}" op)
  let rest := if isList then closed.getD rest else rest
  validate rest.isEmpty
    (.invalidOpDef
      s!"Extra '{String.ofList rest}' at the end of attr {attr.name}'s type {attr.type}" op)
  .ok isList

def validateAttrMinimum (op : OpDef) (attr : AttrDef) (isList : Bool) : Except Error Unit :=
  if attr.hasMinimum then do
    validate (attr.type = "int" || isList)
      (.invalidOpDef s!"Attr '{attr.name}' has minimum for unsupported type {attr.type}" op)
    validate (!isList || 0 ≤ attr.minimum)
      (.invalidOpDef (s!"Attr '{attr.name}' with list type must have a non-negative " ++
        s!"minimum, not {attr.minimum}") op)
  else
    validate (attr.minimum = 0)
      (.invalidOpDef (s!"Attr '{attr.name}' with has_minimum = false but minimum " ++
        s!"{attr.minimum} not equal to default of 0") op)

def validateAttrAllowed (op : OpDef) (attr : AttrDef) (isList : Bool) : Except Error Unit :=
  match attr.allowedValues with
  | some values =>
    (attrValueHasType values (if isList then attr.type else listType attr.type)).mapError
      fun e => .allowedValues e attr.name op.name
  | none => .ok ()

def validateAttrDefault (op : OpDef) (attr : AttrDef) : Except Error Unit :=
  match attr.defaultValue with
  | some value => (validateAttrValue value attr).mapError fun e => .inOp e op.name
  | none => .ok ()

def validateAttr (op : OpDef) (names : List String) (attr : AttrDef) :
    Except Error (List String) := do
  validate (attr.name ∉ names) (.invalidOpDef s!"Duplicate name: {attr.name}" op)
  validate (dataTypeFromString attr.name).isNone
    (.invalidOpDef s!"Attr can't have name {attr.name} that matches a data type" op)
  let isList ← validateAttrType attr op
  validateAttrMinimum op attr isList
  validateAttrAllowed op attr isList
  validateAttrDefault op attr
  .ok (attr.name :: names)

def ArgDef.hasAttrStyleType (arg : ArgDef) : Bool :=
  arg.type ≠ dtInvalid || arg.typeAttr ≠ "" || arg.typeListAttr ≠ ""

def count (condition : Bool) : Nat := if condition then 1 else 0

def validateNumberAttr (arg : ArgDef) (op : OpDef) (suffix : String) : Except Error Unit :=
  if arg.numberAttr ≠ "" then
    match op.findAttr arg.numberAttr with
    | none => .error (.invalidOpDef s!"No attr with name '{arg.numberAttr}'{suffix}" op)
    | some attr => do
      validate (attr.type = "int") (.invalidOpDef
        s!"Attr '{attr.name}' used as length{suffix} has type {attr.type} != int" op)
      validate attr.hasMinimum
        (.invalidOpDef s!"Attr '{attr.name}' used as length{suffix} must have minimum" op)
      validate (0 ≤ attr.minimum)
        (.invalidOpDef s!"Attr '{attr.name}' used as length{suffix} must have minimum >= 0" op)
      validate (arg.typeListAttr = "")
        (.invalidOpDef s!"Can't have both number_attr and type_list_attr{suffix}" op)
      validate (count (arg.type ≠ dtInvalid) + count (arg.typeAttr ≠ "") = 1)
        (.invalidOpDef s!"Exactly one of type, type_attr must be set{suffix}" op)
  else
    validate
      (count (arg.type ≠ dtInvalid) + count (arg.typeAttr ≠ "") + count (arg.typeListAttr ≠ "") = 1)
      (.invalidOpDef s!"Exactly one of type, type_attr, type_list_attr must be set{suffix}" op)

/-- The attr `name` has the type that its use as `use` asks for. -/
def validateTypeAttr (op : OpDef) (name use type suffix : String) : Except Error Unit :=
  match op.findAttr name with
  | none => .error (.invalidOpDef s!"No attr with name '{name}'{suffix}" op)
  | some attr =>
    validate (attr.type = type) (.invalidOpDef
      s!"Attr '{attr.name}' used as {use}{suffix} has type {attr.type} != {type}" op)

def validateArgType (arg : ArgDef) (op : OpDef) (suffix : String) : Except Error Unit :=
  if arg.typeAttr ≠ "" then validateTypeAttr op arg.typeAttr "type_attr" "type" suffix
  else if arg.typeListAttr ≠ "" then
    validateTypeAttr op arg.typeListAttr "type_list_attr" "list(type)" suffix
  else if isRefType arg.type then do
    let name ← dataTypeString arg.type
    .error (.invalidOpDef s!"Illegal use of ref type '{name}'. Use 'Ref(type)' instead{suffix}" op)
  else .ok ()

def validateArg (op : OpDef) (output : Bool) (names : List String) (arg : ArgDef) :
    Except Error (List String) := do
  let suffix := (if output then " for output '" else " for input '") ++ arg.name ++ "'"
  validate (arg.name ∉ names) (.invalidOpDef s!"Duplicate name: {arg.name}" op)
  validate arg.hasAttrStyleType (.invalidOpDef s!"Missing type{suffix}" op)
  validateNumberAttr arg op suffix
  validateArgType arg op suffix
  .ok (arg.name :: names)

def validateEach {α : Type} (check : List String → α → Except Error (List String)) :
    List String → List α → Except Error (List String)
  | names, [] => .ok names
  | names, x :: rest => check names x >>= fun names => validateEach check names rest

def validateOpDef (op : OpDef) : Except Error Unit := do
  validate (op.name.startsWith "_" || isCamelCase op.name)
    (.invalidOpDef s!"Invalid name: {op.name} (Did you use CamelCase?)" op)
  let names ← validateEach (validateAttr op) [] op.attr
  let names ← validateEach (validateArg op false) names op.inputArg
  let _ ← validateEach (validateArg op true) names op.outputArg
  .ok ()

namespace AttrMap

def find (m : AttrMap) (name : String) : Option AttrValue := m.entries.lookup name

def keys (m : AttrMap) : List String := m.entries.map Prod.fst

def add (m : AttrMap) (name : String) (value : AttrValue) (h : name ∉ m.keys) : AttrMap :=
  ⟨m.entries ++ [(name, value)], by
    rw [map_append, nodup_append]
    refine ⟨m.nodup, by simp, ?_⟩
    intro a hMem b hSingle hEq
    have hName : b = name := by simpa using hSingle
    exact h (hName ▸ hEq ▸ hMem)⟩

end AttrMap

namespace NodeDef

def findAttr (node : NodeDef) (name : String) : Except Error AttrValue :=
  match node.attr.find name with
  | some value => .ok value
  | none => .error (.noAttr name node)

/-- `static_cast<int32>` of an `int64`. -/
def toInt32 (value : Int) : Int := value.bmod (2 ^ 32)

/-- `GetNodeAttr` of an `int32` -/
def getInt32Attr (node : NodeDef) (name : String) : Except Error Int := do
  let value ← node.findAttr name
  attrValueHasType value "int"
  validate (toInt32 value.getI = value.getI) (.outOfRange name value.getI)
  .ok (toInt32 value.getI)

/-- `GetNodeAttr` of a `DataType` -/
def getTypeAttr (node : NodeDef) (name : String) : Except Error DataType := do
  let value ← node.findAttr name
  attrValueHasType value "type"
  .ok value.getType

/-- What `AddArgToSig` appends before it makes the types references. -/
def argTypes (node : NodeDef) (arg : ArgDef) : Except Error (List DataType) :=
  if arg.numberAttr ≠ "" then do
    let repeats ← node.getInt32Attr arg.numberAttr
    validate (0 ≤ repeats) (.negativeRepeats repeats)
    if arg.typeAttr ≠ "" then do
      let dtype ← node.getTypeAttr arg.typeAttr
      .ok (replicate repeats.toNat dtype)
    else if arg.type ≠ dtInvalid then .ok (replicate repeats.toNat arg.type)
    else .error (.missingTypeOrAttr arg)
  else if arg.typeAttr ≠ "" then do
    let value ← node.findAttr arg.typeAttr
    .ok [value.getType]
  else if arg.typeListAttr ≠ "" then do
    let value ← node.findAttr arg.typeListAttr
    .ok value.getList.type
  else if arg.type ≠ dtInvalid then .ok [arg.type]
  else .error (.noTypeFields arg)

def addArgToSig (node : NodeDef) (arg : ArgDef) (sig : List DataType) :
    Except Error (List DataType) := do
  let types ← node.argTypes arg
  .ok (sig ++ if arg.isRef then types.map makeRefType else types)

def addArgsToSig (node : NodeDef) : List ArgDef → List DataType → Except Error (List DataType)
  | [], sig => .ok sig
  | arg :: rest, sig => node.addArgToSig arg sig >>= node.addArgsToSig rest

def inOutTypesForNode (node : NodeDef) (op : OpDef) :
    Except Error (List DataType × List DataType) := do
  let inputs ← node.addArgsToSig op.inputArg []
  let outputs ← node.addArgsToSig op.outputArg []
  .ok (inputs, outputs)

def countInputs (node : NodeDef) : List String → Bool → Nat → Except Error Nat
  | [], _, numInputs => .ok numInputs
  | input :: rest, seenControl, numInputs =>
    if "^".toList.isPrefixOf input.toList then
      if ':' ∈ input.toList then .error (.colonInControl input node)
      else node.countInputs rest true numInputs
    else if seenControl then .error (.dataAfterControl input node)
    else node.countInputs rest seenControl (numInputs + 1)

/-- `op_attrs`: the attrs that the node still has to have. -/
def indexAttrs (op : OpDef) : List AttrDef → List AttrDef → Except Error (List AttrDef)
  | [], opAttrs => .ok opAttrs
  | attr :: rest, opAttrs =>
    if attr.name ∈ opAttrs.map AttrDef.name then .error (.duplicateAttr attr.name op)
    else indexAttrs op rest (opAttrs ++ [attr])

/-- Walks through the attrs of the node and erases from `op_attrs` those that it has. -/
def checkAttrs (node : NodeDef) (op : OpDef) :
    List (String × AttrValue) → List AttrDef → Except Error (List AttrDef)
  | [], opAttrs => .ok opAttrs
  | (name, value) :: rest, opAttrs =>
    if "_".toList.isPrefixOf name.toList then node.checkAttrs op rest opAttrs
    else
      match opAttrs.find? fun attr => attr.name = name with
      | none => .error (.attrNotInOp name node op)
      | some attr => do
        (validateAttrValue value attr).mapError fun e => .inNode e node op
        node.checkAttrs op rest (opAttrs.filter fun attr => attr.name ≠ name)

def validateNodeDef (node : NodeDef) (op : OpDef) : Except Error Unit := do
  validate (node.op = op.name) (.opMismatch node op)
  let numInputs ← node.countInputs node.input false 0
  let opAttrs ← indexAttrs op op.attr []
  let opAttrs ← node.checkAttrs op node.attr.entries opAttrs
  validate opAttrs.isEmpty (.missingAttrs (opAttrs.map AttrDef.name) node op)
  let types ← node.inOutTypesForNode op
  validate (numInputs = types.1.length) (.inputsMismatch types.1 numInputs node op)

def addDefault (node : NodeDef) (attr : AttrDef) : NodeDef :=
  match attr.defaultValue with
  | none => node
  | some value =>
    if h : attr.name ∈ node.attr.keys then node
    else { node with attr := node.attr.add attr.name value h }

def addDefaults (node : NodeDef) (op : OpDef) : NodeDef := op.attr.foldl addDefault node

end NodeDef

end TensorFlowOnSpark.Ops
