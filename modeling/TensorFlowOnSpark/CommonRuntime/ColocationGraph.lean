import TensorFlowOnSpark.Util.DeviceNameMerge
import Mathlib.Data.Finset.Sort
import Mathlib.Data.String.Basic
import TensorFlowOnSpark.Lib.DisjointForest

/-!
# The colocation graph

`ColocationGraph` of `common_runtime/simple_placer.cc`: the nodes that must share a device form
classes, each with the device types and the device name that all of its nodes allow.
-/

namespace TensorFlowOnSpark.ColocationGraph

open Framework Util.DeviceNameUtils

/-- `classSpecs` is the attr `_class`, if the node has it as a list of strings. -/
structure Node where
  id : Int
  name : String
  typeString : String
  assignedDeviceName : String
  op : String
  device : String
  classSpecs : Option (List String)
deriving DecidableEq

structure Device where
  name : String
  deviceType : String

/-- The devices, the option of soft placement (none for null options), the registries of ops and
kernels, and the order in which a walk meets the entries of an unordered map. -/
structure Env where
  devices : List Device
  softPlacementOption : Option Bool
  opRegistered : String → Bool
  findKernelRegistration : String → Node → Except Status Bool
  kernelsRegisteredForOp : String → String
  hashOrder : List (String × String) → List (String × String)

def Env.allowSoftPlacement (env : Env) : Bool := env.softPlacementOption.getD true

def kColocationGroupPrefix : String := "loc:@"

def colocationGroups (node : Node) : List String :=
  let own := [kColocationGroupPrefix ++ node.name]
  match node.classSpecs with
  | none => own
  | some classSpecs =>
    let specs := classSpecs.filter fun spec => kColocationGroupPrefix.toList.isPrefixOf spec.toList
    if specs.isEmpty then own else specs

def deviceTypeOrder (type : String) : Nat :=
  if type = "CPU" then 3 else if type = "GPU" then 2 else 1

def deviceTypeComparator (a b : String) : Bool :=
  deviceTypeOrder a < deviceTypeOrder b ∨ deviceTypeOrder a = deviceTypeOrder b ∧ a < b

def prioritizedDeviceTypeList (devices : List Device) : List String :=
  (devices.map (·.deviceType)).dedup.insertionSort fun a b => deviceTypeComparator a b

def supportedDeviceTypesForNode (env : Env) (node : Node) : Except Status (List String) :=
  let prioritizedTypes := prioritizedDeviceTypeList env.devices
  if env.opRegistered node.op then
    prioritizedTypes.filterM fun deviceType => env.findKernelRegistration deviceType node
  else .ok prioritizedTypes

structure Member where
  parent : Int := -1
  idsInGroup : Finset Int := ∅
  opType : String := ""
  rank : Nat := 0
  supportedDeviceTypes : List String := []
  deviceName : ParsedName := {}
deriving DecidableEq

/-- `InitializeMember`: the new member, or the status of the failure. -/
def initializeMember (env : Env) (node : Node) : Except Status Member :=
  if node.id < 0 then
    .error (Errors.invalidArgument ("Node id was not positive: " ++ toString node.id))
  else
    match supportedDeviceTypesForNode env node with
    | .error s => .error s
    | .ok supported =>
      let member : Member :=
        { parent := node.id, idsInGroup := {node.id}, opType := node.typeString,
          supportedDeviceTypes := supported }
      if node.assignedDeviceName ≠ "" then
        match parseFullName node.assignedDeviceName.toList with
        | none =>
          .error (.error .internal ("Malformed assigned device '" ++
            node.assignedDeviceName ++ "'"))
        | some deviceName =>
          match env.devices.find? (·.name = node.assignedDeviceName) with
          | none =>
            .error (.error .internal ("Assigned device '" ++ node.assignedDeviceName ++
              "' does not match any device"))
          | some device =>
            if supported.contains device.deviceType then
              .ok { member with deviceName := deviceName }
            else
              .error (.error .internal ("Assigned device '" ++ node.assignedDeviceName ++
                "' does not have registered OpKernel support for " ++ node.op))
      else if supported.isEmpty then
        let registered := (env.devices.map (·.deviceType)).toFinset.sort (· ≤ ·)
        .error (Errors.invalidArgument ("No OpKernel was registered to support Op '" ++ node.op ++
          "' with these attrs.  Registered devices: [" ++ ",".intercalate registered ++
          "], Registered kernels:\n" ++ env.kernelsRegisteredForOp node.op))
      else if node.device ≠ "" then
        match parseFullName node.device.toList with
        | none =>
          .error (Errors.invalidArgument ("Malformed device specification '" ++ node.device ++ "'"))
        | some deviceName => .ok { member with deviceName := deviceName }
      else .ok member

/-- `members_[id]`; there is no member outside of the vector. -/
def member? (members : List Member) (id : Int) : Option Member :=
  if id < 0 then none else members[id.toNat]?

def modifyMember (members : List Member) (id : Int) (f : Member → Member) : List Member :=
  if id < 0 then members else members.modify id.toNat f

/-- `FindRoot` within a depth of calls: the root, and the members with shorter paths. There is no
result when the calls go deeper or reach an invalid member. -/
def findRoot : Nat → List Member → Int → Option (Int × List Member)
  | 0, _, _ => none
  | depth + 1, members, nodeId =>
    match member? members nodeId with
    | none => none
    | some member =>
      if member.parent ≠ nodeId then
        match findRoot depth members member.parent with
        | none => none
        | some (root, members) =>
          some (root, modifyMember members nodeId fun m => { m with parent := root })
      else some (member.parent, members)

def mergeSupportedDevices (target other : List String) : List String :=
  target.filter fun deviceType => other.contains deviceType

/-- The entries of `type_to_devices`, in the order of their last assignments. -/
def typeToDevices (members : List Member) (ids : List Int) : List (String × String) :=
  ids.foldl (fun entries id =>
    match member? members id with
    | none => entries
    | some member =>
      entries.filter (·.1 ≠ member.opType) ++
        [(member.opType, String.join (member.supportedDeviceTypes.map (· ++ " ")))]) []

def addDebugInfo (env : Env) (members : List Member) (nodeRoot : Int) : String :=
  match member? members nodeRoot with
  | none => ""
  | some root =>
    if root.idsInGroup.card > 1 then
      "\nColocation Debug Info:\n" ++
        "Colocation group had the following types and devices: " ++
        String.join ((env.hashOrder (typeToDevices members (root.idsInGroup.sort (· ≤ ·)))).map
          fun td => "\n" ++ td.1 ++ ": " ++ td.2)
    else ""

/-- What a call reports when it does not return OK; `undefined` is a read outside of the members
or a `FindRoot` that does not return. -/
inductive Fault where
  | status (status : Status)
  | undefined
deriving DecidableEq

structure Graph where
  members : List Member := []
  colocationGroupRoot : List (String × Node) := []
deriving DecidableEq

/-- The new root, the old one, and the members after the pointer of the smaller tree has moved. -/
def linkRoots (members : List Member) (xRoot yRoot : Int) : Option (Int × Int × List Member) :=
  match member? members xRoot, member? members yRoot with
  | some x, some y =>
    if x.rank < y.rank then
      some (yRoot, xRoot, modifyMember members xRoot fun m => { m with parent := yRoot })
    else if x.rank > y.rank then
      some (xRoot, yRoot, modifyMember members yRoot fun m => { m with parent := xRoot })
    else
      let members := modifyMember members yRoot fun m => { m with parent := xRoot }
      some (xRoot, yRoot, modifyMember members xRoot fun m => { m with rank := m.rank + 1 })
  | _, _ => none

/-- The rest of `ColocateNodes`: the data of the old root goes to the new one. -/
def mergeRoots (env : Env) (x y : Node) (xRoot yRoot newRoot oldRoot : Int)
    (members : List Member) : Except Fault (List Member) :=
  match member? members newRoot, member? members oldRoot with
  | some new, some old =>
    match mergeDevNames new.deviceName old.deviceName env.allowSoftPlacement with
    | .error s =>
      .error (.status (Errors.invalidArgument ("Cannot colocate nodes '" ++ x.name ++ "' and '" ++
        y.name ++ ": " ++ s.errorMessage)))
    | .ok deviceName =>
      let supported := mergeSupportedDevices new.supportedDeviceTypes old.supportedDeviceTypes
      let members := modifyMember members newRoot fun m =>
        { m with
          deviceName := deviceName
          idsInGroup := m.idsInGroup ∪ old.idsInGroup
          supportedDeviceTypes := supported }
      let members := modifyMember members oldRoot fun m => { m with idsInGroup := ∅ }
      if supported.isEmpty then
        .error (.status (Errors.invalidArgument ("Cannot colocate nodes '" ++ x.name ++ "' and '" ++
          y.name ++ "' because no device type supports both of those nodes and the other nodes " ++
          "colocated with them." ++ addDebugInfo env members xRoot ++
          addDebugInfo env members yRoot)))
      else .ok members
  | _, _ => .error .undefined

/-- A call of `FindRoot`; a chain of parents without a cycle is not longer than the vector. -/
def callFindRoot (members : List Member) (nodeId : Int) : Except Fault (Int × List Member) :=
  match findRoot members.length members nodeId with
  | some found => .ok found
  | none => .error .undefined

def colocateNodes (env : Env) (x y : Node) (g : Graph) : Except Fault Graph := do
  let (xRoot, members) ← callFindRoot g.members x.id
  let (yRoot, members) ← callFindRoot members y.id
  if xRoot ≠ yRoot then
    match linkRoots members xRoot yRoot with
    | none => throw .undefined
    | some (newRoot, oldRoot, members) =>
      let members ← mergeRoots env x y xRoot yRoot newRoot oldRoot members
      return { g with members := members }
  else return { g with members := members }

/-- The loop of `AddNode` over the colocation groups of the node. -/
def joinGroups (env : Env) (node : Node) : List String → Graph → Except Fault Graph
  | [], g => .ok g
  | group :: groups, g =>
    match g.colocationGroupRoot.lookup group with
    | none =>
      joinGroups env node groups
        { g with colocationGroupRoot := (group, node) :: g.colocationGroupRoot }
    | some first =>
      match colocateNodes env node first g with
      | .error e => .error e
      | .ok g => joinGroups env node groups g

def resize (members : List Member) (size : Nat) : List Member :=
  members.take size ++ List.replicate (size - members.length) ({} : Member)

def addNode (env : Env) (node : Node) (g : Graph) : Except Fault Graph :=
  match initializeMember env node with
  | .error s => .error (.status s)
  | .ok member =>
    let index := member.parent.toNat
    joinGroups env node (colocationGroups node)
      { g with members := (resize g.members (index + 1)).set index member }

/-- `DeviceForNode`: the device name, and the graph with shorter paths. -/
def deviceForNode (node : Node) (g : Graph) : Except Fault (ParsedName × Graph) := do
  let (root, members) ← callFindRoot g.members node.id
  match member? members root with
  | none => throw .undefined
  | some member => return (member.deviceName, { g with members := members })

inductive Call where
  | addNode (node : Node)
  | colocateNodes (x y : Node)
  | deviceForNode (node : Node)

def call (env : Env) (g : Graph) : Call → Except Fault Graph
  | .addNode node => addNode env node g
  | .colocateNodes x y => colocateNodes env x y g
  | .deviceForNode node => (deviceForNode node g).map (·.2)

def run (env : Env) (calls : List Call) : Except Fault Graph := calls.foldlM (call env) {}

open DisjointForest List Option Nat Function

theorem member?_modifyMember (members : List Member) (i j : Int) (f : Member → Member) :
    member? (modifyMember members i f) j =
      if j = i then (member? members j).map f else member? members j := by
  rw [modifyMember]
  split
  · next hi =>
    split
    · next hEq => rw [hEq, member?, if_pos hi, map_none]
    · rfl
  · next hi =>
    rw [member?, member?]
    split
    · split <;> rfl
    · next hj =>
      rw [getElem?_modify]
      have hIndex : i.toNat = j.toNat ↔ j = i := by omega
      split
      · next hEq =>
        rw [if_pos (hIndex.mp hEq)]
        rfl
      · next hNe =>
        rw [if_neg (mt hIndex.mpr hNe)]
        exact id_map _

def added? (members : List Member) (id : Int) : Option Member :=
  (member? members id).filter fun m => 0 ≤ m.parent

variable {members : List Member} {m : Member} {i : Int} {f : Member → Member}

theorem added?_eq_some {id : Int} :
    added? members id = some m ↔ member? members id = some m ∧ 0 ≤ m.parent := by
  rw [added?, filter_eq_some_iff, decide_eq_true_iff]

theorem nonneg_of_added {id : Int} (h : added? members id = some m) : 0 ≤ id := by
  by_contra hNeg
  rw [added?_eq_some, member?, if_pos (not_le.mp hNeg)] at h
  exact nomatch h.1

theorem added?_modifyMember {j : Int} (hf : ∀ m, added? members i = some m → 0 ≤ (f m).parent)
    (hi : ∃ m, added? members i = some m) :
    added? (modifyMember members i f) j =
      if j = i then (added? members j).map f else added? members j := by
  rw [added?, member?_modifyMember]
  split
  · next hEq =>
    obtain ⟨m, hm⟩ := hi
    rw [hEq, hm, (added?_eq_some.mp hm).1]
    simpa using hf m hm
  · rfl

theorem added?_modifyData {j : Int} (hf : ∀ m, (f m).parent = m.parent) :
    added? (modifyMember members i f) j =
      if j = i then (added? members j).map f else added? members j := by
  rw [added?, member?_modifyMember]
  split
  · rw [added?]
    cases member? members j with
    | none => rfl
    | some m =>
      rw [map_some, filter_some, filter_some, hf]
      split <;> rfl
  · rfl

def parentOf (members : List Member) (id : Int) : Int :=
  match added? members id with
  | some m => m.parent
  | none => id

def rankOf (members : List Member) (id : Int) : Nat :=
  match added? members id with
  | some m => m.rank
  | none => 0

/-- The trees of the members; `root` gives the root of each. -/
structure Forest (members : List Member) (root : Int → Int) : Prop where
  closed : ∀ i m, added? members i = some m → ∃ p, added? members m.parent = some p
  roots : ∀ i, RootOf (parentOf members) i (root i)
  ranked : Ranked (parentOf members) (rankOf members)

def Member.data (m : Member) : Member := { m with parent := 0, rank := 0 }

def SameData (members members' : List Member) : Prop :=
  ∀ i, (added? members' i).map Member.data = (added? members i).map Member.data

theorem SameData.added {members' : List Member} (h : SameData members members') (i : Int) :
    (∃ m, added? members' i = some m) ↔ ∃ m, added? members i = some m := by
  have hSome := congrArg isSome (h i)
  rw [isSome_map, isSome_map] at hSome
  rw [← isSome_iff_exists, ← isSome_iff_exists, hSome]

theorem SameData.of_modify (hi : added? members i = some m) (hData : (f m).data = m.data)
    (hf : 0 ≤ (f m).parent) : SameData members (modifyMember members i f) := by
  intro j
  have hNonneg : ∀ m', added? members i = some m' → 0 ≤ (f m').parent := by
    rintro m' hm'
    rw [hi] at hm'
    exact some.inj hm' ▸ hf
  rw [added?_modifyMember hNonneg ⟨m, hi⟩]
  split
  · next hEq => rw [hEq, hi, map_some, map_some, map_some, hData]
  · rfl

def SameTree (members members' : List Member) : Prop :=
  ∀ i, (added? members' i).map (fun m => (m.parent, m.rank)) =
    (added? members i).map fun m => (m.parent, m.rank)

theorem SameTree.of_modify (members : List Member) (i : Int)
    (hParent : ∀ m, (f m).parent = m.parent) (hRank : ∀ m, (f m).rank = m.rank) :
    SameTree members (modifyMember members i f) := by
  intro j
  rw [added?_modifyData hParent]
  split
  · rw [Option.map_map]
    congr 1
    funext m
    rw [comp_apply, hParent, hRank]
  · rfl

theorem SameTree.trans {a b c : List Member} (h : SameTree a b) (h' : SameTree b c) :
    SameTree a c := fun i => (h' i).trans (h i)

theorem parentOf_eq (h : added? members i = some m) : parentOf members i = m.parent := by
  rw [parentOf, h]

theorem rankOf_eq (h : added? members i = some m) : rankOf members i = m.rank := by
  rw [rankOf, h]

section SetParent

variable {members : List Member} {i p : Int} {m : Member} (hi : added? members i = some m)
  (hp : 0 ≤ p)

include hi hp

theorem added?_setParent (j : Int) :
    added? (modifyMember members i fun m => { m with parent := p }) j =
      if j = i then some { m with parent := p } else added? members j := by
  rw [added?_modifyMember (fun _ _ => hp) ⟨m, hi⟩]
  split
  · next hEq => rw [hEq, hi, map_some]
  · rfl

theorem parentOf_setParent :
    parentOf (modifyMember members i fun m => { m with parent := p }) =
      update (parentOf members) i p := by
  funext j
  rw [parentOf, added?_setParent hi hp]
  rcases eq_or_ne j i with rfl | hNe
  · rw [if_pos rfl, update_self]
  · rw [if_neg hNe, update_of_ne hNe, parentOf]

theorem rankOf_setParent :
    rankOf (modifyMember members i fun m => { m with parent := p }) = rankOf members := by
  funext j
  rw [rankOf, added?_setParent hi hp]
  rcases eq_or_ne j i with rfl | hNe
  · rw [if_pos rfl, rankOf_eq hi]
  · rw [if_neg hNe, rankOf]

theorem closed_setParent (hClosed : ∀ i m, added? members i = some m →
      ∃ p, added? members m.parent = some p) (hTo : ∃ m, added? members p = some m) :
    ∀ j n, added? (modifyMember members i fun m => { m with parent := p }) j = some n →
      ∃ q, added? (modifyMember members i fun m => { m with parent := p }) n.parent = some q := by
  have hSame := SameData.of_modify (f := fun m => { m with parent := p }) hi rfl hp
  intro j n hn
  rw [hSame.added]
  rw [added?_setParent hi hp] at hn
  split at hn
  · rw [← some.inj hn]
    exact hTo
  · exact hClosed j n hn

end SetParent

namespace Forest

variable {members : List Member} {root : Int → Int}

theorem root_root (h : Forest members root) (i : Int) : root (root i) = root i :=
  (h.roots (root i)).eq_of_root (h.roots i).isRoot

variable {i : Int} {members' members : List Member} {m : Member} {depth : Nat}

theorem added_root (h : Forest members root) (hi : ∃ m, added? members i = some m) :
    ∃ m, added? members (root i) = some m := by
  have hRoot := h.roots i
  generalize root i = r at hRoot
  induction hRoot with
  | here => exact hi
  | @above x r _ _ ih =>
    obtain ⟨m, hm⟩ := hi
    exact ih (parentOf_eq hm ▸ h.closed x m hm)

theorem of_sameTree (h : Forest members root)
    (hSame : SameTree members members') : Forest members' root := by
  have hMember {i : Int} {m' : Member} (hm' : added? members' i = some m') :
      ∃ m, added? members i = some m ∧ m.parent = m'.parent ∧ m.rank = m'.rank := by
    have hi := hSame i
    rw [hm'] at hi
    obtain ⟨m, hm, hEq⟩ := map_eq_some_iff.mp hi.symm
    exact ⟨m, hm, (Prod.mk.inj hEq).1, (Prod.mk.inj hEq).2⟩
  have hNone {i : Int} (hi : added? members' i = none) : added? members i = none := by
    have hEq := hSame i
    rw [hi] at hEq
    exact map_eq_none_iff.mp hEq.symm
  have hParent : parentOf members' = parentOf members := by
    funext i
    cases hi : added? members' i with
    | none => rw [parentOf, hi, parentOf, hNone hi]
    | some m' =>
      obtain ⟨m, hm, hEq, _⟩ := hMember hi
      rw [parentOf_eq hi, parentOf_eq hm, hEq]
  have hRank : rankOf members' = rankOf members := by
    funext i
    cases hi : added? members' i with
    | none => rw [rankOf, hi, rankOf, hNone hi]
    | some m' =>
      obtain ⟨m, hm, _, hEq⟩ := hMember hi
      rw [rankOf_eq hi, rankOf_eq hm, hEq]
  refine ⟨fun i m' hm' => ?_, ?_, ?_⟩
  · obtain ⟨m, hm, hEq, _⟩ := hMember hm'
    obtain ⟨p, hp⟩ := h.closed i m hm
    rw [hEq] at hp
    cases hp' : added? members' m'.parent with
    | none => exact nomatch (hNone hp').symm.trans hp
    | some p' => exact ⟨p', rfl⟩
  · rw [hParent]
    exact h.roots
  · rw [hParent, hRank]
    exact h.ranked

theorem shorten (h : Forest members root) (hi : added? members i = some m) :
    Forest (modifyMember members i fun m => { m with parent := root i }) root := by
  obtain ⟨r, hr⟩ := h.added_root ⟨m, hi⟩
  have hp := nonneg_of_added hr
  refine ⟨closed_setParent hi hp h.closed ⟨r, hr⟩, fun j => ?_, ?_⟩
  · rw [parentOf_setParent hi hp]
    exact (h.roots i).compress (h.roots j)
  · rw [parentOf_setParent hi hp, rankOf_setParent hi hp]
    exact h.ranked.compress (h.roots i)

def above (members : List Member) (rank : Nat) : Nat := members.countP fun m => rank < m.rank

theorem countP_lt {α : Type} {p q : α → Bool} (hSub : ∀ a, p a → q a) {l : List α}
    {a : α} (ha : a ∈ l) (hp : p a = false) (hq : q a) : l.countP p < l.countP q := by
  induction l with
  | nil => exact nomatch ha
  | cons b l ih =>
    rw [countP_cons, countP_cons]
    rcases mem_cons.mp ha with rfl | hMem
    · have hLe := countP_mono_left (l := l) fun x _ => hSub x
      rw [hp, hq]
      simpa using lt_succ_of_le hLe
    · refine add_lt_add_of_lt_of_le (ih hMem) ?_
      split
      · next hb => rw [if_pos (hSub b hb)]
      · exact zero_le _

theorem mem_of_member (h : member? members i = some m) : m ∈ members := by
  rw [member?] at h
  split at h
  · exact nomatch h
  · exact mem_of_getElem? h

theorem above_lt (hi : member? members i = some m)
    {rank : Nat} (h : rank < m.rank) : above members m.rank < above members rank :=
  countP_lt (fun _ hm => decide_eq_true (h.trans (of_decide_eq_true hm))) (mem_of_member hi)
    (decide_eq_false (lt_irrefl _)) (decide_eq_true h)

theorem above_length (hi : member? members i = some m) : above members m.rank < members.length := by
  rw [← congrFun countP_true members]
  exact countP_lt (fun _ _ => rfl) (mem_of_member hi) (decide_eq_false (lt_irrefl _)) rfl

theorem findRoot_here (h : member? members i = some m) (hRoot : m.parent = i) :
    findRoot (depth + 1) members i = some (i, members) := by
  simp only [findRoot, h, hRoot, ne_eq, not_true_eq_false, if_false]

theorem findRoot_above {r : Int} (h : member? members i = some m) (hNot : m.parent ≠ i)
    (hFind : findRoot depth members m.parent = some (r, members')) :
    findRoot (depth + 1) members i =
      some (r, modifyMember members' i fun m => { m with parent := r }) := by
  simp only [findRoot, h, hNot, hFind, ne_eq, not_false_eq_true, if_true]

theorem findRoot (h : Forest members root) : ∀ {i : Int} {m : Member},
    added? members i = some m → above members m.rank < depth →
      ∃ members', findRoot depth members i = some (root i, members') ∧
        members'.length = members.length ∧ Forest members' root ∧ SameData members members' := by
  induction depth with
  | zero => exact fun _ hDepth => absurd hDepth (not_lt_zero _)
  | succ depth ih =>
    intro i m hi hDepth
    have hMember := (added?_eq_some.mp hi).1
    rcases eq_or_ne m.parent i with hRoot | hNot
    · refine ⟨members, ?_, rfl, h, fun _ => rfl⟩
      rw [findRoot_here hMember hRoot, (h.roots i).eq_of_root ((parentOf_eq hi).trans hRoot)]
    · obtain ⟨p, hp⟩ := h.closed i m hi
      have hRise := h.ranked i ((parentOf_eq hi).symm ▸ hNot)
      rw [parentOf_eq hi, rankOf_eq hi, rankOf_eq hp] at hRise
      obtain ⟨members', hFind, hLength, h', hSame⟩ :=
        ih hp (lt_of_lt_of_le (above_lt (added?_eq_some.mp hp).1 hRise)
          (Nat.lt_succ_iff.mp hDepth))
      have hTo : root m.parent = root i := by
        rw [← parentOf_eq hi]
        exact (h.roots _).unique (h.roots i).of_parent
      obtain ⟨m', hi'⟩ := (hSame.added i).mpr ⟨m, hi⟩
      obtain ⟨r, hr⟩ := h'.added_root ⟨m', hi'⟩
      rw [hTo] at hFind
      refine ⟨_, findRoot_above hMember hNot hFind, ?_, h'.shorten hi', fun j => ?_⟩
      · rw [modifyMember]
        split
        · exact hLength
        · rw [length_modify, hLength]
      · rw [SameData.of_modify (f := fun m => { m with parent := root i }) hi' rfl
          (nonneg_of_added hr) j, hSame j]

theorem findRoot_mono {depth' : Nat} (hLe : depth ≤ depth') :
    ∀ {members : List Member} {i : Int} {found : Int × List Member},
      ColocationGraph.findRoot depth members i = some found →
      ColocationGraph.findRoot depth' members i = some found := by
  induction depth generalizing depth' with
  | zero => exact fun h => nomatch h
  | succ depth ih =>
    intro members i found h
    obtain ⟨depth', rfl⟩ := exists_eq_succ_of_ne_zero (ne_zero_of_lt hLe)
    rw [ColocationGraph.findRoot] at h
    split at h
    · exact nomatch h
    · next m hm =>
      split at h
      · next hNot =>
        split at h
        · exact nomatch h
        · next r members₁ hFind =>
          rw [← some.inj h]
          exact findRoot_above hm hNot (ih (le_of_succ_le_succ hLe) hFind)
      · next hHere =>
        rw [← some.inj h, not_not.mp hHere]
        exact findRoot_here hm (not_not.mp hHere)

theorem added_of_findRoot {r : Int}
    (h : ColocationGraph.findRoot depth members i = some (r, members')) :
    ∃ m, added? members i = some m := by
  cases depth with
  | zero => exact nomatch h
  | succ depth =>
    rw [ColocationGraph.findRoot] at h
    split at h
    · exact nomatch h
    · next m hm =>
      refine ⟨m, added?_eq_some.mpr ⟨hm, ?_⟩⟩
      by_contra hNeg
      have hNone : member? members m.parent = none := if_pos (not_le.mp hNeg)
      split at h
      · cases depth with
        | zero => exact nomatch h
        | succ depth =>
          rw [ColocationGraph.findRoot, hNone] at h
          exact nomatch h
      · next hEq =>
        rw [← not_not.mp hEq, hNone] at hm
        exact nomatch hm

theorem hang (h : Forest members root) {old new : Int} (hOld : root old = old)
    (hNew : root new = new) (hNe : old ≠ new)
    (hParent : parentOf members' = update (parentOf members) old new)
    (hClosed : ∀ i m, added? members' i = some m → ∃ p, added? members' m.parent = some p)
    (hSame : ∀ i, i ≠ new → rankOf members' i = rankOf members i)
    (hGrows : rankOf members new ≤ rankOf members' new)
    (hLess : rankOf members old < rankOf members' new) :
    Forest members' fun i => if root i = old then new else root i := by
  have hOldRoot : parentOf members old = old := by
    have hTop := (h.roots old).isRoot
    rwa [hOld] at hTop
  have hNewRoot : parentOf members new = new := by
    have hTop := (h.roots new).isRoot
    rwa [hNew] at hTop
  refine ⟨hClosed, fun i => ?_, ?_⟩
  · rw [hParent]
    exact (h.roots i).link hOldRoot hNewRoot hNe
  · rw [hParent]
    exact h.ranked.link hNewRoot hSame hGrows hLess hNe

section Bump

variable {i : Int} {m : Member} (hi : added? members i = some m)

include hi

theorem added?_bump (j : Int) :
    added? (modifyMember members i fun m => { m with rank := m.rank + 1 }) j =
      if j = i then some { m with rank := m.rank + 1 } else added? members j := by
  rw [added?_modifyMember (f := fun m => { m with rank := m.rank + 1 })
    (fun _ hm => (added?_eq_some.mp hm).2) ⟨m, hi⟩]
  split
  · next hEq => rw [hEq, hi, map_some]
  · rfl

theorem parentOf_bump :
    parentOf (modifyMember members i fun m => { m with rank := m.rank + 1 }) =
      parentOf members := by
  funext j
  rw [parentOf, added?_bump hi]
  rcases eq_or_ne j i with rfl | hNe
  · rw [if_pos rfl, parentOf_eq hi]
  · rw [if_neg hNe, parentOf]

theorem rankOf_bump (j : Int) :
    rankOf (modifyMember members i fun m => { m with rank := m.rank + 1 }) j =
      if j = i then m.rank + 1 else rankOf members j := by
  rw [rankOf, added?_bump hi]
  rcases eq_or_ne j i with rfl | hNe
  · rw [if_pos rfl, if_pos rfl]
  · rw [if_neg hNe, if_neg hNe, rankOf]

theorem closed_bump (hClosed : ∀ i m, added? members i = some m →
      ∃ p, added? members m.parent = some p) :
    ∀ j n, added? (modifyMember members i fun m => { m with rank := m.rank + 1 }) j = some n →
      ∃ q, added? (modifyMember members i fun m => { m with rank := m.rank + 1 }) n.parent =
        some q := by
  have hSame := SameData.of_modify (f := fun m => { m with rank := m.rank + 1 }) hi rfl
    (added?_eq_some.mp hi).2
  intro j n hn
  rw [hSame.added]
  rw [added?_bump hi] at hn
  split at hn
  · rw [← some.inj hn]
    exact hClosed i m hi
  · exact hClosed j n hn

end Bump

theorem linkRoots (h : Forest members root) {x y : Int} {mx my : Member}
    (hx : added? members x = some mx) (hy : added? members y = some my) (hxRoot : root x = x)
    (hyRoot : root y = y) (hNe : x ≠ y) :
    ∃ new old members', ColocationGraph.linkRoots members x y = some (new, old, members') ∧
      (new = x ∧ old = y ∨ new = y ∧ old = x) ∧ SameData members members' ∧
      Forest members' fun i => if root i = old then new else root i := by
  have hx' := (added?_eq_some.mp hx).1
  have hy' := (added?_eq_some.mp hy).1
  have hxn := nonneg_of_added hx
  have hyn := nonneg_of_added hy
  rcases lt_trichotomy mx.rank my.rank with hLt | hEq | hGt
  · refine ⟨y, x, _, ?_, Or.inr ⟨rfl, rfl⟩, .of_modify hx rfl hyn,
      h.hang hxRoot hyRoot hNe (parentOf_setParent hx hyn)
        (closed_setParent hx hyn h.closed ⟨my, hy⟩) (fun i _ => ?_) ?_ ?_⟩
    · simp only [ColocationGraph.linkRoots, hx', hy', hLt, if_true]
    all_goals rw [rankOf_setParent hx hyn]
    rw [rankOf_eq hx, rankOf_eq hy]
    exact hLt
  · have hx₁ := added?_setParent hy hxn x
    rw [if_neg hNe, hx] at hx₁
    refine ⟨x, y, _, ?_, Or.inl ⟨rfl, rfl⟩, fun i => ?_, h.hang hyRoot hxRoot hNe.symm ?_
      (closed_bump hx₁ (closed_setParent hy hxn h.closed ⟨mx, hx⟩)) (fun i hi => ?_) ?_ ?_⟩
    · simp only [ColocationGraph.linkRoots, hx', hy', hEq, lt_irrefl, if_false]
    · rw [SameData.of_modify (f := fun m => { m with rank := m.rank + 1 }) hx₁ rfl
        (added?_eq_some.mp hx).2 i]
      exact SameData.of_modify hy rfl hxn i
    · rw [parentOf_bump hx₁, parentOf_setParent hy hxn]
    · rw [rankOf_bump hx₁, if_neg hi, rankOf_setParent hy hxn]
    · rw [rankOf_bump hx₁, if_pos rfl, rankOf_eq hx]
      exact le_succ _
    · rw [rankOf_bump hx₁, if_pos rfl, rankOf_eq hy, hEq]
      exact lt_succ_self _
  · refine ⟨x, y, _, ?_, Or.inl ⟨rfl, rfl⟩, .of_modify hy rfl hxn,
      h.hang hyRoot hxRoot hNe.symm (parentOf_setParent hy hxn)
        (closed_setParent hy hxn h.closed ⟨mx, hx⟩) (fun i _ => ?_) ?_ ?_⟩
    · simp only [ColocationGraph.linkRoots, hx', hy', hGt, lt_asymm hGt, if_true, if_false]
    all_goals rw [rankOf_setParent hy hxn]
    rw [rankOf_eq hx, rankOf_eq hy]
    exact hGt

end Forest

end TensorFlowOnSpark.ColocationGraph
