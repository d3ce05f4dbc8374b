import TensorFlowOnSpark.CommonRuntime.ColocationGraph
import TensorFlowOnSpark.Lib.Fallible

/-!
# The classes of a colocation graph

The root of a class holds what all of its nodes have in common: their ids, the device types that
each of them supports, and a device name that specialises each of theirs.
-/

namespace TensorFlowOnSpark.ColocationGraph

open Relation DisjointForest Util.DeviceNameUtils Option List

def supports (env : Env) (node : Node) (deviceType : String) : Bool :=
  match initializeMember env node with
  | .ok own => own.supportedDeviceTypes.contains deviceType
  | .error _ => false

def classOf (nodes : List Node) (root : Int → Int) (r : Int) : List Node :=
  nodes.filter fun y => root y.id = r

structure Represents (env : Env) (nodes : List Node) (root : Int → Int) (z : Node) (m : Member) :
    Prop where
  ids : ∀ i, i ∈ m.idsInGroup ↔ ∃ y ∈ classOf nodes root z.id, y.id = i
  types : ∃ own, initializeMember env z = .ok own ∧ m.supportedDeviceTypes =
    own.supportedDeviceTypes.filter fun t => (classOf nodes root z.id).all fun y => supports env y t
  deviceName : env.allowSoftPlacement = false → ∀ y ∈ classOf nodes root z.id,
    ∃ own, initializeMember env y = .ok own ∧ isSpecification own.deviceName m.deviceName

/-- The state after the nodes have been added and the pairs of `R` have been colocated. -/
structure Holds (env : Env) (nodes : List Node) (R : Int → Int → Prop) (members : List Member)
    (root : Int → Int) : Prop where
  inj : ∀ x ∈ nodes, ∀ y ∈ nodes, x.id = y.id → x = y
  forest : Forest members root
  added : ∀ i, (∃ m, added? members i = some m) ↔ ∃ x ∈ nodes, x.id = i
  names : Names R root
  represents : ∀ z ∈ nodes, root z.id = z.id → ∀ m, added? members z.id = some m →
    Represents env nodes root z m

theorem mem_classOf {nodes : List Node} {root : Int → Int} {r : Int} {y : Node} :
    y ∈ classOf nodes root r ↔ y ∈ nodes ∧ root y.id = r := by
  rw [classOf, mem_filter, decide_eq_true_iff]

variable {env : Env} {nodes : List Node} {R : Int → Int → Prop} {members : List Member}
  {root : Int → Int}

theorem Represents.congr {z : Node} {m m' : Member} (h : Represents env nodes root z m)
    (hData : m'.data = m.data) : Represents env nodes root z m' := by
  have hIds := congrArg Member.idsInGroup hData
  have hTypes := congrArg Member.supportedDeviceTypes hData
  have hName := congrArg Member.deviceName hData
  change m'.idsInGroup = m.idsInGroup at hIds
  change m'.supportedDeviceTypes = m.supportedDeviceTypes at hTypes
  change m'.deviceName = m.deviceName at hName
  refine ⟨?_, ?_, ?_⟩
  · rw [hIds]
    exact h.ids
  · rw [hTypes]
    exact h.types
  · rw [hName]
    exact h.deviceName

theorem Holds.congr (h : Holds env nodes R members root) {members' : List Member}
    (hForest : Forest members' root) (hSame : SameData members members') :
    Holds env nodes R members' root where
  inj := h.inj
  forest := hForest
  added i := (hSame.added i).trans (h.added i)
  names := h.names
  represents z hz hRoot m' hm' := by
    obtain ⟨m, hm⟩ := (hSame.added z.id).mp ⟨m', hm'⟩
    have hData := hSame z.id
    rw [hm, hm'] at hData
    exact (h.represents z hz hRoot m hm).congr (some.inj hData)

/-- The roots after the class of `w` has become part of the class of `z`. -/
def moved (root : Int → Int) (w z : Int) (i : Int) : Int := if root i = w then z else root i

section Merge

variable {z w : Node} {old new : Member}

theorem mem_classOf_joined {y : Node} (hNe : w.id ≠ z.id) :
    y ∈ classOf nodes (moved root w.id z.id) z.id ↔
      y ∈ classOf nodes root z.id ∨ y ∈ classOf nodes root w.id := by
  rw [mem_classOf, mem_classOf, mem_classOf, moved]
  split
  · next hw => simp [hw, hNe]
  · next hw => simp [hw]

theorem classOf_moved {r : Int} (hz : r ≠ z.id) (hw : r ≠ w.id) :
    classOf nodes (moved root w.id z.id) r = classOf nodes root r := by
  refine filter_congr fun y _ => decide_eq_decide.mpr ?_
  rw [moved]
  split
  · next hy => exact ⟨fun hEq => absurd hEq.symm hz, fun hEq => absurd (hEq.symm.trans hy) hw⟩
  · exact Iff.rfl

theorem mergeSupportedDevices_all {own ownOld : Member} (hNe : w.id ≠ z.id)
    (hw : w ∈ classOf nodes root w.id) (hOwnOld : initializeMember env w = .ok ownOld) :
    mergeSupportedDevices
        (own.supportedDeviceTypes.filter fun t =>
          (classOf nodes root z.id).all fun y => supports env y t)
        (ownOld.supportedDeviceTypes.filter fun t =>
          (classOf nodes root w.id).all fun y => supports env y t) =
      own.supportedDeviceTypes.filter fun t =>
        (classOf nodes (moved root w.id z.id) z.id).all fun y => supports env y t := by
  rw [mergeSupportedDevices, List.filter_filter]
  refine filter_congr fun t _ => ?_
  rw [Bool.eq_iff_iff, Bool.and_eq_true, contains_iff_mem, mem_filter, List.all_eq_true,
    List.all_eq_true, List.all_eq_true]
  constructor
  · rintro ⟨⟨_, hOld⟩, hNew⟩ y hy
    exact ((mem_classOf_joined hNe).mp hy).elim (hNew y) (hOld y)
  · intro hAll
    have hOwn := hAll w ((mem_classOf_joined hNe).mpr (Or.inr hw))
    simp only [supports, hOwnOld, contains_iff_mem] at hOwn
    exact ⟨⟨hOwn, fun y hy => hAll y ((mem_classOf_joined hNe).mpr (Or.inr hy))⟩,
      fun y hy => hAll y ((mem_classOf_joined hNe).mpr (Or.inl hy))⟩

theorem Represents.merge (hz : Represents env nodes root z new)
    (hw : Represents env nodes root w old) (hNe : w.id ≠ z.id)
    (hMem : w ∈ classOf nodes root w.id) {deviceName : ParsedName}
    (hName : mergeDevNames new.deviceName old.deviceName env.allowSoftPlacement = .ok deviceName) :
    Represents env nodes (moved root w.id z.id) z
      { new with
        deviceName := deviceName
        idsInGroup := new.idsInGroup ∪ old.idsInGroup
        supportedDeviceTypes :=
          mergeSupportedDevices new.supportedDeviceTypes old.supportedDeviceTypes } where
  ids i := by
    rw [Finset.mem_union, hz.ids, hw.ids]
    constructor
    · rintro (⟨y, hy, rfl⟩ | ⟨y, hy, rfl⟩)
      · exact ⟨y, (mem_classOf_joined hNe).mpr (Or.inl hy), rfl⟩
      · exact ⟨y, (mem_classOf_joined hNe).mpr (Or.inr hy), rfl⟩
    · rintro ⟨y, hy, rfl⟩
      exact ((mem_classOf_joined hNe).mp hy).imp (fun hy => ⟨y, hy, rfl⟩) fun hy => ⟨y, hy, rfl⟩
  types := by
    obtain ⟨own, hOwn, hTypes⟩ := hz.types
    obtain ⟨ownOld, hOwnOld, hTypesOld⟩ := hw.types
    refine ⟨own, hOwn, ?_⟩
    rw [hTypes, hTypesOld]
    exact mergeSupportedDevices_all hNe hMem hOwnOld
  deviceName hSoft y hy := by
    rw [hSoft] at hName
    obtain ⟨hNew, hOld⟩ := mergeDevNames_specialises hName
    rcases (mem_classOf_joined hNe).mp hy with hy | hy
    · obtain ⟨own, hOwn, hSpec⟩ := hz.deviceName hSoft y hy
      exact ⟨own, hOwn, isSpecification_trans hSpec hNew⟩
    · obtain ⟨own, hOwn, hSpec⟩ := hw.deviceName hSoft y hy
      exact ⟨own, hOwn, isSpecification_trans hSpec hOld⟩

end Merge

variable {z x y : Node} {members' : List Member}

theorem Represents.of_classOf {nodes' : List Node} {root' : Int → Int} {m : Member}
    (h : Represents env nodes root z m)
    (hClass : classOf nodes' root' z.id = classOf nodes root z.id) :
    Represents env nodes' root' z m := by
  refine ⟨?_, ?_, ?_⟩
  · rw [hClass]
    exact h.ids
  · rw [hClass]
    exact h.types
  · rw [hClass]
    exact h.deviceName

structure KeepsPlace (f : Member → Member) : Prop where
  parent : ∀ m, (f m).parent = m.parent
  rank : ∀ m, (f m).rank = m.rank

theorem mergeRoots_ok {xRoot yRoot z w : Int}
    (h : mergeRoots env x y xRoot yRoot z w members = .ok members') :
    ∃ new old deviceName f f', member? members z = some new ∧ member? members w = some old ∧
      mergeDevNames new.deviceName old.deviceName env.allowSoftPlacement = .ok deviceName ∧
      members' = modifyMember (modifyMember members z f) w f' ∧ KeepsPlace f ∧ KeepsPlace f' ∧
      f new =
        { new with
          deviceName := deviceName
          idsInGroup := new.idsInGroup ∪ old.idsInGroup
          supportedDeviceTypes :=
            mergeSupportedDevices new.supportedDeviceTypes old.supportedDeviceTypes } := by
  rw [mergeRoots] at h
  split at h
  · next new old hNew hOld =>
    split at h
    · exact nomatch h
    · next deviceName hName =>
      dsimp only at h
      split at h
      · exact nomatch h
      · exact ⟨new, old, deviceName, _, _, hNew, hOld, hName, (Except.ok.inj h).symm,
          ⟨fun _ => rfl, fun _ => rfl⟩, ⟨fun _ => rfl, fun _ => rfl⟩, rfl⟩
  · exact nomatch h

theorem Holds.member (h : Holds env nodes R members root) (hz : z ∈ nodes) :
    ∃ m, added? members z.id = some m := (h.added z.id).mpr ⟨z, hz, rfl⟩

/-- The class of `w` joins that of `z`. -/
theorem Holds.mergeRoots (h : Holds env nodes R members root) {w : Node} {xRoot yRoot : Int}
    (hz : z ∈ nodes) (hzRoot : root z.id = z.id) (hw : w ∈ nodes) (hwRoot : root w.id = w.id)
    (hNe : w.id ≠ z.id) {linked : List Member} (hSame : SameData members linked)
    (hForest : Forest linked (moved root w.id z.id))
    (hMerge : mergeRoots env x y xRoot yRoot z.id w.id linked = .ok members') :
    Holds env nodes (Adding R w.id z.id) members' (moved root w.id z.id) := by
  obtain ⟨new, old, deviceName, f, f', hNew, hOld, hName, rfl, hf, hf', hJoined⟩ :=
    mergeRoots_ok hMerge
  have hNames := h.names.join w.id z.id
  rw [hwRoot, hzRoot] at hNames
  have hLinked {v : Node} {m : Member} (hv : v ∈ nodes) (hm : member? linked v.id = some m) :
      added? linked v.id = some m := by
    obtain ⟨m', hm'⟩ := (hSame.added v.id).mpr (h.member hv)
    obtain rfl := some.inj (hm.symm.trans (added?_eq_some.mp hm').1)
    exact hm'
  have hOld₀ {v : Node} {m : Member} (hv : v ∈ nodes) (hvRoot : root v.id = v.id)
      (hm : added? linked v.id = some m) : Represents env nodes root v m := by
    obtain ⟨m₀, hm₀⟩ := h.member hv
    have hData := hSame v.id
    rw [hm, hm₀] at hData
    exact (h.represents v hv hvRoot m₀ hm₀).congr (some.inj hData)
  refine ⟨h.inj, hForest.of_sameTree ?_, fun i => ?_, hNames, ?_⟩
  · exact (SameTree.of_modify linked z.id hf.parent hf.rank).trans
      (.of_modify _ w.id hf'.parent hf'.rank)
  · rw [← h.added, ← hSame.added, added?_modifyData hf'.parent, added?_modifyData hf.parent]
    simp only [← isSome_iff_exists]
    split <;> split <;> simp only [isSome_map]
  · intro v hv hvRoot m hm
    have hvw : v.id ≠ w.id := by
      intro hEq
      rw [moved, hEq, if_pos hwRoot] at hvRoot
      exact hNe hvRoot.symm
    rw [added?_modifyData hf'.parent, if_neg hvw, added?_modifyData hf.parent] at hm
    rcases eq_or_ne v.id z.id with hvz | hvz
    · obtain rfl := h.inj v hv z hz hvz
      rw [if_pos rfl, hLinked hz hNew, map_some, hJoined] at hm
      rw [← some.inj hm]
      exact (hOld₀ hz hzRoot (hLinked hz hNew)).merge (hOld₀ hw hwRoot (hLinked hw hOld)) hNe
        (mem_classOf.mpr ⟨hw, hwRoot⟩) hName
    · rw [if_neg hvz] at hm
      have hvOwn : root v.id = v.id := by
        rw [moved] at hvRoot
        split at hvRoot
        · exact absurd hvRoot.symm hvz
        · exact hvRoot
      exact (hOld₀ hv hvOwn hm).of_classOf (classOf_moved hvz hvw)

theorem callFindRoot_ok {i r : Int} (h : callFindRoot members i = .ok (r, members')) :
    findRoot members.length members i = some (r, members') := by
  rw [callFindRoot] at h
  split at h
  · next hFind => rw [hFind, Except.ok.inj h]
  · exact nomatch h

theorem Holds.callFindRoot (h : Holds env nodes R members root) {i r : Int}
    (hCall : callFindRoot members i = .ok (r, members')) :
    (∃ x ∈ nodes, x.id = i) ∧ r = root i ∧ Holds env nodes R members' root := by
  have hFind := callFindRoot_ok hCall
  obtain ⟨m, hm⟩ := Forest.added_of_findRoot hFind
  obtain ⟨members₁, hFound, _, hForest, hSame⟩ :=
    h.forest.findRoot hm (Forest.above_length (added?_eq_some.mp hm).1)
  obtain ⟨rfl, rfl⟩ := Prod.mk.inj (some.inj (hFind.symm.trans hFound))
  exact ⟨(h.added i).mp ⟨m, hm⟩, rfl, h.congr hForest hSame⟩

theorem colocateNodes_ok {g g' : Graph} (h : colocateNodes env x y g = .ok g') :
    ∃ xRoot members₁ yRoot members₂, callFindRoot g.members x.id =
        .ok (xRoot, members₁) ∧
      callFindRoot members₁ y.id = .ok (yRoot, members₂) ∧
      (xRoot = yRoot ∧ g' = { g with members := members₂ } ∨
        xRoot ≠ yRoot ∧ ∃ new old linked members', linkRoots members₂ xRoot yRoot =
            some (new, old, linked) ∧
          mergeRoots env x y xRoot yRoot new old linked = .ok members' ∧
          g' = { g with members := members' }) := by
  obtain ⟨⟨xRoot, members₁⟩, hX, h⟩ := Fallible.bind_eq_ok.mp h
  obtain ⟨⟨yRoot, members₂⟩, hY, h⟩ := Fallible.bind_eq_ok.mp h
  refine ⟨xRoot, members₁, yRoot, members₂, hX, hY, ?_⟩
  dsimp only at h
  split at h
  · next hNe =>
    refine Or.inr ⟨hNe, ?_⟩
    split at h
    · exact nomatch h
    · next new old linked hLink =>
      obtain ⟨members', hMerge, h⟩ := Fallible.bind_eq_ok.mp h
      exact ⟨new, old, linked, members', hLink, hMerge, (Except.ok.inj h).symm⟩
  · next hEq => exact Or.inl ⟨not_not.mp hEq, (Except.ok.inj h).symm⟩

theorem Holds.congr_names (h : Holds env nodes R members root) {R' : Int → Int → Prop}
    (hTo : ∀ x y, R x y → EqvGen R' x y) (hFrom : ∀ x y, R' x y → EqvGen R x y) :
    Holds env nodes R' members root :=
  ⟨h.inj, h.forest, h.added, h.names.congr hTo hFrom, h.represents⟩

theorem Holds.colocateNodes {g g' : Graph} (h : Holds env nodes R g.members root)
    (hCall : colocateNodes env x y g = .ok g') :
    g'.colocationGroupRoot = g.colocationGroupRoot ∧
      ∃ root', Holds env nodes (Adding R x.id y.id) g'.members root' := by
  obtain ⟨xRoot, members₁, yRoot, members₂, hX, hY, hRest⟩ := colocateNodes_ok hCall
  obtain ⟨hxMem, rfl, h₁⟩ := h.callFindRoot hX
  obtain ⟨hyMem, rfl, h₂⟩ := h₁.callFindRoot hY
  rcases hRest with ⟨hEq, rfl⟩ | ⟨hNe, new, old, linked, members', hLink, hMerge, rfl⟩
  · exact ⟨rfl, root, h₂.congr_names (le_adding x.id y.id)
      (adding_le (fun _ _ hR => .rel _ _ hR) ((h.names _ _).mp hEq))⟩
  · refine ⟨rfl, ?_⟩
    have hRoot := h.forest.root_root
    have hxClass : EqvGen R x.id (root x.id) := (h.names _ _).mp (hRoot x.id).symm
    have hyClass : EqvGen R y.id (root y.id) := (h.names _ _).mp (hRoot y.id).symm
    obtain ⟨mx, hmx⟩ := h₂.forest.added_root ((h₂.added x.id).mpr hxMem)
    obtain ⟨my, hmy⟩ := h₂.forest.added_root ((h₂.added y.id).mpr hyMem)
    obtain ⟨x', hx', hxId⟩ := (h₂.added _).mp ⟨mx, hmx⟩
    obtain ⟨y', hy', hyId⟩ := (h₂.added _).mp ⟨my, hmy⟩
    obtain ⟨_, _, _, hLinked, hSides, hSame, hForest⟩ :=
      h₂.forest.linkRoots hmx hmy (hRoot x.id) (hRoot y.id) hNe
    obtain ⟨rfl, rfl, rfl⟩ : _ = new ∧ _ = old ∧ _ = linked := by
      simpa using hLinked.symm.trans hLink
    rcases hSides with ⟨rfl, rfl⟩ | ⟨rfl, rfl⟩
    · rw [← hxId, ← hyId] at hMerge hForest
      have hxOwn : root x'.id = x'.id := by rw [hxId, hRoot]
      have hyOwn : root y'.id = y'.id := by rw [hyId, hRoot]
      have hJoined := h₂.mergeRoots hx' hxOwn hy' hyOwn (by rw [hxId, hyId]; exact hNe.symm) hSame
        hForest hMerge
      rw [hxId, hyId] at hJoined
      exact ⟨_, (hJoined.congr_names (adding_symm _ _) (adding_symm _ _)).congr_names
        (adding_congr (.symm _ _ hxClass) (.symm _ _ hyClass)) (adding_congr hxClass hyClass)⟩
    · rw [← hxId, ← hyId] at hMerge hForest
      have hxOwn : root x'.id = x'.id := by rw [hxId, hRoot]
      have hyOwn : root y'.id = y'.id := by rw [hyId, hRoot]
      have hJoined := h₂.mergeRoots hy' hyOwn hx' hxOwn (by rw [hxId, hyId]; exact hNe) hSame
        hForest hMerge
      rw [hxId, hyId] at hJoined
      exact ⟨_, hJoined.congr_names
        (adding_congr (.symm _ _ hxClass) (.symm _ _ hyClass)) (adding_congr hxClass hyClass)⟩

def Call.added? : Call → Option Node
  | .addNode node => some node
  | _ => none

def addedNodes (calls : List Call) : List Node := calls.filterMap Call.added?

inductive Requested (calls : List Call) : Int → Int → Prop where
  | call {x y : Node} (h : .colocateNodes x y ∈ calls) : Requested calls x.id y.id
  | group {x y : Node} {group : String} (hx : x ∈ addedNodes calls) (hy : y ∈ addedNodes calls)
      (hxGroup : group ∈ colocationGroups x) (hyGroup : group ∈ colocationGroups y) :
      Requested calls x.id y.id

structure GroupRoots (nodes : List Node) (roots : List (String × Node)) : Prop where
  mem : ∀ group first, roots.lookup group = some first →
    first ∈ nodes ∧ group ∈ colocationGroups first
  total : ∀ y ∈ nodes, ∀ group ∈ colocationGroups y, ∃ first, roots.lookup group = some first

variable {member : Member}

theorem initializeMember_ok (h : initializeMember env x = .ok member) :
    0 ≤ x.id ∧ member.parent = x.id ∧ member.rank = 0 ∧ member.idsInGroup = {x.id} := by
  rw [initializeMember] at h
  split at h
  · exact nomatch h
  · next hNeg =>
    refine ⟨not_lt.mp hNeg, ?_⟩
    repeat' split at h
    all_goals first | (rw [← Except.ok.inj h]; exact ⟨rfl, rfl, rfl⟩) | exact nomatch h

theorem getElem?_resize (size i : Nat) :
    (resize members size)[i]? = if i < size then some (members.getD i {}) else none := by
  rw [resize, getElem?_append, length_take, getD_eq_getElem?_getD]
  split
  · next hi =>
    rw [getElem?_take, if_pos (by omega), if_pos (by omega),
      getElem?_eq_getElem (by omega), getD_some]
  · next hi =>
    rw [getElem?_replicate]
    split
    · rw [if_pos (by omega), getElem?_eq_none (by omega), getD_none]
    · rw [if_neg (by omega)]

theorem length_resize (size : Nat) : (resize members size).length = size := by
  rw [resize, length_append, length_take, length_replicate]
  omega

theorem added?_addMember (h : initializeMember env x = .ok member)
    (hLast : ∀ i m, added? members i = some m → i < x.id) (i : Int) :
    added? ((resize members (member.parent.toNat + 1)).set member.parent.toNat member) i =
      if i = x.id then some member else added? members i := by
  obtain ⟨hNonneg, hParent, -, -⟩ := initializeMember_ok h
  have hNone (hi : x.id < i) : added? members i = none :=
    eq_none_iff_forall_not_mem.mpr fun m hm => absurd (hLast i m hm) (not_lt.mpr hi.le)
  rcases lt_trichotomy i x.id with hLt | rfl | hGt
  · rw [if_neg hLt.ne, added?, added?, member?, member?]
    split
    · rfl
    · next hi =>
      rw [getElem?_set_ne (by omega), getElem?_resize, if_pos (by omega)]
      cases hm : members[i.toNat]? with
      | none => rw [getD_eq_getElem?_getD, hm]; rfl
      | some m => rw [getD_eq_getElem?_getD, hm]; rfl
  · rw [if_pos rfl, added?_eq_some, member?, if_neg (not_lt.mpr hNonneg), hParent,
      getElem?_set_self (by rw [length_resize]; exact Nat.lt_succ_self _)]
    exact ⟨rfl, hNonneg⟩
  · rw [if_neg hGt.ne', hNone hGt, added?, member?, if_neg (by omega),
      getElem?_set_ne (by omega), getElem?_resize, if_neg (by omega), filter_none]

theorem Holds.root_of_new (h : Holds env nodes R members root) (hNew : ∀ y ∈ nodes, y.id < x.id) :
    added? members x.id = none ∧ root x.id = x.id := by
  have hNone : added? members x.id = none := by
    refine eq_none_iff_forall_not_mem.mpr fun m hm => ?_
    obtain ⟨y, hy, hEq⟩ := (h.added x.id).mp ⟨m, hm⟩
    exact (hNew y hy).ne hEq
  exact ⟨hNone, (h.forest.roots x.id).eq_of_root (by rw [parentOf, hNone])⟩

theorem Forest.addMember (h : Forest members root) (hNone : added? members x.id = none)
    (hParent : member.parent = x.id) (hRank : member.rank = 0) {members' : List Member}
    (hAdded : ∀ i, added? members' i = if i = x.id then some member else added? members i) :
    Forest members' root := by
  have hParentOf : parentOf members' = parentOf members := by
    funext i
    rw [parentOf, parentOf, hAdded]
    rcases eq_or_ne i x.id with rfl | hNe
    · rw [if_pos rfl, hNone]
      exact hParent
    · rw [if_neg hNe]
  have hRankOf : rankOf members' = rankOf members := by
    funext i
    rw [rankOf, rankOf, hAdded]
    rcases eq_or_ne i x.id with rfl | hNe
    · rw [if_pos rfl, hNone]
      exact hRank
    · rw [if_neg hNe]
  refine ⟨fun i m hm => ?_, ?_, ?_⟩
  · rw [hAdded] at hm ⊢
    split at hm
    · rw [← some.inj hm, if_pos hParent]
      exact ⟨member, rfl⟩
    · obtain ⟨p, hp⟩ := h.closed i m hm
      split
      · exact ⟨member, rfl⟩
      · exact ⟨p, hp⟩
  · rw [hParentOf]
    exact h.roots
  · rw [hParentOf, hRankOf]
    exact h.ranked

/-- A new node is a class of its own. -/
theorem Holds.addMember (h : Holds env nodes R members root) (hNew : ∀ y ∈ nodes, y.id < x.id)
    (hInit : initializeMember env x = .ok member) :
    Holds env (nodes ++ [x]) R
      ((resize members (member.parent.toNat + 1)).set member.parent.toNat member) root := by
  obtain ⟨-, hParent, hRank, hIds⟩ := initializeMember_ok hInit
  obtain ⟨hNone, hRoot⟩ := h.root_of_new hNew
  have hLast (i : Int) (m : Member) (hm : added? members i = some m) : i < x.id := by
    obtain ⟨y, hy, rfl⟩ := (h.added i).mp ⟨m, hm⟩
    exact hNew y hy
  have hAdded := added?_addMember hInit hLast
  have hNotRoot {y : Node} (hy : y ∈ nodes) : root y.id ≠ x.id := by
    obtain ⟨m, hm⟩ := h.forest.added_root (h.member hy)
    rintro hEq
    rw [hEq, hNone] at hm
    exact nomatch hm
  refine ⟨?_, ?_, fun i => ?_, h.names, ?_⟩
  · intro y hy z hz hEq
    rw [mem_append, mem_singleton] at hy hz
    rcases hy with hy | rfl <;> rcases hz with hz | rfl
    · exact h.inj y hy z hz hEq
    · exact absurd hEq (hNew y hy).ne
    · exact absurd hEq.symm (hNew z hz).ne
    · rfl
  · exact h.forest.addMember hNone hParent hRank hAdded
  · rw [hAdded]
    simp only [mem_append, or_and_right, exists_or]
    rw [← h.added]
    split
    · next hEq => simp [hEq]
    · next hNe => simp [Ne.symm hNe]
  · intro z hz hzRoot m hm
    rw [hAdded] at hm
    rcases mem_append.mp hz with hz | hz
    · rw [if_neg (hNew z hz).ne] at hm
      refine (h.represents z hz hzRoot m hm).of_classOf ?_
      rw [classOf, filter_append, filter_singleton, hRoot, decide_eq_false (hNew z hz).ne']
      exact append_nil _
    · obtain rfl := mem_singleton.mp hz
      rw [if_pos rfl] at hm
      rw [← some.inj hm]
      have hClass : classOf (nodes ++ [z]) root z.id = [z] := by
        rw [classOf, filter_append, filter_singleton, hRoot, decide_eq_true rfl,
          filter_eq_nil_iff.mpr fun y hy => by simpa using hNotRoot hy]
        rfl
      refine ⟨fun i => ?_, ⟨member, hInit, ?_⟩, fun _ y hy => ⟨member, ?_, isSpecification_refl _⟩⟩
      · rw [hClass, hIds]
        simp [eq_comm]
      · rw [hClass]
        refine (filter_eq_self.mpr fun t ht => ?_).symm
        simpa [supports, hInit] using ht
      · rw [hClass, mem_singleton] at hy
        rw [hy, hInit]

/-- What the loop of `AddNode` has joined to the node `x`. -/
structure Joined (nodes : List Node) (x : Node) (groups : List String) (R R' : Int → Int → Prop)
    (roots roots' : List (String × Node)) : Prop where
  old : ∀ a b, R a b → R' a b
  new : ∀ a b, R' a b → R a b ∨ ∃ first ∈ nodes, ∃ group ∈ colocationGroups first,
    group ∈ groups ∧ a = x.id ∧ b = first.id
  kept : ∀ group first, roots.lookup group = some first → roots'.lookup group = some first
  mem : ∀ group first, roots'.lookup group = some first →
    first ∈ nodes ∧ group ∈ colocationGroups first
  joined : ∀ group ∈ groups, ∃ first, roots'.lookup group = some first ∧ EqvGen R' x.id first.id

theorem joinGroups_joins (hx : x ∈ nodes) {groups : List String} :
    ∀ {g g' : Graph} {R : Int → Int → Prop}
    {root : Int → Int}, Holds env nodes R g.members root →
    (∀ group first, g.colocationGroupRoot.lookup group = some first →
      first ∈ nodes ∧ group ∈ colocationGroups first) →
    (∀ group ∈ groups, group ∈ colocationGroups x) →
    joinGroups env x groups g = .ok g' →
    ∃ R' root', Holds env nodes R' g'.members root' ∧
      Joined nodes x groups R R' g.colocationGroupRoot g'.colocationGroupRoot := by
  induction groups with
  | nil =>
    intro g g' R root h hMem _ hCall
    obtain rfl := Except.ok.inj hCall
    exact ⟨R, root, h, fun _ _ => id, fun _ _ => Or.inl, fun _ _ => id, hMem, fun _ => nofun⟩
  | cons group groups ih =>
    intro g g' R root h hMem hGroups hCall
    obtain ⟨hGroup, hRest⟩ := forall_mem_cons.mp hGroups
    rw [joinGroups] at hCall
    split at hCall
    · next hLookup =>
      -- `x` is the first node of the group
      obtain ⟨R', root', h', hJoined⟩ := ih (g := { g with
          colocationGroupRoot := (group, x) :: g.colocationGroupRoot }) h
          (fun group' first hFirst => by
        rw [lookup_cons] at hFirst
        split at hFirst
        · next hEq =>
          obtain rfl := eq_of_beq hEq
          exact some.inj hFirst ▸ ⟨hx, hGroup⟩
        · exact hMem group' first hFirst) hRest hCall
      refine ⟨R', root', h', hJoined.old, fun a b hab => ?_, fun group' first hFirst => ?_,
        hJoined.mem, fun group' hMem' => ?_⟩
      · exact (hJoined.new a b hab).imp_right fun ⟨first, hFirst, group', hIn, hMem', hEq⟩ =>
          ⟨first, hFirst, group', hIn, mem_cons_of_mem _ hMem', hEq⟩
      · refine hJoined.kept group' first ?_
        rw [lookup_cons]
        split
        · next hEq =>
          rw [eq_of_beq hEq, hLookup] at hFirst
          exact nomatch hFirst
        · exact hFirst
      · rcases mem_cons.mp hMem' with rfl | hMem'
        · exact ⟨x, hJoined.kept group' x (by rw [lookup_cons_self]), .refl _⟩
        · exact hJoined.joined group' hMem'
    · next first hLookup =>
      split at hCall
      · exact nomatch hCall
      · next g₁ hColocate =>
        obtain ⟨hSame, root₁, h₁⟩ := h.colocateNodes hColocate
        obtain ⟨hFirst, hFirstGroup⟩ := hMem group first hLookup
        obtain ⟨R', root', h', hJoined⟩ := ih h₁ (hSame ▸ hMem) hRest hCall
        rw [hSame] at hJoined
        refine ⟨R', root', h', fun a b hab => hJoined.old a b (Or.inl hab), fun a b hab => ?_,
          hJoined.kept, hJoined.mem, fun group' hMem' => ?_⟩
        · rcases hJoined.new a b hab with
            (hR | ⟨rfl, rfl⟩) | ⟨first', hMem', group', hIn, hGroups', hEq⟩
          · exact Or.inl hR
          · exact Or.inr ⟨first, hFirst, group, hFirstGroup, mem_cons_self, rfl, rfl⟩
          · exact Or.inr ⟨first', hMem', group', hIn, mem_cons_of_mem _ hGroups', hEq⟩
        · rcases mem_cons.mp hMem' with rfl | hMem'
          · exact ⟨first, hJoined.kept group' first hLookup,
              .rel _ _ (hJoined.old _ _ (Or.inr ⟨rfl, rfl⟩))⟩
          · exact hJoined.joined group' hMem'

theorem addedNodes_append (calls : List Call) (c : Call) :
    addedNodes (calls ++ [c]) = addedNodes calls ++ c.added?.toList := by
  rw [addedNodes, addedNodes]
  cases h : c.added? <;> simp [h]

variable {calls : List Call} {g g' : Graph} {x : Node}

theorem Requested.append {c : Call} {a b : Int} (h : Requested calls a b) :
    Requested (calls ++ [c]) a b := by
  have hMem {y : Node} (hy : y ∈ addedNodes calls) : y ∈ addedNodes (calls ++ [c]) := by
    rw [addedNodes_append]
    exact mem_append_left _ hy
  cases h with
  | call h => exact .call (mem_append_left _ h)
  | group hx hy hxGroup hyGroup => exact .group (hMem hx) (hMem hy) hxGroup hyGroup

structure Sound (env : Env) (calls : List Call) (g : Graph) (root : Int → Int) : Prop where
  holds : Holds env (addedNodes calls) (Requested calls) g.members root
  groups : GroupRoots (addedNodes calls) g.colocationGroupRoot

section

variable (h : Sound env calls g root)

include h

theorem Sound.addNode
    (hNew : ∀ y ∈ addedNodes calls, y.id < x.id)
    (hCall : ColocationGraph.addNode env x g = .ok g') :
    ∃ root', Sound env (calls ++ [.addNode x]) g' root' := by
  have hNodes : addedNodes (calls ++ [.addNode x]) = addedNodes calls ++ [x] :=
    addedNodes_append calls _
  have hxMem : x ∈ addedNodes calls ++ [x] := mem_append_right _ (mem_singleton_self x)
  rw [ColocationGraph.addNode] at hCall
  split at hCall
  · exact nomatch hCall
  · next member hInit =>
    obtain ⟨R', root', h', hJoined⟩ := joinGroups_joins hxMem (g := { g with
      members := (resize g.members (member.parent.toNat + 1)).set member.parent.toNat member })
      (h.holds.addMember hNew hInit) (fun group first hFirst =>
        (h.groups.mem group first hFirst).imp_left (mem_append_left _)) (fun _ => id) hCall
    have hTotal : ∀ y ∈ addedNodes calls ++ [x], ∀ group ∈ colocationGroups y,
        ∃ first, g'.colocationGroupRoot.lookup group = some first := by
      intro y hy group hGroup
      rcases mem_append.mp hy with hy | hy
      · obtain ⟨first, hFirst⟩ := h.groups.total y hy group hGroup
        exact ⟨first, hJoined.kept group first hFirst⟩
      · obtain rfl := mem_singleton.mp hy
        obtain ⟨first, hFirst, -⟩ := hJoined.joined group hGroup
        exact ⟨first, hFirst⟩
    -- an old node of one of the groups of `x` is colocated with the first node of that group
    have hGroup {y : Node} {group : String} (hy : y ∈ addedNodes calls)
        (hyGroup : group ∈ colocationGroups y) (hxGroup : group ∈ colocationGroups x) :
        EqvGen R' x.id y.id := by
      obtain ⟨first, hFirst, hTo⟩ := hJoined.joined group hxGroup
      obtain ⟨first', hFirst'⟩ := h.groups.total y hy group hyGroup
      obtain rfl : first' = first :=
        some.inj ((hJoined.kept group first' hFirst').symm.trans hFirst)
      obtain ⟨hOld, hOldGroup⟩ := h.groups.mem group first' hFirst'
      exact .trans _ _ _ hTo (.rel _ _ (hJoined.old _ _ (.group hOld hy hOldGroup hyGroup)))
    refine ⟨root', ?_, ?_⟩
    · rw [hNodes]
      refine h'.congr_names (fun a b hab => .rel a b ?_) fun a b hab => ?_
      · rcases hJoined.new a b hab with hR | ⟨first, hFirst, group, hIn, hxGroup, rfl, rfl⟩
        · exact hR.append
        · rw [← hNodes] at hFirst hxMem
          exact .group hxMem hFirst hxGroup hIn
      · cases hab with
        | call hMem =>
          rcases mem_append.mp hMem with hMem | hMem
          · exact .rel _ _ (hJoined.old _ _ (.call hMem))
          · exact absurd (mem_singleton.mp hMem) nofun
        | @group y z group hy hz hyGroup hzGroup =>
          rw [hNodes] at hy hz
          rcases mem_append.mp hy with hyOld | hyNew <;>
            rcases mem_append.mp hz with hzOld | hzNew
          · exact .rel _ _ (hJoined.old _ _ (.group hyOld hzOld hyGroup hzGroup))
          · obtain rfl := mem_singleton.mp hzNew
            exact .symm _ _ (hGroup hyOld hyGroup hzGroup)
          · obtain rfl := mem_singleton.mp hyNew
            exact hGroup hzOld hzGroup hyGroup
          · rw [mem_singleton.mp hyNew, mem_singleton.mp hzNew]
            exact .refl _
    · rw [hNodes]
      exact ⟨hJoined.mem, hTotal⟩

theorem Sound.colocateNodes
    {y : Node} (hCall : colocateNodes env x y g = .ok g') :
    ∃ root', Sound env (calls ++ [.colocateNodes x y]) g' root' := by
  have hNodes : addedNodes (calls ++ [.colocateNodes x y]) = addedNodes calls :=
    (addedNodes_append calls _).trans (append_nil _)
  obtain ⟨hSame, root', h'⟩ := h.holds.colocateNodes hCall
  refine ⟨root', ?_, ?_⟩
  · rw [hNodes]
    refine h'.congr_names (adding_le (fun _ _ hR => .rel _ _ hR.append) ?_) fun a b hab => ?_
    · exact .rel _ _ (.call (mem_append_right _ (mem_singleton_self _)))
    · cases hab with
      | call hMem =>
        rcases mem_append.mp hMem with hMem | hMem
        · exact le_adding _ _ _ _ (.call hMem)
        · obtain ⟨rfl, rfl⟩ := Call.colocateNodes.inj (mem_singleton.mp hMem)
          exact adding_self _ _
      | group hy hz hyGroup hzGroup =>
        rw [hNodes] at hy hz
        exact le_adding _ _ _ _ (.group hy hz hyGroup hzGroup)
  · rw [hNodes, hSame]
    exact h.groups

theorem Sound.deviceForNode
    {name : ParsedName} (hCall : deviceForNode x g = .ok (name, g')) :
    Sound env (calls ++ [.deviceForNode x]) g' root := by
  have hNodes : addedNodes (calls ++ [.deviceForNode x]) = addedNodes calls :=
    (addedNodes_append calls _).trans (append_nil _)
  obtain ⟨⟨r, members⟩, hFind, hCall⟩ := Fallible.bind_eq_ok.mp hCall
  obtain ⟨-, -, h'⟩ := h.holds.callFindRoot hFind
  dsimp only at hCall
  split at hCall
  · exact nomatch hCall
  · obtain ⟨-, rfl⟩ := Prod.mk.inj (Except.ok.inj hCall)
    refine ⟨?_, ?_⟩
    · rw [hNodes]
      refine h'.congr_names (fun _ _ hR => .rel _ _ hR.append) fun a b hab => ?_
      cases hab with
      | call hMem =>
        rcases mem_append.mp hMem with hMem | hMem
        · exact .rel _ _ (.call hMem)
        · exact absurd (mem_singleton.mp hMem) nofun
      | group hy hz hyGroup hzGroup =>
        rw [hNodes] at hy hz
        exact .rel _ _ (.group hy hz hyGroup hzGroup)
    · rw [hNodes]
      exact h.groups

end

theorem run_append (calls : List Call) (c : Call) :
    run env (calls ++ [c]) = run env calls >>= fun g => call env g c := by
  simp only [run, foldlM_append, foldlM_cons, foldlM_nil, bind_pure]

def Increasing (calls : List Call) : Prop := (addedNodes calls).Pairwise fun x y => x.id < y.id

theorem run_sound (hIds : Increasing calls) :
    ∀ {g : Graph}, run env calls = .ok g → ∃ root, Sound env calls g root := by
  induction calls using reverseRecOn with
  | nil =>
    intro g hRun
    obtain rfl := Except.ok.inj hRun
    have hNone (i : Int) : added? ({} : Graph).members i = none := by
      rw [added?, member?]
      split <;> rfl
    have hParent : parentOf ({} : Graph).members = id := by
      funext i
      rw [parentOf, hNone, id]
    refine ⟨id, ⟨by rintro _ ⟨⟩, ⟨fun i m hm => ?_, fun i => .here ?_, fun i hi => ?_⟩, fun i => ?_,
      fun a b => ⟨?_, fun hab => ?_⟩, by rintro _ ⟨⟩⟩, by simp, by rintro _ ⟨⟩⟩
    · rw [hNone] at hm
      exact (by cases hm)
    · rw [hParent, id]
    · rw [hParent] at hi
      exact absurd rfl hi
    · simp [hNone, addedNodes]
    · rintro rfl
      exact .refl a
    · induction hab with
      | rel a b hab =>
        cases hab with
        | call h => exact (by cases h)
        | group h => exact (by cases h)
      | refl => rfl
      | symm _ _ _ ih => exact ih.symm
      | trans _ _ _ _ _ ih ih' => exact ih.trans ih'
  | append_singleton calls c ih =>
    intro g' hRun
    rw [run_append] at hRun
    obtain ⟨g, hBefore, hCall⟩ := Fallible.bind_eq_ok.mp hRun
    rw [Increasing, addedNodes_append, pairwise_append] at hIds
    obtain ⟨root, h⟩ := ih hIds.1 hBefore
    cases c with
    | addNode x => exact h.addNode (fun y hy => hIds.2.2 y hy x (mem_singleton_self x)) hCall
    | colocateNodes x y => exact h.colocateNodes hCall
    | deviceForNode x =>
      rw [call] at hCall
      cases hName : deviceForNode x g with
      | error e =>
        rw [hName] at hCall
        exact (by cases hCall)
      | ok found =>
        rw [hName] at hCall
        obtain rfl := Except.ok.inj hCall
        exact ⟨root, h.deviceForNode hName⟩

/-- After calls that all return OK, `FindRoot` returns for every added node, two nodes have the same
root exactly if the colocations connect them, ranks rise to the parents, and the member of a root
stands for its class. -/
theorem run_classes {calls : List Call} {g : Graph} (hIds : Increasing calls)
    (hRun : run env calls = .ok g) :
    ∃ root : Int → Int,
      (∀ x ∈ addedNodes calls, ∃ members', ∀ depth, g.members.length ≤ depth →
        findRoot depth g.members x.id = some (root x.id, members')) ∧
      (∀ x ∈ addedNodes calls, ∀ y ∈ addedNodes calls,
        root x.id = root y.id ↔ EqvGen (Requested calls) x.id y.id) ∧
      (∀ x ∈ addedNodes calls, ∀ m, member? g.members x.id = some m → m.parent ≠ x.id →
        ∃ p, member? g.members m.parent = some p ∧ m.rank < p.rank) ∧
      ∀ x ∈ addedNodes calls, ∃ z ∈ addedNodes calls, ∃ m, z.id = root x.id ∧
        member? g.members z.id = some m ∧ m.parent = z.id ∧
        Represents env (addedNodes calls) root z m := by
  obtain ⟨root, h, -⟩ := run_sound hIds hRun
  refine ⟨root, fun x hx => ?_, fun x _ y _ => h.names x.id y.id, fun x hx m hm hNot => ?_,
    fun x hx => ?_⟩
  · obtain ⟨m, hm⟩ := h.member hx
    have hLength := Forest.above_length (added?_eq_some.mp hm).1
    obtain ⟨members', hFind, -⟩ := h.forest.findRoot hm hLength
    refine ⟨members', fun depth hDepth => ?_⟩
    exact Forest.findRoot_mono hDepth hFind
  · obtain ⟨m', hm'⟩ := h.member hx
    obtain rfl := some.inj (hm.symm.trans (added?_eq_some.mp hm').1)
    obtain ⟨p, hp⟩ := h.forest.closed x.id m hm'
    have hRise := h.forest.ranked x.id (by rwa [parentOf_eq hm'])
    rw [parentOf_eq hm', rankOf_eq hm', rankOf_eq hp] at hRise
    exact ⟨p, (added?_eq_some.mp hp).1, hRise⟩
  · obtain ⟨m, hm⟩ := h.forest.added_root (h.member hx)
    obtain ⟨z, hz, hzId⟩ := (h.added _).mp ⟨m, hm⟩
    have hzRoot : root z.id = z.id := by rw [hzId, h.forest.root_root]
    have hTop := (h.forest.roots z.id).isRoot
    rw [← hzId] at hm
    rw [hzRoot, parentOf_eq hm] at hTop
    exact ⟨z, hz, m, hzId, (added?_eq_some.mp hm).1, hTop, h.represents z hz hzRoot m hm⟩

def sampleEnv : Env where
  devices := [⟨"/job:a/replica:0/task:0/device:GPU:0", "GPU"⟩,
    ⟨"/job:a/replica:0/task:0/device:CPU:0", "CPU"⟩]
  softPlacementOption := some false
  opRegistered _ := true
  findKernelRegistration deviceType node := .ok (deviceType = "CPU" || node.op = "MatMul")
  kernelsRegisteredForOp _ := ""
  hashOrder entries := entries

def sampleNode (id : Int) (name op device : String) (classSpecs : Option (List String)) : Node :=
  { id := id, name := name, typeString := op, assignedDeviceName := "", op := op, device := device,
    classSpecs := classSpecs }

def sampleA : Node := sampleNode 2 "a" "MatMul" "/job:a" none

def sampleB : Node := sampleNode 3 "b" "Shape" "/task:0" none

def sampleC : Node := sampleNode 5 "c" "MatMul" "" (some ["loc:@a"])

def sampleCalls : List Call :=
  [.addNode sampleA, .addNode sampleB, .addNode sampleC, .colocateNodes sampleB sampleC]

theorem run_classes_sample : ∃ (g : Graph) (root : Int → Int), run sampleEnv sampleCalls = .ok g ∧
    (∃ members', findRoot g.members.length g.members 2 = some (root 2, members')) ∧
    (∃ members', findRoot g.members.length g.members 3 = some (root 3, members')) ∧
    root 2 = root 3 := by
  have hOk : (run sampleEnv sampleCalls).toOption.isSome := by decide +kernel
  obtain ⟨g, hRun⟩ : ∃ g, run sampleEnv sampleCalls = .ok g := by
    cases hRun : run sampleEnv sampleCalls with
    | error e =>
      rw [hRun] at hOk
      exact nomatch hOk
    | ok g => exact ⟨g, rfl⟩
  have hIds : Increasing sampleCalls := by
    unfold Increasing
    decide
  obtain ⟨root, hFind, hClasses, -⟩ := run_classes hIds hRun
  have hA : sampleA ∈ addedNodes sampleCalls := by decide
  have hB : sampleB ∈ addedNodes sampleCalls := by decide
  have hC : sampleC ∈ addedNodes sampleCalls := by decide
  obtain ⟨a, ha⟩ := hFind sampleA hA
  obtain ⟨b, hb⟩ := hFind sampleB hB
  refine ⟨g, root, hRun, ⟨a, ha _ le_rfl⟩, ⟨b, hb _ le_rfl⟩,
    (hClasses sampleA hA sampleB hB).mpr ?_⟩
  have hGroup : "loc:@a" ∈ colocationGroups sampleA ∧ "loc:@a" ∈ colocationGroups sampleC := by
    decide
  exact .trans _ _ _ (.rel _ _ (.group hA hC hGroup.1 hGroup.2))
    (.symm _ _ (.rel _ _ (.call (x := sampleB) (y := sampleC) (by simp [sampleCalls]))))

end TensorFlowOnSpark.ColocationGraph
