import TensorFlowOnSpark.Graph.GraphPartitionPreserves
import TensorFlowOnSpark.Lib.Fallible

/-!
# Control edges between epochs

`AddControlEdges` of `graph/graph_partition.cc`.
-/

namespace TensorFlowOnSpark

open Fallible List Int Option Nat

/-- A `NodeDef` of a partition, with its attribute `_start_time`. -/
structure ScheduledNode where
  name : String
  op : String
  device : String
  inputs : List NodeInput
  startTime : Option Int
deriving DecidableEq, Repr

/-- Why a call has no result; `noNode` and `dummyIndex` are reads out of bounds. -/
inductive ScheduleStop where
  | noStartTime (name : String)
  | noNode
  | dummyIndex
deriving DecidableEq, Repr

namespace ControlEdges

def int64 (i : Int) : Int := bmod i (2 ^ 64)

def int32 (i : Int) : Int := bmod i (2 ^ 32)

def numEpochs : Nat := 100

def prefetch : Int := 6

def getStartTime (n : ScheduledNode) : Except ScheduleStop Int :=
  match n.startTime with
  | some startTime => .ok startTime
  | none => .error (.noStartTime n.name)

def addInput (dst : ScheduledNode) (srcName : String) : ScheduledNode :=
  { dst with inputs := dst.inputs ++ [.control srcName] }

def addControlTrigger (name device : String) (startTime : Int) : ScheduledNode :=
  ⟨name, "ControlTrigger", device, [], some startTime⟩

/-- The loop that makes the dummys, from epoch `i` on: `last` is the node before the rest of the
start times, and `names` counts the calls of `new_name` before the loop. -/
def addDummys (newName : Nat → String → String) (names : Nat) (device : String)
    (resolution : Int) (i : Nat) (last : Option ScheduledNode) :
    List (ScheduledNode × Int) → List ScheduledNode
  | [] => []
  | (node, startTime) :: rest =>
    if i < numEpochs then
      if int64 (i * resolution) > startTime then
        addDummys newName names device resolution i (some node) rest
      else
        let dummy := addControlTrigger (newName (names + i) ("synch_" ++ toString i)) device
          (int64 (i * resolution))
        let dummy :=
          match last with
          | some node => addInput dummy node.name
          | none => dummy
        dummy :: addDummys newName names device resolution (i + 1) last ((node, startTime) :: rest)
    else []
termination_by startTimes => startTimes.length + (numEpochs - i)

/-- The loop body that adds a control edge to a recv. -/
def addRecvInput (resolution : Int) (dummys : List ScheduledNode) (n : ScheduledNode) :
    Except ScheduleStop ScheduledNode :=
  if n.op = "_Recv" then do
    let startTime ← getStartTime n
    let recvEpoch := int32 (startTime.tdiv resolution)
    if recvEpoch ≥ prefetch then
      match dummys[(recvEpoch - prefetch).toNat]? with
      | some dummy => .ok (addInput n dummy.name)
      | none => .error .dummyIndex
    else .ok n
  else .ok n

variable (sort : List (ScheduledNode × Int) → List (ScheduledNode × Int))
  (newName : Nat → String → String)

/-- One partition: its nodes, and how often `new_name` was called. -/
def addPartEdges (names : Nat) (gdef : List ScheduledNode) :
    Except ScheduleStop (List ScheduledNode × Nat) := do
  let startTimes ← gdef.mapM fun n => do
    let startTime ← getStartTime n
    .ok (n, startTime)
  match gdef.head?, (sort startTimes).getLast? with
  | some first, some last =>
    let resolution := int64 (last.2.tdiv numEpochs + 1)
    let dummys := addDummys newName names first.device resolution 0 none (sort startTimes)
    let nodes ← (gdef ++ dummys).mapM (addRecvInput resolution dummys)
    .ok (nodes, names + dummys.length)
  | _, _ => .error .noNode

def addControlEdges : Nat → List (String × List ScheduledNode) →
    Except ScheduleStop (List (String × List ScheduledNode))
  | _, [] => .ok []
  | names, (loc, gdef) :: rest => do
    let (nodes, names) ← addPartEdges sort newName names gdef
    let parts ← addControlEdges names rest
    .ok ((loc, nodes) :: parts)

def Feeds (nodes : List ScheduledNode) (u v : String) : Prop :=
  ∃ n ∈ nodes, n.name = v ∧ ∃ input ∈ n.inputs, input.srcName = u

def SortsByTime : Prop :=
  ∀ l, (sort l).Perm l ∧ (sort l).Pairwise fun x y => x.2 ≤ y.2

/-- `new_name` gives names that are not there. -/
structure FreshNames (parts : List (String × List ScheduledNode)) : Prop where
  once : ∀ i j p q, newName i p = newName j q → i = j
  new : ∀ part ∈ parts, ∀ n ∈ part.2, ∀ i p, newName i p ≠ n.name

structure WellScheduled (nodes : List ScheduledNode) : Prop where
  names : (nodes.map ScheduledNode.name).Nodup
  times : ∀ n ∈ nodes, ∃ t, n.startTime = some t ∧ 0 ≤ t ∧ t < 2 ^ 63
  rising : ∀ n ∈ nodes, ∀ input ∈ n.inputs, ∃ src ∈ nodes, src.name = input.srcName ∧
    ∀ t t', src.startTime = some t → n.startTime = some t' → t ≤ t'

section Dummys

variable {newName : Nat → String → String} {names : Nat} {device : String} {resolution : Int}

theorem int64_eq {i : Int} (hLow : 0 ≤ i) (hHigh : i < 2 ^ 63) : int64 i = i := by
  rw [int64, bmod_eq_of_le] <;> omega

theorem int32_eq {i : Int} (hLow : 0 ≤ i) (hHigh : i < 2 ^ 31) : int32 i = i := by
  rw [int32, bmod_eq_of_le] <;> omega

theorem epoch_start {makespan : Int} (hLow : 0 ≤ makespan) (hHigh : makespan < 2 ^ 63) {i : Nat}
    (hi : i < numEpochs) : int64 (i * (makespan / 100 + 1)) = i * (makespan / 100 + 1) := by
  have hi : (i : Int) ≤ 99 := by
    rw [numEpochs] at hi
    omega
  have hProduct : (i : Int) * (makespan / 100 + 1) ≤ 99 * (makespan / 100 + 1) :=
    Int.mul_le_mul_of_nonneg_right hi (by omega)
  exact int64_eq (Int.mul_nonneg (by omega) (by omega)) (by omega)

structure IsDummy (newName : Nat → String → String) (names : Nat) (resolution : Int)
    (startTimes : List (ScheduledNode × Int)) (epoch : Nat) (d : ScheduledNode) : Prop where
  name : ∃ namePrefix, d.name = newName (names + epoch) namePrefix
  op : d.op = "ControlTrigger"
  startTime : d.startTime = some (epoch * resolution)
  inputs : ∀ input ∈ d.inputs, ∃ p ∈ startTimes, input = .control p.1.name ∧
    p.2 < epoch * resolution

variable {last : Option ScheduledNode}

theorem addDummys_spec (hPos : 0 < resolution)
    (hStart : ∀ i < numEpochs, int64 (i * resolution) = i * resolution)
    {all startTimes : List (ScheduledNode × Int)} {i : Nat} (hAll : ∀ p ∈ startTimes, p ∈ all)
    (hLast : ∀ n, last = some n → ∃ t, (n, t) ∈ all ∧ t < i * resolution) :
    ∀ k d, (addDummys newName names device resolution i last startTimes)[k]? = some d →
      IsDummy newName names resolution all (i + k) d := by
  fun_induction addDummys newName names device resolution i last startTimes with
  | case1 i last => simp
  | case2 i last node startTime rest hEpoch hLater ih =>
    refine ih (fun p hp => hAll p (mem_cons_of_mem _ hp)) ?_
    rintro n ⟨⟩
    rw [hStart i hEpoch] at hLater
    exact ⟨startTime, hAll _ mem_cons_self, hLater⟩
  | case3 i last node startTime rest hEpoch hLater dummy dummy' ih =>
    intro k d hk
    cases k with
    | zero =>
      cases hk
      have hTime := congrArg some (hStart i hEpoch)
      cases last with
      | none => exact ⟨⟨_, rfl⟩, rfl, hTime, nofun⟩
      | some n =>
        refine ⟨⟨_, rfl⟩, rfl, hTime, ?_⟩
        intro input hInput
        obtain ⟨t, hMem, hLess⟩ := hLast n rfl
        exact ⟨(n, t), hMem, mem_singleton.mp hInput, hLess⟩
    | succ k =>
      have hNext := ih hAll (fun n hn => ?_) k d hk
      · rw [add_right_comm] at hNext
        exact hNext
      · obtain ⟨t, hMem, hLess⟩ := hLast n hn
        refine ⟨t, hMem, ?_⟩
        push_cast
        rw [add_mul]
        omega
  | case4 i last node startTime rest hEpoch => simp

theorem addDummys_length (hStart : ∀ i < numEpochs, int64 (i * resolution) = i * resolution)
    (hPos : 0 < resolution) {startTimes : List (ScheduledNode × Int)} {i : Nat}
    {p : ScheduledNode × Int} (hp : p ∈ startTimes) {epoch : Nat} (hFrom : i ≤ epoch)
    (hEpochs : epoch < numEpochs) (hBefore : epoch * resolution ≤ p.2) :
    epoch - i < (addDummys newName names device resolution i last startTimes).length := by
  fun_induction addDummys newName names device resolution i last startTimes with
  | case1 i last => cases hp
  | case2 i last node startTime rest hEpoch hLater ih =>
    refine ih ((mem_cons.mp hp).resolve_left ?_) hFrom
    rintro rfl
    rw [hStart i hEpoch] at hLater
    have hMono : (i : Int) * resolution ≤ epoch * resolution :=
      Int.mul_le_mul_of_nonneg_right (Int.ofNat_le.mpr hFrom) (le_of_lt hPos)
    omega
  | case3 i last node startTime rest hEpoch hLater dummy dummy' ih =>
    rw [length_cons]
    rcases eq_or_lt_of_le hFrom with rfl | hLess
    · omega
    · have hNext := ih hp hLess
      omega
  | case4 i last node startTime rest hEpoch => omega

theorem epoch_of_time {makespan t : Int} (hLow : 0 ≤ t) (hLe : t ≤ makespan)
    (hHigh : makespan < 2 ^ 63) : ∃ epoch : Nat, int32 (t.tdiv (makespan / 100 + 1)) = epoch ∧
      epoch < numEpochs ∧ epoch * (makespan / 100 + 1) ≤ t := by
  have hPos : 0 < makespan / 100 + 1 := by omega
  have hDiv : t.tdiv (makespan / 100 + 1) = t / (makespan / 100 + 1) :=
    tdiv_eq_ediv_of_nonneg hLow
  have hNonneg : 0 ≤ t / (makespan / 100 + 1) := ediv_nonneg hLow (le_of_lt hPos)
  have hBound : t / (makespan / 100 + 1) < 100 := by
    rw [Int.ediv_lt_iff_lt_mul hPos]
    omega
  refine ⟨(t / (makespan / 100 + 1)).toNat, ?_, ?_, ?_⟩
  · rw [hDiv, int32_eq hNonneg (by omega), toNat_of_nonneg hNonneg]
  · rw [numEpochs]
    omega
  · rw [toNat_of_nonneg hNonneg]
    exact Int.ediv_mul_le t (ne_of_gt hPos)

end Dummys

section Acyclic

variable {gdef dummys nodes : List ScheduledNode}

structure Delayed (dummys : List ScheduledNode) (n n' : ScheduledNode) : Prop where
  name : n'.name = n.name
  inputs : ∀ input ∈ n'.inputs, input ∈ n.inputs ∨ ∃ d ∈ dummys, ∃ td t, input = .control d.name ∧
    d.startTime = some td ∧ n.startTime = some t ∧ td < t

def startOf (nodes : List ScheduledNode) (name : String) : Int :=
  ((nodes.find? fun n => n.name = name).bind ScheduledNode.startTime).getD 0

theorem startOf_eq (hNodup : (nodes.map ScheduledNode.name).Nodup) {n : ScheduledNode}
    (hn : n ∈ nodes) {t : Int} (hTime : n.startTime = some t) : startOf nodes n.name = t := by
  cases hFind : nodes.find? fun m => m.name = n.name with
  | none =>
    have hNot := find?_eq_none.mp hFind n hn
    simp at hNot
  | some m =>
    have hName : m.name = n.name := by simpa using find?_some hFind
    have hSame : m = n :=
      inj_on_of_nodup_map hNodup (mem_of_find?_eq_some hFind) hn hName
    rw [startOf, hFind, hSame, bind_some, hTime, getD_some]

theorem acyclic_of_delayed (hNodup : ((gdef ++ dummys).map ScheduledNode.name).Nodup)
    (hGdef : WellScheduled gdef)
    (hDummys : ∀ d ∈ dummys, ∃ td, d.startTime = some td ∧ ∀ input ∈ d.inputs,
      ∃ n ∈ gdef, ∃ t, n.startTime = some t ∧ input = .control n.name ∧ t < td)
    (hNodes : ∀ n' ∈ nodes, ∃ n ∈ gdef ++ dummys, Delayed dummys n n')
    (hAcyclic : Dependency.Acyclic (Feeds gdef)) : Dependency.Acyclic (Feeds nodes) := by
  refine hAcyclic.add_rising (startOf (gdef ++ dummys)) ?_
  rintro u v ⟨n', hn', rfl, input, hInput, rfl⟩
  obtain ⟨n, hn, hDelayed⟩ := hNodes n' hn'
  rw [hDelayed.name]
  rcases hDelayed.inputs input hInput with hOld | ⟨d, hd, td, t, rfl, hTime, hTime', hLess⟩
  · rcases mem_append.mp hn with hMem | hMem
    · obtain ⟨src, hSrc, hName, hRising⟩ := hGdef.rising n hMem input hOld
      obtain ⟨t, ht, _⟩ := hGdef.times src hSrc
      obtain ⟨t', ht', _⟩ := hGdef.times n hMem
      refine .inl ⟨⟨n, hMem, rfl, input, hOld, rfl⟩, ?_⟩
      rw [← hName, startOf_eq hNodup (mem_append_left _ hSrc) ht, startOf_eq hNodup hn ht']
      exact hRising t t' ht ht'
    · obtain ⟨td, hTime, hInputs⟩ := hDummys n hMem
      obtain ⟨src, hSrc, t, ht, rfl, hLess⟩ := hInputs input hOld
      refine .inr ?_
      rw [NodeInput.srcName, startOf_eq hNodup (mem_append_left _ hSrc) ht,
        startOf_eq hNodup hn hTime]
      exact hLess
  · refine .inr ?_
    rw [NodeInput.srcName, startOf_eq hNodup (mem_append_right _ hd) hTime,
      startOf_eq hNodup hn hTime']
    exact hLess

end Acyclic

section Parts

variable {sort : List (ScheduledNode × Int) → List (ScheduledNode × Int)}
  {newName : Nat → String → String} {gdef dummys : List ScheduledNode}

theorem addRecvInput_delayed {makespan : Int} (hHigh : makespan < 2 ^ 63)
    (hDummys : ∀ (k : Nat) (d : ScheduledNode), dummys[k]? = some d →
      d.startTime = some (k * (makespan / 100 + 1)))
    (hLength : ∀ epoch < numEpochs, epoch * (makespan / 100 + 1) ≤ makespan →
      epoch < dummys.length) {n : ScheduledNode}
    (hTime : n.op = "_Recv" → ∃ t, n.startTime = some t ∧ 0 ≤ t ∧ t ≤ makespan) :
    ∃ n', addRecvInput (makespan / 100 + 1) dummys n = .ok n' ∧ Delayed dummys n n' := by
  have hSame : Delayed dummys n n := ⟨rfl, fun _ hInput => .inl hInput⟩
  unfold addRecvInput
  split
  · rename_i hRecv
    obtain ⟨t, ht, hLow, hLe⟩ := hTime hRecv
    obtain ⟨epoch, hEpoch, hEpochs, hBefore⟩ := epoch_of_time hLow hLe hHigh
    have hGet : getStartTime n = .ok t := by
      rw [getStartTime, ht]
    simp only [hGet, ok_bind, hEpoch]
    split
    · rename_i hPrefetch
      rw [prefetch] at hPrefetch
      have hIndex : ((epoch : Int) - prefetch).toNat = epoch - 6 := by
        rw [prefetch]
        omega
      have hBound := hLength epoch hEpochs (le_trans hBefore hLe)
      have hGetDummy : dummys[epoch - 6]? = some (dummys[epoch - 6]) :=
        getElem?_eq_getElem (by omega)
      rw [hIndex, hGetDummy]
      refine ⟨_, rfl, rfl, ?_⟩
      intro input hInput
      refine (mem_append.mp hInput).imp_right fun hNew => ?_
      refine ⟨_, getElem_mem _, _, t, mem_singleton.mp hNew, hDummys _ _ hGetDummy, ht, ?_⟩
      refine lt_of_lt_of_le ?_ hBefore
      have hPos : 0 < makespan / 100 + 1 := by omega
      exact Int.mul_lt_mul_of_pos_right (by omega) hPos
    · exact ⟨n, rfl, hSame⟩
  · exact ⟨n, rfl, hSame⟩

theorem getLast_max {l : List (ScheduledNode × Int)} (hSorted : l.Pairwise fun x y => x.2 ≤ y.2)
    {last : ScheduledNode × Int} (hLast : l.getLast? = some last) :
    last ∈ l ∧ ∀ p ∈ l, p.2 ≤ last.2 := by
  obtain ⟨init, rfl⟩ := getLast?_eq_some_iff.mp hLast
  refine ⟨mem_append_right _ mem_cons_self, ?_⟩
  intro p hp
  rcases mem_append.mp hp with hp | hp
  · exact (pairwise_append.mp hSorted).2.2 p hp last mem_cons_self
  · rw [mem_singleton.mp hp]

theorem addPartEdges_safe (names : Nat) (hSort : SortsByTime sort)
    (hOnce : ∀ i j p q, newName i p = newName j q → i = j)
    (hNew : ∀ n ∈ gdef, ∀ i p, newName i p ≠ n.name) (hGdef : WellScheduled gdef) :
    (gdef = [] ∧ addPartEdges sort newName names gdef = .error .noNode) ∨
      ∃ nodes names', addPartEdges sort newName names gdef = .ok (nodes, names') ∧
        (Dependency.Acyclic (Feeds gdef) → Dependency.Acyclic (Feeds nodes)) := by
  -- the start times
  let time : ScheduledNode → Int := fun n => n.startTime.getD 0
  have hTime {n : ScheduledNode} (hn : n ∈ gdef) :
      n.startTime = some (time n) ∧ 0 ≤ time n ∧ time n < 2 ^ 63 := by
    obtain ⟨t, ht, hBounds⟩ := hGdef.times n hn
    simp only [time, ht, getD_some]
    exact ⟨trivial, hBounds⟩
  let startTimes := gdef.map fun n => (n, time n)
  have hStartTimes : (gdef.mapM fun n => do
      let startTime ← getStartTime n
      .ok (n, startTime)) = (.ok startTimes : Except ScheduleStop _) := by
    rw [mapM_eq_ok, forall₂_map_right_iff, forall₂_same]
    intro n hn
    rw [getStartTime, (hTime hn).1]
    rfl
  obtain ⟨hPerm, hSorted⟩ := hSort startTimes
  rw [addPartEdges, hStartTimes, ok_bind]
  cases hLast : (sort startTimes).getLast? with
  | none =>
    rw [getLast?_eq_none_iff] at hLast
    rw [hLast] at hPerm
    have hEmpty : gdef = [] := map_eq_nil_iff.mp hPerm.symm.eq_nil
    refine .inl ⟨hEmpty, ?_⟩
    rw [hEmpty]
    rfl
  | some last =>
    right
    obtain ⟨hLastMem, hMax⟩ := getLast_max hSorted hLast
    obtain ⟨m, hm, hEq⟩ := mem_map.mp (hPerm.mem_iff.mp hLastMem)
    obtain ⟨_, hLow, hHigh⟩ := hTime hm
    have hMakespan : last.2 = time m := congrArg Prod.snd hEq.symm
    rw [← hMakespan] at hLow hHigh
    have hMem {n : ScheduledNode} (hn : n ∈ gdef) : (n, time n) ∈ sort startTimes :=
      hPerm.mem_iff.mpr (mem_map_of_mem hn)
    obtain ⟨first, rest, hFirst⟩ := exists_cons_of_ne_nil (ne_nil_of_mem hm)
    have hHead : gdef.head? = some first := by rw [hFirst, head?_cons]
    have hResolution : int64 (last.2.tdiv numEpochs + 1) = last.2 / 100 + 1 := by
      rw [tdiv_eq_ediv_of_nonneg hLow]
      exact int64_eq (by rw [numEpochs]; omega) (by rw [numEpochs]; omega)
    have hPos : 0 < last.2 / 100 + 1 := by omega
    simp only [hHead, hResolution]
    have hStart : ∀ i < numEpochs, int64 (i * (last.2 / 100 + 1)) = i * (last.2 / 100 + 1) :=
      fun i hi => epoch_start hLow hHigh hi
    -- the dummys
    let dummys := addDummys newName names first.device (last.2 / 100 + 1) 0 none (sort startTimes)
    have hSpec : ∀ (k : Nat) (d : ScheduledNode), dummys[k]? = some d →
        IsDummy newName names (last.2 / 100 + 1) (sort startTimes) k d := by
      intro k d hk
      have hDummy := addDummys_spec hPos hStart (fun p hp => hp) (by rintro _ ⟨⟩) k d hk
      rw [zero_add] at hDummy
      exact hDummy
    have hLength : ∀ epoch < numEpochs, epoch * (last.2 / 100 + 1) ≤ last.2 →
        epoch < dummys.length := by
      intro epoch hEpochs hBefore
      exact addDummys_length hStart hPos hLastMem (zero_le _) hEpochs hBefore
    have hDelayed : ∀ n ∈ gdef ++ dummys, ∃ n',
        addRecvInput (last.2 / 100 + 1) dummys n = .ok n' ∧ Delayed dummys n n' := by
      intro n hn
      refine addRecvInput_delayed hHigh (fun k d hk => (hSpec k d hk).startTime) hLength ?_
      intro hRecv
      rcases mem_append.mp hn with hn | hn
      · obtain ⟨ht, hLow', _⟩ := hTime hn
        exact ⟨time n, ht, hLow', hMax _ (hMem hn)⟩
      · obtain ⟨k, hk⟩ := mem_iff_getElem?.mp hn
        exact absurd ((hSpec k n hk).op.symm.trans hRecv) (by decide)
    obtain ⟨nodes, hNodes⟩ := mapM_isOk fun n hn => (hDelayed n hn).imp fun _ h => h.1
    refine ⟨nodes, names + dummys.length, ?_, ?_⟩
    · rw [hNodes]
      rfl
    · have hNodup : ((gdef ++ dummys).map ScheduledNode.name).Nodup := by
        rw [map_append, nodup_append]
        refine ⟨hGdef.names, ?_, ?_⟩
        · rw [Nodup, pairwise_map, pairwise_iff_getElem]
          intro i j hi hj hij hName
          obtain ⟨p, hp⟩ := (hSpec i _ (getElem?_eq_getElem hi)).name
          obtain ⟨q, hq⟩ := (hSpec j _ (getElem?_eq_getElem hj)).name
          have hSame := hOnce _ _ p q (hp.symm.trans (hName.trans hq))
          omega
        · rintro name hName other hOther rfl
          obtain ⟨n, hn, rfl⟩ := mem_map.mp hName
          obtain ⟨d, hd, hEq⟩ := mem_map.mp hOther
          obtain ⟨k, hk⟩ := mem_iff_getElem?.mp hd
          obtain ⟨p, hp⟩ := (hSpec k d hk).name
          exact hNew n hn _ p (hp.symm.trans hEq)
      have hInputs : ∀ d ∈ dummys, ∃ td, d.startTime = some td ∧ ∀ input ∈ d.inputs,
          ∃ n ∈ gdef, ∃ t, n.startTime = some t ∧ input = .control n.name ∧ t < td := by
        intro d hd
        obtain ⟨k, hk⟩ := mem_iff_getElem?.mp hd
        refine ⟨_, (hSpec k d hk).startTime, ?_⟩
        intro input hInput
        obtain ⟨p, hp, rfl, hLess⟩ := (hSpec k d hk).inputs input hInput
        obtain ⟨n, hn, rfl⟩ := mem_map.mp (hPerm.mem_iff.mp hp)
        exact ⟨n, hn, time n, (hTime hn).1, rfl, hLess⟩
      have hFrom : ∀ n' ∈ nodes, ∃ n ∈ gdef ++ dummys, Delayed dummys n n' := by
        intro n' hn'
        obtain ⟨n, hn, hOk⟩ := forall₂_mem_right (mapM_eq_ok.mp hNodes) hn'
        obtain ⟨n'', hOk', h⟩ := hDelayed n hn
        cases hOk.symm.trans hOk'
        exact ⟨n, hn, h⟩
      exact acyclic_of_delayed hNodup hGdef hInputs hFrom

/-- For every set of partitions: no read of the dummys is out of bounds, and no partition gets a
cycle. -/
theorem control_edges_safe (names : Nat) {parts : List (String × List ScheduledNode)}
    (hSort : SortsByTime sort)
    (hFresh : FreshNames newName parts) (hParts : ∀ part ∈ parts, WellScheduled part.2) :
    (∀ stop, addControlEdges sort newName names parts = .error stop →
      stop = .noNode ∧ ∃ part ∈ parts, part.2 = []) ∧
    ∀ parts', addControlEdges sort newName names parts = .ok parts' →
      Forall₂ (fun part part' => part'.1 = part.1 ∧
        (Dependency.Acyclic (Feeds part.2) → Dependency.Acyclic (Feeds part'.2))) parts parts' := by
  induction parts generalizing names with
  | nil =>
    refine ⟨nofun, ?_⟩
    rintro parts' ⟨⟩
    exact .nil
  | cons part rest ih =>
    obtain ⟨loc, gdef⟩ := part
    obtain ⟨hGdef, hRest⟩ := forall_mem_cons.mp hParts
    obtain ⟨hNew, hNewRest⟩ := forall_mem_cons.mp hFresh.new
    have hFreshRest : FreshNames newName rest := ⟨hFresh.once, hNewRest⟩
    rw [addControlEdges]
    rcases addPartEdges_safe names hSort hFresh.once hNew hGdef with
      ⟨rfl, hStop⟩ | ⟨nodes, names', hOk, hAcyclic⟩
    · refine ⟨?_, nofun⟩
      rintro stop ⟨⟩
      exact ⟨rfl, _, mem_cons_self, rfl⟩
    · rw [hOk, ok_bind]
      obtain ⟨hStops, hEnds⟩ := ih names' hFreshRest hRest
      cases hTail : addControlEdges sort newName names' rest with
      | error stop' =>
        simp only [hTail]
        refine ⟨?_, nofun⟩
        rintro stop ⟨⟩
        obtain ⟨rfl, part, hPart, hEmpty⟩ := hStops stop' hTail
        exact ⟨rfl, part, mem_cons_of_mem _ hPart, hEmpty⟩
      | ok parts'' =>
        simp only [hTail]
        refine ⟨nofun, ?_⟩
        rintro parts' ⟨⟩
        exact .cons ⟨rfl, hAcyclic⟩ (hEnds parts'' hTail)

end Parts

def byTime (l : List (ScheduledNode × Int)) : List (ScheduledNode × Int) :=
  l.insertionSort fun x y => x.2 ≤ y.2

theorem sortsByTime_byTime : SortsByTime byTime := by
  exact fun l => ⟨perm_insertionSort _ l, pairwise_insertionSort _ l⟩

def lateRecv : List ScheduledNode :=
  [⟨"a", "Const", "/cpu:0", [], some 0⟩, ⟨"r", "_Recv", "/cpu:0", [.control "a"], some 5000⟩,
    ⟨"b", "Identity", "/cpu:0", [.data "r" 0], some 5000⟩]

theorem wellScheduled_lateRecv : WellScheduled lateRecv where
  names := by decide
  times := by
    intro n hn
    have hSome : ∀ n ∈ lateRecv, n.startTime = some 0 ∨ n.startTime = some 5000 := by decide
    exact (hSome n hn).elim (fun h => ⟨0, h, by decide⟩) fun h => ⟨5000, h, by decide⟩
  rising := by
    have hRising : ∀ n ∈ lateRecv, ∀ input ∈ n.inputs, ∃ src ∈ lateRecv,
        src.name = input.srcName ∧ src.startTime.getD 0 ≤ n.startTime.getD 0 := by decide
    intro n hn input hInput
    obtain ⟨src, hSrc, hName, hLe⟩ := hRising n hn input hInput
    refine ⟨src, hSrc, hName, ?_⟩
    intro t t' ht ht'
    rw [ht, ht'] at hLe
    exact hLe

theorem late_recv_acyclic :
    ∃ nodes, addControlEdges byTime numberedName 0 [("/cpu:0", lateRecv)] =
        .ok [("/cpu:0", nodes)] ∧ Dependency.Acyclic (Feeds nodes) := by
  have hFresh : FreshNames numberedName [("/cpu:0", lateRecv)] := by
    refine ⟨fun i j p q => numberedName_injective, ?_⟩
    intro part hPart n hn i p hEq
    obtain rfl := mem_singleton.mp hPart
    have hSlash : '/' ∈ (numberedName i p).toList := by
      simp [numberedName]
    have hNone : ∀ n ∈ lateRecv, '/' ∉ n.name.toList := by decide
    exact hNone n hn (hEq ▸ hSlash)
  have hParts : ∀ part ∈ [("/cpu:0", lateRecv)], WellScheduled part.2 := by
    intro part hPart
    rw [mem_singleton.mp hPart]
    exact wellScheduled_lateRecv
  obtain ⟨hStops, hEnds⟩ := control_edges_safe 0 sortsByTime_byTime hFresh hParts
  have hAcyclic : Dependency.Acyclic (Feeds lateRecv) := by
    apply Dependency.acyclic_of_rank fun name =>
      if name = "a" then 0 else if name = "r" then 1 else 2
    have hRank : ∀ n ∈ lateRecv, ∀ input ∈ n.inputs,
        (if input.srcName = "a" then 0 else if input.srcName = "r" then 1 else 2) <
          if n.name = "a" then 0 else if n.name = "r" then 1 else 2 := by decide
    rintro u v ⟨n, hn, rfl, input, hInput, rfl⟩
    exact hRank n hn input hInput
  cases hResult : addControlEdges byTime numberedName 0 [("/cpu:0", lateRecv)] with
  | error stop =>
    obtain ⟨_, part, hPart, hEmpty⟩ := hStops stop hResult
    rw [mem_singleton.mp hPart] at hEmpty
    cases hEmpty
  | ok parts' =>
    obtain ⟨⟨loc, nodes⟩, rest, ⟨hLoc, hKeeps⟩, hRest, rfl⟩ :=
      forall₂_cons_left_iff.mp (hEnds parts' hResult)
    rw [forall₂_nil_left_iff] at hRest
    rw [hRest]
    cases hLoc
    exact ⟨nodes, rfl, hKeeps hAcyclic⟩

end ControlEdges

end TensorFlowOnSpark
