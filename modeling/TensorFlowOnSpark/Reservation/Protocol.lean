import TensorFlowOnSpark.Lib.Transition
import Mathlib.Data.List.Sort
import Mathlib.Data.List.Range
import Mathlib.Data.List.Perm.Subperm

/-!
# Reservations of the nodes of a cluster

The driver runs a server that keeps a list of reservations and answers the requests `REG`,
`QUERY` and `QINFO` one at a time.
-/

namespace TensorFlowOnSpark.Reservation

open Transition List Nat

inductive JobName where
  | default | ps | worker
  deriving DecidableEq, Repr

/-- What `_mapfn` registers, without what only TensorBoard and the data feed use. -/
structure NodeMeta where
  workerNum : Nat
  host : String
  ppid : Nat
  jobName : JobName
  taskIndex : Int
  port : Nat
  deriving DecidableEq, Repr

/-- The arguments of `TFCluster.run`, and the executor that Spark gives to each task. -/
structure Cluster where
  numExecutors : Nat
  numPs : Nat
  numPs_lt : numPs < numExecutors
  host : Nat → String
  ppid : Nat → Nat

structure Reservations where
  required : Nat
  reservations : List NodeMeta := []

namespace Reservations

def add (r : Reservations) (node : NodeMeta) : Reservations :=
  { r with reservations := r.reservations ++ [node] }

def done (r : Reservations) : Bool := r.required ≤ r.reservations.length

def get (r : Reservations) : List NodeMeta := r.reservations

end Reservations

def Cluster.template (c : Cluster) : List (JobName × List Nat) :=
  [(.ps, range c.numPs), (.worker, range' c.numPs (c.numExecutors - c.numPs))]

def assign (template : List (JobName × List Nat)) (workerNum : Nat) : JobName × Int :=
  match template.find? fun job => workerNum ∈ job.2 with
  | some (job, nodes) => (job, nodes.idxOf workerNum)
  | none => (.default, -1)

def existing (info : List NodeMeta) (host : String) (ppid : Nat) : Option NodeMeta :=
  info.foldl
    (fun found node => if node.host = host ∧ node.ppid = ppid then some node else found) none

abbrev Spec := List (JobName × List String)

def NodeMeta.address (node : NodeMeta) : String := node.host ++ ":" ++ toString node.port

namespace Spec

def hosts (spec : Spec) (job : JobName) : List String := (spec.lookup job).getD []

def addNode (spec : Spec) (node : NodeMeta) : Spec :=
  match spec with
  | [] => [(node.jobName, [node.address])]
  | (job, addresses) :: rest =>
    if job = node.jobName then (job, addresses ++ [node.address]) :: rest
    else (job, addresses) :: addNode rest node

end Spec

def clusterSpec (info : List NodeMeta) : Spec :=
  (info.mergeSort fun a b => a.workerNum ≤ b.workerNum).foldl Spec.addNode []

/-- Where the execution of a node's task is. The last two start the TensorFlow function: one has
left `await_reservations`, the other has found its executor in the list. -/
inductive Phase where
  | running
  | registering (own : NodeMeta)
  | polling (own : NodeMeta)
  | polled (own : NodeMeta)
  | awaited (own : NodeMeta) (info : List NodeMeta)
  | retried (own : NodeMeta) (info : List NodeMeta)

structure State where
  server : Reservations
  node : Nat → Phase := fun _ => .running

inductive Action where
  | getReservations (workerNum port : Nat)
  | register (workerNum : Nat)
  | query (workerNum : Nat)
  | finish (workerNum : Nat)
  | fail (workerNum : Nat)

namespace State

def setNode (s : State) (workerNum : Nat) (phase : Phase) : State :=
  { s with node := Function.update s.node workerNum phase }

/-- The first `QINFO`; `port` is the free port that the task finds. -/
def getReservations (c : Cluster) (s : State) (workerNum port : Nat) : State :=
  match existing s.server.get (c.host workerNum) (c.ppid workerNum) with
  | some own => s.setNode workerNum (.retried own s.server.get)
  | none =>
    let (jobName, taskIndex) := assign c.template workerNum
    s.setNode workerNum (.registering {
      workerNum := workerNum, host := c.host workerNum, ppid := c.ppid workerNum
      jobName := jobName, taskIndex := taskIndex, port := port })

def step (c : Cluster) (s : State) : Action → Outcome State Empty
  | .getReservations w port =>
    if w < c.numExecutors then
      match s.node w with
      | .running => .next (s.getReservations c w port)
      | _ => .blocked
    else .blocked
  | .register w =>
    match s.node w with
    | .registering own =>
      .next ({ s with server := s.server.add own }.setNode w (.polling own))
    | _ => .blocked
  | .query w =>
    match s.node w with
    | .polling own => .next (if s.server.done then s.setNode w (.polled own) else s)
    | _ => .blocked
  | .finish w =>
    match s.node w with
    | .polled own => .next (s.setNode w (.awaited own s.server.get))
    | _ => .blocked
  | .fail w => .next (s.setNode w .running)

/-- `reservation.Server(num_executors)` and no task yet. -/
def initial (c : Cluster) : State where
  server := { required := c.numExecutors }

end State

theorem Spec.hosts_addNode (spec : Spec) (node : NodeMeta) (job : JobName) :
    (spec.addNode node).hosts job =
      spec.hosts job ++ if node.jobName = job then [node.address] else [] := by
  induction spec with
  | nil =>
    by_cases hJob : node.jobName = job
    · simp [addNode, hosts, hJob]
    · simp [addNode, hosts, hJob, lookup_cons, beq_eq_false_iff_ne.mpr (Ne.symm hJob)]
  | cons entry rest ih =>
    obtain ⟨entryJob, addresses⟩ := entry
    by_cases hSame : entryJob = node.jobName
    · subst hSame
      by_cases hJob : node.jobName = job
      · simp [addNode, hosts, hJob]
      · simp [addNode, hosts, hJob, lookup_cons, beq_eq_false_iff_ne.mpr (Ne.symm hJob)]
    · rw [addNode, if_neg hSame]
      by_cases hHead : entryJob = job
      · have hJob : ¬node.jobName = job := fun h => hSame (hHead.trans h.symm)
        simp [hosts, hHead, hJob]
      · have hLookup : ∀ tail : Spec,
            hosts ((entryJob, addresses) :: tail) job = hosts tail job := by
          intro tail
          simp [hosts, lookup_cons, beq_eq_false_iff_ne.mpr (Ne.symm hHead)]
        rw [hLookup, hLookup, ih]

theorem Spec.hosts_foldl (nodes : List NodeMeta) (spec : Spec) (job : JobName) :
    (nodes.foldl addNode spec).hosts job =
      spec.hosts job ++ (nodes.filter fun node => node.jobName = job).map (·.address) := by
  induction nodes generalizing spec with
  | nil => simp
  | cons node rest ih =>
    rw [foldl_cons, ih, hosts_addNode]
    by_cases hJob : node.jobName = job
    · simp [hJob]
    · simp [hJob]

structure Cluster.Entry (c : Cluster) (node : NodeMeta) : Prop where
  workerNum_lt : node.workerNum < c.numExecutors
  host : node.host = c.host node.workerNum
  ppid : node.ppid = c.ppid node.workerNum
  assigned : (node.jobName, node.taskIndex) = assign c.template node.workerNum

theorem idxOf_range' (start : Nat) {len i : Nat} (h : i < len) :
    (range' start len).idxOf (start + i) = i := by
  have hNodup : (range' start len).Nodup := nodup_range'
  have hIdx := hNodup.idxOf_getElem i (by simpa using h)
  rwa [getElem_range', Nat.one_mul] at hIdx

theorem assign_ps {c : Cluster} {w : Nat} (h : w < c.numPs) :
    assign c.template w = (.ps, (w : Int)) := by
  have hIdx : (range c.numPs).idxOf w = w := by
    simpa [range_eq_range'] using idxOf_range' 0 h
  simp [assign, Cluster.template, h, hIdx]

theorem assign_worker {c : Cluster} {w : Nat} (hPs : c.numPs ≤ w) (h : w < c.numExecutors) :
    assign c.template w = (.worker, ((w - c.numPs : Nat) : Int)) := by
  have hIdx : (range' c.numPs (c.numExecutors - c.numPs)).idxOf w = w - c.numPs := by
    have hPlace : c.numPs + (w - c.numPs) = w := Nat.add_sub_cancel' hPs
    have hOffset : w - c.numPs < c.numExecutors - c.numPs := by omega
    simpa [hPlace] using idxOf_range' c.numPs hOffset
  have hMem : c.numPs ≤ w ∧ w < c.numPs + (c.numExecutors - c.numPs) := by omega
  simp [assign, Cluster.template, hMem, hIdx]

structure Cluster.Describes (c : Cluster) (info : List NodeMeta) (spec : Spec)
    (nodes : List NodeMeta) : Prop where
  perm : nodes.Perm info
  workerNums : nodes.map (·.workerNum) = range c.numExecutors
  ps : spec.hosts .ps = (nodes.take c.numPs).map (·.address)
  worker : spec.hosts .worker = (nodes.drop c.numPs).map (·.address)
  default : spec.hosts .default = []

def OwnPlace (spec : Spec) (node : NodeMeta) : Prop :=
  ∃ i : Nat, node.taskIndex = i ∧ (spec.hosts node.jobName)[i]? = some node.address

section Complete

variable {c : Cluster} {info nodes : List NodeMeta}

theorem map_workerNum_mergeSort
    (hPerm : (info.map (·.workerNum)).Perm (range c.numExecutors)) :
    (info.mergeSort fun a b => a.workerNum ≤ b.workerNum).map (·.workerNum) =
      range c.numExecutors := by
  have hSorted : (info.mergeSort fun a b => a.workerNum ≤ b.workerNum).Pairwise
      fun a b => a.workerNum ≤ b.workerNum := by
    have hPairwise : (info.mergeSort fun a b => a.workerNum ≤ b.workerNum).Pairwise
        fun a b => decide (a.workerNum ≤ b.workerNum) := by
      apply pairwise_mergeSort
      · intro a b c hab hbc
        simp only [decide_eq_true_eq] at hab hbc ⊢
        omega
      · intro a b
        simp only [Bool.or_eq_true, decide_eq_true_eq]
        omega
    simpa using hPairwise
  refine Perm.eq_of_pairwise (fun _ _ _ _ => le_antisymm) (pairwise_map.mpr hSorted)
    ?_ (((mergeSort_perm info _).map _).trans hPerm)
  exact pairwise_lt_range.imp le_of_lt

variable {node : NodeMeta}

section

variable (hNode : ∀ node ∈ nodes, c.Entry node)
include hNode

theorem jobName_of_lt (hMem : node ∈ nodes)
    (hLt : node.workerNum < c.numPs) : node.jobName = .ps ∧ node.taskIndex = node.workerNum := by
  have hAssigned := (hNode node hMem).assigned
  rw [assign_ps hLt, Prod.mk.injEq] at hAssigned
  exact hAssigned

theorem jobName_of_le (hMem : node ∈ nodes) (hLe : c.numPs ≤ node.workerNum) :
    node.jobName = .worker ∧ node.taskIndex = ((node.workerNum - c.numPs : Nat) : Int) := by
  have hEntry := hNode node hMem
  have hAssigned := hEntry.assigned
  rw [assign_worker hLe hEntry.workerNum_lt, Prod.mk.injEq] at hAssigned
  exact hAssigned

theorem jobName_take (hNums : nodes.map (·.workerNum) = range c.numExecutors)
    (hMem : node ∈ nodes.take c.numPs) : node.jobName = .ps := by
  have hTake : (nodes.take c.numPs).map (·.workerNum) = range c.numPs := by
    rw [map_take, hNums, take_range, min_eq_left c.numPs_lt.le]
  have hLt : node.workerNum ∈ range c.numPs := hTake ▸ mem_map_of_mem hMem
  exact (jobName_of_lt hNode (mem_of_mem_take hMem) (mem_range.mp hLt)).1

theorem jobName_drop (hNums : nodes.map (·.workerNum) = range c.numExecutors)
    (hMem : node ∈ nodes.drop c.numPs) : node.jobName = .worker := by
  have hDrop : (nodes.drop c.numPs).map (·.workerNum) =
      range' c.numPs (c.numExecutors - c.numPs) := by
    rw [map_drop, hNums, range_eq_range']
    simp
  have hLe : node.workerNum ∈ range' c.numPs (c.numExecutors - c.numPs) :=
    hDrop ▸ mem_map_of_mem hMem
  exact (jobName_of_le hNode (mem_of_mem_drop hMem) (mem_range'_1.mp hLe).1).1

end

theorem filter_jobName {own job : JobName} (h : ∀ node ∈ nodes, node.jobName = own) :
    (nodes.filter fun node => node.jobName = job) = if own = job then nodes else [] := by
  by_cases hJob : own = job
  · rw [if_pos hJob, filter_eq_self]
    intro node hMem
    simp [h node hMem, hJob]
  · rw [if_neg hJob, filter_eq_nil_iff]
    intro node hMem
    simp [h node hMem, hJob]

theorem describes_clusterSpec (hNode : ∀ node ∈ info, c.Entry node)
    (hPerm : (info.map (·.workerNum)).Perm (range c.numExecutors)) :
    ∃ nodes, c.Describes info (clusterSpec info) nodes := by
  let nodes := info.mergeSort fun a b => a.workerNum ≤ b.workerNum
  have hSorted : nodes.Perm info := mergeSort_perm info _
  have hNums : nodes.map (·.workerNum) = range c.numExecutors := map_workerNum_mergeSort hPerm
  have hEntry : ∀ node ∈ nodes, c.Entry node := fun node hMem => hNode node (hSorted.subset hMem)
  have hHosts : ∀ job, (clusterSpec info).hosts job =
      ((nodes.take c.numPs).filter fun node => node.jobName = job).map (·.address) ++
        ((nodes.drop c.numPs).filter fun node => node.jobName = job).map (·.address) := by
    intro job
    rw [← map_append, ← filter_append, take_append_drop]
    exact Spec.hosts_foldl nodes [] job
  have hTake : ∀ node ∈ nodes.take c.numPs, node.jobName = .ps := fun _ => jobName_take hEntry hNums
  have hDrop : ∀ node ∈ nodes.drop c.numPs, node.jobName = .worker := fun _ =>
    jobName_drop hEntry hNums
  refine ⟨nodes, hSorted, hNums, ?_, ?_, ?_⟩
  all_goals
    rw [hHosts, filter_jobName hTake, filter_jobName hDrop]
    simp

theorem Cluster.Describes.getElem_workerNum {spec : Spec} (h : c.Describes info spec nodes)
    (hMem : node ∈ info) : nodes[node.workerNum]? = some node := by
  obtain ⟨i, hi, hGet⟩ := getElem_of_mem (h.perm.symm.subset hMem)
  have hNum : (nodes.map (·.workerNum))[i]? = some node.workerNum := by
    simp [hi, hGet]
  rw [h.workerNums, getElem?_eq_some_iff] at hNum
  obtain ⟨hLt, hEq⟩ := hNum
  rw [getElem_range] at hEq
  subst hEq
  rw [getElem?_eq_getElem hi, hGet]

theorem Cluster.Describes.ownPlace {spec : Spec} (h : c.Describes info spec nodes)
    (hNode : ∀ node ∈ info, c.Entry node) (hMem : node ∈ info) : OwnPlace spec node := by
  have hGet := h.getElem_workerNum hMem
  rcases lt_or_ge node.workerNum c.numPs with hLt | hLe
  · obtain ⟨hJob, hTask⟩ := jobName_of_lt hNode hMem hLt
    refine ⟨node.workerNum, hTask, ?_⟩
    rw [hJob, h.ps, getElem?_map, getElem?_take_of_lt hLt, hGet]
    rfl
  · obtain ⟨hJob, hTask⟩ := jobName_of_le hNode hMem hLe
    refine ⟨node.workerNum - c.numPs, hTask, ?_⟩
    rw [hJob, h.worker, getElem?_map, getElem?_drop, Nat.add_sub_cancel' hLe, hGet]
    rfl

end Complete

open Function

def PhaseSound (c : Cluster) (list : List NodeMeta) (w : Nat) : Phase → Prop
  | .running => True
  | .registering own => c.Entry own ∧ own.workerNum = w ∧ ∀ node ∈ list, node.workerNum ≠ w
  | .polling own => own ∈ list ∧ own.workerNum = w
  | .polled own => own ∈ list ∧ own.workerNum = w ∧ c.numExecutors ≤ list.length
  | .awaited own info =>
    own ∈ list ∧ own.workerNum = w ∧ c.numExecutors ≤ list.length ∧ info = list
  | .retried _ _ => True

structure Sound (c : Cluster) (s : State) : Prop where
  required : s.server.required = c.numExecutors
  entries : ∀ node ∈ s.server.reservations, c.Entry node
  nodup : (s.server.reservations.map (·.workerNum)).Nodup
  phases : ∀ w, PhaseSound c s.server.reservations w (s.node w)

def RetriesAfterAll (c : Cluster) (s : State) : Action → Prop
  | .getReservations w _ =>
    (existing s.server.get (c.host w) (c.ppid w)).isSome → s.server.done
  | _ => True

def RetrySound (c : Cluster) (s : State) : Prop :=
  ∀ w own info, s.node w = .retried own info →
    c.numExecutors ≤ info.length ∧ info = s.server.reservations

variable {c : Cluster} {s s' : State}

theorem existing_isSome {info : List NodeMeta} {host : String} {ppid : Nat} {node : NodeMeta}
    (hMem : node ∈ info) (hHost : node.host = host) (hPpid : node.ppid = ppid) :
    (existing info host ppid).isSome := by
  have hFold : ∀ (found : Option NodeMeta), found.isSome ∨ node ∈ info →
      (info.foldl (fun found node =>
        if node.host = host ∧ node.ppid = ppid then some node else found) found).isSome := by
    clear hMem
    induction info with
    | nil => simp
    | cons head rest ih =>
      intro found hFound
      rw [foldl_cons]
      apply ih
      rcases hFound with hFound | hMem
      · left
        split
        · rfl
        · exact hFound
      · rcases mem_cons.mp hMem with rfl | hRest
        · left
          rw [if_pos ⟨hHost, hPpid⟩]
          rfl
        · exact .inr hRest
  exact hFold none (.inr hMem)

theorem Sound.perm (h : Sound c s) (hFull : c.numExecutors ≤ s.server.reservations.length) :
    (s.server.reservations.map (·.workerNum)).Perm (range c.numExecutors) := by
  have hSubset : s.server.reservations.map (·.workerNum) ⊆ range c.numExecutors := by
    intro w hMem
    obtain ⟨node, hNode, rfl⟩ := mem_map.mp hMem
    exact mem_range.mpr (h.entries node hNode).workerNum_lt
  apply (h.nodup.subperm hSubset).perm_of_length_le
  simpa using hFull

variable {w : Nat} {a : Action}

theorem Sound.length_lt (h : Sound c s) {own : NodeMeta} (hPhase : s.node w = .registering own) :
    s.server.reservations.length < c.numExecutors := by
  have hOwn := h.phases w
  rw [hPhase] at hOwn
  obtain ⟨hEntry, rfl, hMissing⟩ := hOwn
  by_contra hFull
  have hPerm := h.perm (Nat.le_of_not_lt hFull)
  have hMem := hPerm.symm.subset (mem_range.mpr hEntry.workerNum_lt)
  obtain ⟨node, hNode, hNum⟩ := mem_map.mp hMem
  exact hMissing node hNode hNum

variable {phase : Phase}

theorem Sound.setNode (h : Sound c s) (hPhase : PhaseSound c s.server.reservations w phase)
    : Sound c (s.setNode w phase) := by
  refine ⟨h.required, h.entries, h.nodup, ?_⟩
  intro x
  by_cases hx : x = w
  · subst hx
    simpa [State.setNode] using hPhase
  · simpa [State.setNode, hx] using h.phases x

theorem Sound.register (h : Sound c s) {own : NodeMeta} (hPhase : s.node w = .registering own) :
    Sound c ({ s with server := s.server.add own }.setNode w (.polling own)) := by
  have hLt := h.length_lt hPhase
  have hOwn := h.phases w
  rw [hPhase] at hOwn
  obtain ⟨hEntry, hNum, hMissing⟩ := hOwn
  have hMem : own ∈ s.server.reservations ++ [own] := mem_append_right _ mem_cons_self
  refine ⟨h.required, ?_, ?_, ?_⟩
  · intro node hNode
    rcases mem_append.mp hNode with hOld | hNew
    · exact h.entries node hOld
    · cases mem_singleton.mp hNew
      exact hEntry
  · have hFresh : ∀ x ∈ s.server.reservations.map (·.workerNum), x ≠ own.workerNum := by
      intro x hx
      obtain ⟨node, hNode, rfl⟩ := mem_map.mp hx
      exact hNum ▸ hMissing node hNode
    simp only [State.setNode, Reservations.add, map_append]
    rw [nodup_append]
    exact ⟨h.nodup, nodup_singleton _, by simpa using hFresh⟩
  · intro x
    by_cases hx : x = w
    · subst hx
      simp only [State.setNode, update_self]
      exact ⟨hMem, hNum⟩
    · simp only [State.setNode, update_of_ne hx]
      have hOther := h.phases x
      cases hCase : s.node x with
      | running => trivial
      | registering other =>
        rw [hCase] at hOther
        refine ⟨hOther.1, hOther.2.1, ?_⟩
        intro node hNode
        rcases mem_append.mp hNode with hOld | hNew
        · exact hOther.2.2 node hOld
        · cases mem_singleton.mp hNew
          exact hNum ▸ Ne.symm hx
      | polling other =>
        rw [hCase] at hOther
        exact ⟨mem_append_left _ hOther.1, hOther.2⟩
      | polled other =>
        rw [hCase] at hOther
        exact absurd hLt (not_lt.mpr hOther.2.2)
      | awaited other info =>
        rw [hCase] at hOther
        exact absurd hLt (not_lt.mpr hOther.2.2.1)
      | retried other info => trivial

theorem Sound.getReservations (h : Sound c s) (port : Nat) (hw : w < c.numExecutors) :
    Sound c (s.getReservations c w port) := by
  rw [State.getReservations]
  split
  · exact h.setNode trivial
  · rename_i hNone
    refine h.setNode ⟨⟨hw, rfl, rfl, rfl⟩, rfl, ?_⟩
    rintro node hNode rfl
    have hEntry := h.entries node hNode
    have hSome := existing_isSome hNode hEntry.host hEntry.ppid
    rw [show existing s.server.reservations _ _ = none from hNone] at hSome
    cases hSome

theorem done_iff (h : Sound c s) :
    s.server.done ↔ c.numExecutors ≤ s.server.reservations.length := by
  rw [Reservations.done, h.required, decide_eq_true_eq]

/-- What one step does, one case for each action. -/
theorem step_cases (h : State.step c s a = .next s') :
    (∃ w port, a = .getReservations w port ∧ w < c.numExecutors ∧
      s' = s.getReservations c w port) ∨
    (∃ w own, s.node w = .registering own ∧
      s' = { s with server := s.server.add own }.setNode w (.polling own)) ∨
    (∃ w own, s.node w = .polling own ∧ s.server.done ∧ s' = s.setNode w (.polled own)) ∨
    s' = s ∨
    (∃ w own, s.node w = .polled own ∧ s' = s.setNode w (.awaited own s.server.get)) ∨
    ∃ w, s' = s.setNode w .running := by
  cases a with
  | getReservations w port =>
    simp only [State.step] at h
    split at h
    · rename_i hw
      split at h
      · cases h
        exact .inl ⟨w, port, rfl, hw, rfl⟩
      · cases h
    · cases h
  | register w =>
    simp only [State.step] at h
    split at h
    · rename_i own hPhase
      cases h
      exact .inr (.inl ⟨w, own, hPhase, rfl⟩)
    · cases h
  | query w =>
    simp only [State.step] at h
    split at h
    · rename_i own hPhase
      cases h
      split
      · rename_i hDone
        exact .inr (.inr (.inl ⟨w, own, hPhase, hDone, rfl⟩))
      · exact .inr (.inr (.inr (.inl rfl)))
    · cases h
  | finish w =>
    simp only [State.step] at h
    split at h
    · rename_i own hPhase
      cases h
      exact .inr (.inr (.inr (.inr (.inl ⟨w, own, hPhase, rfl⟩))))
    · cases h
  | fail w =>
    cases h
    exact .inr (.inr (.inr (.inr (.inr ⟨w, rfl⟩))))

theorem sound_step (h : Sound c s) (hNext : State.step c s a = .next s') : Sound c s' := by
  rcases step_cases hNext with ⟨w, port, -, hw, rfl⟩ | ⟨w, own, hPhase, rfl⟩ |
    ⟨w, own, hPhase, hDone, rfl⟩ | rfl | ⟨w, own, hPhase, rfl⟩ | ⟨w, rfl⟩
  · exact h.getReservations port hw
  · exact h.register hPhase
  · have hOwn := h.phases w
    rw [hPhase] at hOwn
    exact h.setNode ⟨hOwn.1, hOwn.2, (done_iff h).mp hDone⟩
  · exact h
  · have hOwn := h.phases w
    rw [hPhase] at hOwn
    exact h.setNode ⟨hOwn.1, hOwn.2.1, hOwn.2.2, rfl⟩
  · exact h.setNode trivial

theorem sound_initial (c : Cluster) : Sound c (State.initial c) := by
  refine ⟨rfl, ?_, ?_, fun _ => trivial⟩
  · intro node hMem
    cases hMem
  · exact nodup_nil

theorem sound_of_reach {allowed : State → Action → Prop}
    (hReach : Reach (State.step c) allowed (State.initial c) s) : Sound c s :=
  hReach.invariant (Sound c) (sound_initial c) fun _ _ _ hSound _ hNext => sound_step hSound hNext

theorem server_fixed (h : Sound c s) (hFull : c.numExecutors ≤ s.server.reservations.length)
    (hNext : State.step c s a = .next s') : s'.server = s.server := by
  rcases step_cases hNext with ⟨w, port, -, hw, rfl⟩ | ⟨w, own, hPhase, rfl⟩ |
    ⟨w, own, hPhase, hDone, rfl⟩ | rfl | ⟨w, own, hPhase, rfl⟩ | ⟨w, rfl⟩
  · rw [State.getReservations]
    split
    · rfl
    · rfl
  · exact absurd (h.length_lt hPhase) (not_lt.mpr hFull)
  · rfl
  · rfl
  · rfl
  · rfl

theorem Sound.describes (h : Sound c s) (hFull : c.numExecutors ≤ s.server.reservations.length) :
    ∃ nodes, c.Describes s.server.get (clusterSpec s.server.get) nodes :=
  describes_clusterSpec h.entries (h.perm hFull)

/-- All nodes that have left `await_reservations` have one spec, which lists every worker once, in
order, with the parameter servers apart; it has every node at its place and stays what it is. -/
theorem awaited_specs_agree (c : Cluster) (s : State)
    (hReach : Reach (State.step c) anyStep (State.initial c) s) :
    ∃ spec, ∀ w own info, s.node w = .awaited own info →
      clusterSpec info = spec ∧ (∃ nodes, c.Describes s.server.get spec nodes) ∧
      (∀ node ∈ s.server.get, OwnPlace spec node) ∧
      own ∈ s.server.get ∧ own.workerNum = w ∧
      ∀ a s', State.step c s a = .next s' → s'.server = s.server := by
  have hSound := sound_of_reach hReach
  refine ⟨clusterSpec s.server.get, ?_⟩
  intro w own info hPhase
  have hOwn := hSound.phases w
  rw [hPhase] at hOwn
  obtain ⟨hMem, hNum, hFull, rfl⟩ := hOwn
  obtain ⟨nodes, hDescribes⟩ := hSound.describes hFull
  refine ⟨rfl, ⟨nodes, hDescribes⟩, ?_, hMem, hNum, ?_⟩
  · intro node hNode
    exact hDescribes.ownPlace hSound.entries hNode
  · intro a s' hNext
    exact server_fixed hSound hFull hNext

def StartsComplete (c : Cluster) (s : State) : Prop :=
  ∀ w own info, s.node w = .awaited own info ∨ s.node w = .retried own info →
    ∃ nodes, c.Describes info (clusterSpec info) nodes

theorem RetrySound.setNode (h : RetrySound c s) (hPhase : ∀ own info, phase = .retried own info →
      c.numExecutors ≤ info.length ∧ info = s.server.reservations) :
    RetrySound c (s.setNode w phase) := by
  intro x own info hNode
  by_cases hx : x = w
  · subst hx
    simp only [State.setNode, update_self] at hNode
    exact hPhase own info hNode
  · simp only [State.setNode, update_of_ne hx] at hNode
    exact h x own info hNode

theorem retrySound_step (hSound : Sound c s) (h : RetrySound c s)
    (hOk : RetriesAfterAll c s a) (hNext : State.step c s a = .next s') : RetrySound c s' := by
  rcases step_cases hNext with ⟨w, port, rfl, hw, rfl⟩ | ⟨w, own, hPhase, rfl⟩ |
    ⟨w, own, hPhase, hDone, rfl⟩ | rfl | ⟨w, own, hPhase, rfl⟩ | ⟨w, rfl⟩
  · rw [State.getReservations]
    split
    · rename_i own hFound
      have hDone := hOk (by rw [hFound]; rfl)
      apply h.setNode
      rintro _ _ ⟨⟩
      exact ⟨(done_iff hSound).mp hDone, rfl⟩
    · exact h.setNode nofun
  · have hLt := hSound.length_lt hPhase
    intro x other info hNode
    by_cases hx : x = w
    · subst hx
      simp only [State.setNode, update_self] at hNode
      cases hNode
    · simp only [State.setNode, update_of_ne hx] at hNode
      obtain ⟨hFull, rfl⟩ := h x other info hNode
      exact absurd hLt (not_lt.mpr hFull)
  · exact h.setNode nofun
  · exact h
  · exact h.setNode nofun
  · exact h.setNode nofun

theorem retrySound_of_reach
    (hReach : Reach (State.step c) (RetriesAfterAll c) (State.initial c) s) : RetrySound c s := by
  have hBoth : Sound c s ∧ RetrySound c s := by
    refine hReach.invariant (fun s => Sound c s ∧ RetrySound c s) ⟨sound_initial c, nofun⟩ ?_
    intro s a s' hInv hOk hNext
    exact ⟨sound_step hInv.1 hNext, retrySound_step hInv.1 hInv.2 hOk hNext⟩
  exact hBoth.2

theorem starts_complete (c : Cluster) (s : State)
    (hReach : Reach (State.step c) (RetriesAfterAll c) (State.initial c) s) :
    StartsComplete c s := by
  have hSound := sound_of_reach hReach
  rintro w own info (hPhase | hPhase)
  · have hOwn := hSound.phases w
    rw [hPhase] at hOwn
    obtain ⟨-, -, hFull, rfl⟩ := hOwn
    exact hSound.describes hFull
  · obtain ⟨hFull, rfl⟩ := retrySound_of_reach hReach w own info hPhase
    exact hSound.describes hFull

section Example

def pair : Cluster where
  numExecutors := 2
  numPs := 1
  numPs_lt := by decide
  host _ := "node"
  ppid w := w

def registerBoth : List Action :=
  [.getReservations 0 5000, .getReservations 1 5001, .register 1, .query 1, .register 0, .query 0,
    .query 1, .finish 1, .finish 0]

def Phase.isAwaited : Phase → Bool
  | .awaited _ _ => true
  | _ => false

theorem Phase.exists_awaited (h : phase.isAwaited) :
    ∃ own info, phase = .awaited own info := by
  cases phase with
  | awaited own info => exact ⟨own, info, rfl⟩
  | _ => cases h

def Phase.retriedWith (n : Nat) : Phase → Bool
  | .retried _ info => info.length = n
  | _ => false

theorem Phase.exists_retried {n : Nat} (h : phase.retriedWith n) :
    ∃ own info, phase = .retried own info ∧ info.length = n := by
  cases phase with
  | retried own info => exact ⟨own, info, rfl, of_decide_eq_true h⟩
  | _ => cases h

def retryTest (c : Cluster) (s : State) : Action → Bool
  | .getReservations w _ =>
    decide ((existing s.server.get (c.host w) (c.ppid w)).isSome → s.server.done)
  | _ => true

theorem retriesAfterAll_of_test (s : State) (a : Action) (h : retryTest c s a) :
    RetriesAfterAll c s a := by
  cases a with
  | getReservations w port =>
    rw [retryTest, decide_eq_true_eq] at h
    exact h
  | _ => trivial

end Example

theorem pair_specs_agree : ∃ s own₀ info₀ own₁ info₁,
    Reach (State.step pair) anyStep (State.initial pair) s ∧
    s.node 0 = .awaited own₀ info₀ ∧ s.node 1 = .awaited own₁ info₁ ∧
    clusterSpec info₀ = clusterSpec info₁ := by
  obtain ⟨s, hReach, hTest⟩ := exists_reach_of_exec (State.step pair) (State.initial pair) always
    anyStep_of_always registerBoth
    (fun s => (s.node 0).isAwaited && (s.node 1).isAwaited) rfl
  rw [Bool.and_eq_true] at hTest
  obtain ⟨own₀, info₀, hZero⟩ := Phase.exists_awaited hTest.1
  obtain ⟨own₁, info₁, hOne⟩ := Phase.exists_awaited hTest.2
  obtain ⟨spec, hAgree⟩ := awaited_specs_agree pair s hReach
  refine ⟨s, own₀, info₀, own₁, info₁, hReach, hZero, hOne, ?_⟩
  exact (hAgree 0 own₀ info₀ hZero).1.trans (hAgree 1 own₁ info₁ hOne).1.symm

theorem late_retry_starts_complete : ∃ s own info,
    Reach (State.step pair) (RetriesAfterAll pair) (State.initial pair) s ∧
    s.node 0 = .retried own info ∧ ∃ nodes, pair.Describes info (clusterSpec info) nodes := by
  obtain ⟨s, hReach, hTest⟩ := exists_reach_of_exec (State.step pair) (State.initial pair)
    (retryTest pair) retriesAfterAll_of_test (registerBoth ++ [.fail 0, .getReservations 0 5002])
    (fun s => (s.node 0).retriedWith 2) rfl
  obtain ⟨own, info, hRetried, -⟩ := Phase.exists_retried hTest
  exact ⟨s, own, info, hReach, hRetried,
    starts_complete pair s hReach 0 own info (.inr hRetried)⟩

/-- The parameter server registers, fails and is executed again before the worker registers. -/
theorem early_retry_starts_incomplete : ¬∀ (c : Cluster) (s : State),
    Reach (State.step c) anyStep (State.initial c) s → StartsComplete c s := by
  intro hAll
  obtain ⟨s, hReach, hTest⟩ := exists_reach_of_exec (State.step pair) (State.initial pair) always
    anyStep_of_always
    [.getReservations 0 5000, .register 0, .fail 0, .getReservations 0 5002]
    (fun s => (s.node 0).retriedWith 1) rfl
  obtain ⟨own, info, hRetried, hLength⟩ := Phase.exists_retried hTest
  obtain ⟨nodes, hDescribes⟩ := hAll pair s hReach 0 own info (.inr hRetried)
  have hNums := congrArg length hDescribes.workerNums
  rw [length_map, hDescribes.perm.length_eq, hLength] at hNums
  exact absurd hNums (by decide)

end TensorFlowOnSpark.Reservation
