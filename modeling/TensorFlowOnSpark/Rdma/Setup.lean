import TensorFlowOnSpark.Lib.Transition
import TensorFlowOnSpark.Rdma.Buffer
import TensorFlowOnSpark.Rdma.Message
import Mathlib.Data.Fin.VecNotation
import Mathlib.Data.List.FinRange

/-!
# Setting up the channels of a cluster

Every worker has one channel object for every other worker.
-/

namespace TensorFlowOnSpark.Rdma.Setup

open Transition List Function

structure RdmaAddress where
  lid : UInt32
  qpn : UInt32
  psn : UInt32
  deriving DecidableEq

/-- `worker.proto` keeps the three numbers as `int32`. -/
structure ChannelProto where
  lid : Int32
  qpn : Int32
  psn : Int32

def RdmaAddress.toProto (ra : RdmaAddress) : ChannelProto :=
  ⟨ra.lid.toInt32, ra.qpn.toInt32, ra.psn.toInt32⟩

def RdmaAddress.ofProto (p : ChannelProto) : RdmaAddress :=
  ⟨p.lid.toUInt32, p.qpn.toUInt32, p.psn.toUInt32⟩

abbrev MessageBuffer := RdmaBuffer (List UInt8) (List UInt8)

local instance instNeZeroFour : NeZero 4 := Nat.instNeZeroSucc

def txMessage : Fin 4 := 0
def rxMessage : Fin 4 := 1
def txAck : Fin 4 := 2
def rxAck : Fin 4 := 3

structure RdmaChannel where
  self : RdmaAddress
  messageBuffers : Fin 4 → MessageBuffer
  remote : Option RdmaAddress := none
  connected : Option RdmaAddress := none

/-- The array `idx`: what one peer transmits from, the other receives in. -/
def crossed : Fin 4 → Fin 4 := ![1, 0, 3, 2]

/-- `GetRemoteAddressRequest` and `GetRemoteAddressResponse`, which have the same fields. -/
structure RemoteAddressMessage (W : Type) where
  hostName : W
  channel : ChannelProto
  mr : List RemoteMR

inductive Check where
  | setRemoteAddress | setRemoteMR | remoteSet | hostName | numMessageBuffers
  deriving DecidableEq

namespace RdmaChannel

def setRemoteAddress (c : RdmaChannel) (ra : RdmaAddress) (override : Bool) : Option RdmaChannel :=
  if override ∨ c.remote = none then some { c with remote := some ra }
  else if c.remote = some ra then some c
  else none

def message {W : Type} (c : RdmaChannel) (hostName : W) : RemoteAddressMessage W :=
  ⟨hostName, c.self.toProto, (finRange 4).filterMap fun i => (c.messageBuffers i).self⟩

end RdmaChannel

inductive Section where
  | setRemoteAddress (ra : RdmaAddress)
  | checkRemote
  | connect
  | setRemoteMR (i : Nat) (mr : RemoteMR)

def sections {W : Type} (m : RemoteAddressMessage W) : List Section :=
  .setRemoteAddress (.ofProto m.channel) :: .checkRemote :: .connect ::
    m.mr.zipIdx.map fun item => .setRemoteMR item.2 item.1

def runSection (c : RdmaChannel) : Section → Except Check RdmaChannel
  | .setRemoteAddress ra =>
    match c.setRemoteAddress ra false with
    | some c' => .ok c'
    | none => .error .setRemoteAddress
  | .checkRemote => if c.remote.isSome then .ok c else .error .remoteSet
  | .connect => .ok (if c.connected.isSome then c else { c with connected := c.remote })
  | .setRemoteMR i mr =>
    if h : i < 4 then
      match (c.messageBuffers (crossed ⟨i, h⟩)).setRemoteMR mr false with
      | some rb => .ok { c with
          messageBuffers := update c.messageBuffers (crossed ⟨i, h⟩) rb }
      | none => .error .setRemoteMR
    else .error .numMessageBuffers

inductive Exchange (W : Type) where
  | notStarted
  | requested (req : RemoteAddressMessage W)
  | handling (req : RemoteAddressMessage W) (todo : List Section)
  | responded (resp : RemoteAddressMessage W)
  | callback (resp : RemoteAddressMessage W) (todo : List Section)
  | finished

structure Cluster (W : Type) where
  channel : W → W → RdmaChannel
  exchange : W → W → Exchange W

variable {W : Type} [DecidableEq W]

def Cluster.setChannel (s : Cluster W) (a b : W) (c : RdmaChannel) : Cluster W :=
  { s with channel := update s.channel a (update (s.channel a) b c) }

def Cluster.setExchange (s : Cluster W) (a b : W) (e : Exchange W) : Cluster W :=
  { s with exchange := update s.exchange a (update (s.exchange a) b e) }

def step (s : Cluster W) (p : W × W) : Outcome (Cluster W) Check :=
  let (a, b) := p
  if a = b then .blocked
  else
    match s.exchange a b with
    | .notStarted => .next (s.setExchange a b (.requested ((s.channel a b).message a)))
    | .requested req => .next (s.setExchange a b (.handling req (sections req)))
    | .handling req (sec :: todo) =>
      match runSection (s.channel b req.hostName) sec with
      | .ok c => .next ((s.setChannel b req.hostName c).setExchange a b (.handling req todo))
      | .error check => .failed check
    | .handling req [] =>
      if req.mr.length = 4 then
        .next (s.setExchange a b (.responded ((s.channel b req.hostName).message b)))
      else .failed .numMessageBuffers
    | .responded resp =>
      if resp.hostName = b then .next (s.setExchange a b (.callback resp (sections resp)))
      else .failed .hostName
    | .callback resp (sec :: todo) =>
      match runSection (s.channel a b) sec with
      | .ok c => .next ((s.setChannel a b c).setExchange a b (.callback resp todo))
      | .error check => .failed check
    | .callback resp [] =>
      if resp.mr.length = 4 then .next (s.setExchange a b .finished)
      else .failed .numMessageBuffers
    | .finished => .blocked

/-- A channel as its constructor leaves it, with `CreateCPUBuffer` done for each buffer. -/
def RdmaChannel.new (self : RdmaAddress) (region : Fin 4 → RemoteMR) : RdmaChannel where
  self := self
  messageBuffers i :=
    { self := some (region i), size := RdmaMessage.kMessageTotalBytes, allocations := 1
      localStatus := .idle }

example (mr : RemoteMR) :
    RdmaBuffer.createCPUBuffer ({} : MessageBuffer) RdmaMessage.kMessageTotalBytes mr =
      some ((RdmaChannel.new ⟨0, 0, 0⟩ fun _ => mr).messageBuffers 0) := rfl

def Cluster.initial (address : W → W → RdmaAddress) (region : W → W → Fin 4 → RemoteMR) :
    Cluster W where
  channel a b := .new (address a b) (region a b)
  exchange _ _ := .notStarted

theorem crossed_crossed (i : Fin 4) : crossed (crossed i) = i := by
  revert i
  decide

structure Configured (address peerAddress : RdmaAddress) (region peerRegion : Fin 4 → RemoteMR)
    (c : RdmaChannel) : Prop where
  self : c.self = address
  regions : ∀ i, (c.messageBuffers i).self = some (region i)
  remote : ∀ ra, c.remote = some ra → ra = peerAddress
  remoteMR : ∀ i, (c.messageBuffers i).remoteStatus ≠ .none →
    (c.messageBuffers i).remote = some (peerRegion (crossed i))

def Applied (c : RdmaChannel) : Section → Prop
  | .setRemoteAddress ra => c.remote = some ra
  | .checkRemote => True
  | .connect => True
  | .setRemoteMR i _ => ∀ h : i < 4, (c.messageBuffers (crossed ⟨i, h⟩)).remoteStatus ≠ .none

def Truthful (peerAddress : RdmaAddress) (peerRegion : Fin 4 → RemoteMR) : Section → Prop
  | .setRemoteAddress ra => ra = peerAddress
  | .checkRemote => True
  | .connect => True
  | .setRemoteMR i mr => ∃ h : i < 4, mr = peerRegion ⟨i, h⟩

variable {sec : Section}

section RunSection

variable {address peerAddress : RdmaAddress} {region peerRegion : Fin 4 → RemoteMR}
  {c : RdmaChannel}

theorem setRemoteAddress_spec (h : Configured address peerAddress region peerRegion c) :
    c.setRemoteAddress peerAddress false = some { c with remote := some peerAddress } := by
  rw [RdmaChannel.setRemoteAddress]
  cases hRemote : c.remote with
  | none => simp
  | some ra =>
    have hEq := h.remote ra hRemote
    subst hEq
    rw [if_pos rfl]
    cases c
    cases hRemote
    rfl

theorem setRemoteMR_spec (b : MessageBuffer) (mr : RemoteMR)
    (h : b.remoteStatus ≠ .none → b.remote = some mr) :
    ∃ b', b.setRemoteMR mr false = some b' ∧ b'.self = b.self ∧ b'.remote = some mr ∧
      b'.remoteStatus ≠ .none := by
  rw [RdmaBuffer.setRemoteMR]
  by_cases hNone : b.remoteStatus = .none
  · exact ⟨{ b with remote := some mr, remoteStatus := .idle },
      by rw [if_pos (.inr hNone)], rfl, rfl, by simp⟩
  · exact ⟨b, by rw [if_neg (by simp [hNone]), if_pos (h hNone)], rfl, h hNone, hNone⟩

theorem runSection_spec (h : Configured address peerAddress region peerRegion c)
    (hTrue : Truthful peerAddress peerRegion sec) (hCheck : sec = .checkRemote → c.remote.isSome) :
    ∃ c', runSection c sec = .ok c' ∧ Configured address peerAddress region peerRegion c' ∧
      Applied c' sec ∧ ∀ other, Applied c other → Applied c' other := by
  cases sec with
  | setRemoteAddress ra =>
    cases hTrue
    rw [runSection, setRemoteAddress_spec h]
    refine ⟨_, rfl, ⟨h.self, h.regions, ?_, h.remoteMR⟩, rfl, ?_⟩
    · intro ra hRa
      cases hRa
      rfl
    · intro other hOther
      cases other with
      | setRemoteAddress ra => rw [h.remote ra hOther]; rfl
      | checkRemote => trivial
      | connect => trivial
      | setRemoteMR i mr => exact hOther
  | checkRemote =>
    rw [runSection, if_pos (hCheck rfl)]
    exact ⟨c, rfl, h, trivial, fun _ hOther => hOther⟩
  | connect =>
    refine ⟨_, rfl, ?_⟩
    split
    · exact ⟨h, trivial, fun _ hOther => hOther⟩
    · refine ⟨⟨h.self, h.regions, h.remote, h.remoteMR⟩, trivial, ?_⟩
      intro other hOther
      cases other <;> exact hOther
  | setRemoteMR i mr =>
    obtain ⟨hi, rfl⟩ := hTrue
    obtain ⟨b', hSet, hSelf, hRemote, hStatus⟩ :=
      setRemoteMR_spec (c.messageBuffers (crossed ⟨i, hi⟩)) (peerRegion ⟨i, hi⟩)
        (by simpa only [crossed_crossed] using h.remoteMR (crossed ⟨i, hi⟩))
    rw [runSection, dif_pos hi, hSet]
    refine ⟨_, rfl, ⟨h.self, ?_, h.remote, ?_⟩, ?_, ?_⟩
    · intro j
      by_cases hj : j = crossed ⟨i, hi⟩
      · subst hj
        simpa only [update_self, hSelf] using h.regions _
      · simpa only [update_of_ne hj] using h.regions j
    · intro j
      by_cases hj : j = crossed ⟨i, hi⟩
      · subst hj
        simp only [update_self, crossed_crossed, hRemote, implies_true]
      · simpa only [update_of_ne hj] using h.remoteMR j
    · intro _
      simpa only [update_self] using hStatus
    · intro other hOther
      cases other with
      | setRemoteAddress ra => exact hOther
      | checkRemote => trivial
      | connect => trivial
      | setRemoteMR j mr =>
        intro hj
        by_cases hEq : crossed ⟨j, hj⟩ = crossed ⟨i, hi⟩
        · simpa only [hEq, update_self] using hStatus
        · simpa only [update_of_ne hEq] using hOther hj

end RunSection

variable {W : Type}

structure Progress (m : RemoteAddressMessage W) (todo : List Section) (c : RdmaChannel) : Prop where
  suffix : todo <:+ sections m
  applied : ∀ sec ∈ sections m, sec ∈ todo ∨ Applied c sec

theorem Progress.start (m : RemoteAddressMessage W) (c : RdmaChannel) :
    Progress m (sections m) c := ⟨suffix_rfl, fun _ hMem => .inl hMem⟩

variable {m : RemoteAddressMessage W} {todo : List Section} {c : RdmaChannel}

theorem Progress.mono {c' : RdmaChannel} (hMono : ∀ sec, Applied c sec → Applied c' sec)
    (h : Progress m todo c) : Progress m todo c' :=
  ⟨h.suffix, fun sec hMem => (h.applied sec hMem).imp_right (hMono sec)⟩

theorem Progress.advance {c' : RdmaChannel} (h : Progress m (sec :: todo) c)
    (hApplied : Applied c' sec) (hMono : ∀ other, Applied c other → Applied c' other)
    : Progress m todo c' := by
  refine ⟨(suffix_cons sec todo).trans h.suffix, ?_⟩
  intro other hMem
  rcases h.applied other hMem with hTodo | hDone
  · rcases mem_cons.mp hTodo with rfl | hTodo
    · exact .inr hApplied
    · exact .inl hTodo
  · exact .inr (hMono other hDone)

theorem Progress.remote_isSome (h : Progress m (.checkRemote :: todo) c) : c.remote.isSome := by
  have hTail : Section.checkRemote :: todo <:+
      .checkRemote :: .connect :: m.mr.zipIdx.map fun item => .setRemoteMR item.2 item.1 := by
    rcases suffix_cons_iff.mp h.suffix with hEq | hTail
    · cases hEq
    · exact hTail
  rcases h.applied _ mem_cons_self with hMem | hApplied
  · have hIn := hTail.subset hMem
    simp at hIn
  · rw [show c.remote = _ from hApplied]
    rfl

section Agreement

variable (address : W → W → RdmaAddress) (region : W → W → Fin 4 → RemoteMR)

/-- What worker `a` tells worker `b` of its channel, in a request as in a response. -/
def description (a b : W) : RemoteAddressMessage W :=
  ⟨a, (address a b).toProto, (finRange 4).map (region a b)⟩

def ExchangeSound (ca cb : RdmaChannel) (a b : W) : Exchange W → Prop
  | .notStarted => True
  | .requested req => req = description address region a b
  | .handling req todo => req = description address region a b ∧ Progress req todo cb
  | .responded resp => resp = description address region b a
  | .callback resp todo => resp = description address region b a ∧ Progress resp todo ca
  | .finished => ∀ sec ∈ sections (description address region b a), Applied ca sec

structure ClusterSound (s : Cluster W) : Prop where
  configured : ∀ a b, a ≠ b →
    Configured (address a b) (address b a) (region a b) (region b a) (s.channel a b)
  exchange : ∀ a b, a ≠ b →
    ExchangeSound address region (s.channel a b) (s.channel b a) a b (s.exchange a b)

variable {address region}

variable {a b : W}

theorem truthful_of_mem_sections (h : sec ∈ sections (description address region a b)) :
    Truthful (address a b) (region a b) sec := by
  simp only [sections, description, mem_cons, mem_map, Prod.exists] at h
  rcases h with rfl | rfl | rfl | ⟨mr, i, hMem, rfl⟩
  · rfl
  · trivial
  · trivial
  · have hGet := mem_zipIdx_iff_getElem?.mp hMem
    obtain ⟨hi, hEq⟩ := List.getElem?_eq_some_iff.mp hGet
    refine ⟨by simpa using hi, ?_⟩
    simpa using hEq.symm

theorem message_eq_description {c : RdmaChannel} {peerAddress : RdmaAddress}
    {peerRegion : Fin 4 → RemoteMR}
    (h : Configured (address a b) peerAddress (region a b) peerRegion c) :
    c.message a = description address region a b := by
  have hRegions : (fun i => (c.messageBuffers i).self) = fun i => some (region a b i) :=
    funext h.regions
  rw [RdmaChannel.message, description, h.self, hRegions, filterMap_eq_map']

theorem ExchangeSound.mono {ca cb ca' cb' : RdmaChannel} {e : Exchange W}
    (hA : ∀ sec, Applied ca sec → Applied ca' sec) (hB : ∀ sec, Applied cb sec → Applied cb' sec)
    (h : ExchangeSound address region ca cb a b e) :
    ExchangeSound address region ca' cb' a b e := by
  cases e with
  | notStarted => trivial
  | requested req => exact h
  | handling req todo => exact ⟨h.1, h.2.mono hB⟩
  | responded resp => exact h
  | callback resp todo => exact ⟨h.1, h.2.mono hA⟩
  | finished => exact fun sec hMem => hA sec (h sec hMem)

theorem clusterSound_initial : ClusterSound address region (Cluster.initial address region) := by
  refine ⟨?_, fun _ _ _ => trivial⟩
  intro a b _
  refine ⟨rfl, fun _ => rfl, ?_, ?_⟩
  · intro ra hRa
    cases hRa
  · intro i hStatus
    exact absurd rfl hStatus

theorem remote_of_finished {s : Cluster W} (h : ClusterSound address region s)
    (hab : a ≠ b) (hFinished : s.exchange a b = .finished) :
    (s.channel a b).remote = some (address b a) ∧
      ∀ i, ((s.channel a b).messageBuffers i).remote = some (region b a (crossed i)) := by
  have hApplied := h.exchange a b hab
  rw [hFinished] at hApplied
  refine ⟨hApplied (.setRemoteAddress (address b a)) mem_cons_self, ?_⟩
  intro i
  apply (h.configured a b hab).remoteMR i
  have hMem : Section.setRemoteMR (crossed i) (region b a (crossed i)) ∈
      sections (description address region b a) := by
    simp only [sections, description, mem_cons, mem_map]
    refine .inr (.inr (.inr ⟨⟨region b a (crossed i), crossed i⟩, ?_, rfl⟩))
    simp [mem_zipIdx_iff_getElem?]
  have hDone := hApplied _ hMem (crossed i).isLt
  rwa [Fin.eta, crossed_crossed] at hDone

variable [DecidableEq W]

theorem Cluster.setChannel_self (s : Cluster W) (a b : W) (c : RdmaChannel) :
    (s.setChannel a b c).channel a b = c := by
  simp [Cluster.setChannel]

variable {a b x y : W} {s : Cluster W}

theorem update_update_of_ne {α : Type} (f : W → W → α) (value : α)
    (hNe : ¬(x = a ∧ y = b)) : update f a (update (f a) b value) x y = f x y := by
  by_cases hx : x = a
  · subst hx
    have hy : y ≠ b := fun hy => hNe ⟨rfl, hy⟩
    rw [update_self, update_of_ne hy]
  · rw [update_of_ne hx]

theorem Cluster.setChannel_of_ne (s : Cluster W) (c : RdmaChannel)
    (hNe : ¬(x = a ∧ y = b)) : (s.setChannel a b c).channel x y = s.channel x y :=
  update_update_of_ne s.channel c hNe

theorem Cluster.setExchange_self (s : Cluster W) (a b : W) (e : Exchange W) :
    (s.setExchange a b e).exchange a b = e := by
  simp [Cluster.setExchange]

theorem Cluster.setExchange_of_ne (s : Cluster W) (e : Exchange W)
    (hNe : ¬(x = a ∧ y = b)) : (s.setExchange a b e).exchange x y = s.exchange x y :=
  update_update_of_ne s.exchange e hNe

section

variable (h : ClusterSound address region s)
include h

theorem ClusterSound.setExchange
    {e : Exchange W} (hSound : ExchangeSound address region (s.channel a b) (s.channel b a) a b e) :
    ClusterSound address region (s.setExchange a b e) := by
  refine ⟨h.configured, ?_⟩
  intro x y hxy
  by_cases hEq : x = a ∧ y = b
  · obtain ⟨rfl, rfl⟩ := hEq
    rw [Cluster.setExchange_self]
    exact hSound
  · rw [Cluster.setExchange_of_ne s e hEq]
    exact h.exchange x y hxy

theorem ClusterSound.setChannel {c : RdmaChannel}
    (hConf : Configured (address a b) (address b a) (region a b) (region b a) c)
    (hMono : ∀ sec, Applied (s.channel a b) sec → Applied c sec) :
    ClusterSound address region (s.setChannel a b c) := by
  have hGrow : ∀ x y sec, Applied (s.channel x y) sec →
      Applied ((s.setChannel a b c).channel x y) sec := by
    intro x y sec hApplied
    by_cases hEq : x = a ∧ y = b
    · obtain ⟨rfl, rfl⟩ := hEq
      rw [Cluster.setChannel_self]
      exact hMono sec hApplied
    · rw [Cluster.setChannel_of_ne s c hEq]
      exact hApplied
  refine ⟨?_, fun x y hxy => (h.exchange x y hxy).mono (hGrow x y) (hGrow y x)⟩
  intro x y hxy
  by_cases hEq : x = a ∧ y = b
  · obtain ⟨rfl, rfl⟩ := hEq
    rw [Cluster.setChannel_self]
    exact hConf
  · rw [Cluster.setChannel_of_ne s c hEq]
    exact h.configured x y hxy

theorem section_step (hNe : b ≠ a) {todo : List Section}
    (hProgress : Progress (description address region a b) (sec :: todo) (s.channel b a)) :
    ∃ c, runSection (s.channel b a) sec = .ok c ∧
      ClusterSound address region (s.setChannel b a c) ∧
      Progress (description address region a b) todo ((s.setChannel b a c).channel b a) := by
  have hTrue : Truthful (address a b) (region a b) sec :=
    truthful_of_mem_sections (hProgress.suffix.subset mem_cons_self)
  have hCheck : sec = .checkRemote → (s.channel b a).remote.isSome := by
    rintro rfl
    exact hProgress.remote_isSome
  obtain ⟨c, hRun, hConf, hApplied, hMono⟩ := runSection_spec (h.configured b a hNe) hTrue hCheck
  refine ⟨c, hRun, h.setChannel hConf hMono, ?_⟩
  rw [Cluster.setChannel_self]
  exact hProgress.advance hApplied hMono

theorem step_spec (p : W × W) :
    step s p = .blocked ∨ ∃ s', step s p = .next s' ∧ ClusterSound address region s' := by
  obtain ⟨a, b⟩ := p
  by_cases hab : a = b
  · exact .inl (by simp [step, hab])
  have hSound := h.exchange a b hab
  cases hE : s.exchange a b with
  | notStarted =>
    simp only [step, if_neg hab, hE]
    exact .inr ⟨_, rfl, h.setExchange (message_eq_description (h.configured a b hab))⟩
  | requested req =>
    rw [hE] at hSound
    simp only [step, if_neg hab, hE]
    refine .inr ⟨_, rfl, h.setExchange ?_⟩
    exact ⟨hSound, Progress.start req _⟩
  | handling req todo =>
    rw [hE] at hSound
    obtain ⟨rfl, hProgress⟩ := hSound
    cases todo with
    | nil =>
      simp only [step, if_neg hab, hE]
      refine .inr ⟨_, rfl, h.setExchange ?_⟩
      exact message_eq_description (h.configured b a (Ne.symm hab))
    | cons sec todo =>
      obtain ⟨c, hRun, hNext, hProgress'⟩ := section_step h (Ne.symm hab) hProgress
      have hHost : (description address region a b).hostName = a := rfl
      simp only [step, if_neg hab, hE, hHost, hRun]
      refine .inr ⟨_, rfl, hNext.setExchange ?_⟩
      exact ⟨rfl, hProgress'⟩
  | responded resp =>
    rw [hE] at hSound
    cases hSound
    have hHost : (description address region b a).hostName = b := rfl
    simp only [step, if_neg hab, hE, hHost]
    refine .inr ⟨_, rfl, h.setExchange ?_⟩
    exact ⟨rfl, Progress.start _ _⟩
  | callback resp todo =>
    rw [hE] at hSound
    obtain ⟨rfl, hProgress⟩ := hSound
    cases todo with
    | nil =>
      simp only [step, if_neg hab, hE]
      refine .inr ⟨_, rfl, h.setExchange ?_⟩
      intro sec hMem
      exact (hProgress.applied sec hMem).resolve_left not_mem_nil
    | cons sec todo =>
      obtain ⟨c, hRun, hNext, hProgress'⟩ := section_step h hab hProgress
      simp only [step, if_neg hab, hE, hRun]
      refine .inr ⟨_, rfl, hNext.setExchange ?_⟩
      exact ⟨rfl, hProgress'⟩
  | finished => exact .inl (by simp only [step, if_neg hab, hE])

end

theorem clusterSound_of_reach (hReach : Reach step anyStep (Cluster.initial address region) s) :
    ClusterSound address region s := by
  refine hReach.invariant (ClusterSound address region) clusterSound_initial ?_
  intro s p s' hSound _ hStep
  rcases step_spec hSound p with hBlocked | ⟨s'', hNext, hSound'⟩
  · rw [hBlocked] at hStep
    cases hStep
  · rw [hNext] at hStep
    cases hStep
    exact hSound'

end Agreement

/-- No check fails in any interleaving, and the configuration is the crossed one at the end. -/
theorem setup_agreement {W : Type} [DecidableEq W] (address : W → W → RdmaAddress)
    (region : W → W → Fin 4 → RemoteMR) (s : Cluster W)
    (hReach : Reach step anyStep (Cluster.initial address region) s) :
    (∀ p check, step s p ≠ .failed check) ∧
    ((∀ a b, a ≠ b → s.exchange a b = .finished) → ∀ a b, a ≠ b →
      (s.channel a b).remote = some (s.channel b a).self ∧
      (s.channel b a).self = address b a ∧
      (∀ i, ((s.channel b a).messageBuffers i).self = some (region b a i)) ∧
      ((s.channel a b).messageBuffers txMessage).remote =
        ((s.channel b a).messageBuffers rxMessage).self ∧
      ((s.channel a b).messageBuffers rxMessage).remote =
        ((s.channel b a).messageBuffers txMessage).self ∧
      ((s.channel a b).messageBuffers txAck).remote =
        ((s.channel b a).messageBuffers rxAck).self ∧
      ((s.channel a b).messageBuffers rxAck).remote =
        ((s.channel b a).messageBuffers txAck).self) := by
  have hSound := clusterSound_of_reach hReach
  constructor
  · intro p check hFailed
    rcases step_spec hSound p with hBlocked | ⟨s', hNext, _⟩
    · rw [hBlocked] at hFailed
      cases hFailed
    · rw [hNext] at hFailed
      cases hFailed
  · intro hFinished a b hab
    obtain ⟨hRemote, hMR⟩ := remote_of_finished hSound hab (hFinished a b hab)
    have hPeer := hSound.configured b a (Ne.symm hab)
    refine ⟨by rw [hRemote, hPeer.self], hPeer.self, hPeer.regions, ?_, ?_, ?_, ?_⟩
    · exact (hMR txMessage).trans (hPeer.regions rxMessage).symm
    · exact (hMR rxMessage).trans (hPeer.regions txMessage).symm
    · exact (hMR txAck).trans (hPeer.regions rxAck).symm
    · exact (hMR rxAck).trans (hPeer.regions txAck).symm

def Exchange.isFinished {W : Type} : Exchange W → Bool
  | .finished => true
  | _ => false

def twoWorkers : Cluster Bool :=
  Cluster.initial (fun a _ => ⟨bif a then 1 else 2, 3, 4⟩)
    fun a _ i => ⟨bif a then 4096 else 8192, UInt32.ofNat i⟩

theorem twoWorkers_finish : ∃ s, Reach step anyStep twoWorkers s ∧
    ((s.exchange false true).isFinished && (s.exchange true false).isFinished) :=
  exists_reach_of_exec step twoWorkers always anyStep_of_always
    (replicate 19 [(false, true), (true, false)]).flatten _ (by decide)

theorem twoWorkers_setup : ∃ s, Reach step anyStep twoWorkers s ∧
    (s.channel false true).remote = some (s.channel true false).self ∧
    ((s.channel false true).messageBuffers txMessage).remote = some ⟨4096, 1⟩ := by
  obtain ⟨s, hReach, hTest⟩ := twoWorkers_finish
  rw [Bool.and_eq_true] at hTest
  have hFinished : ∀ a b, a ≠ b → s.exchange a b = .finished := by
    intro a b hab
    have hOf : ∀ e : Exchange Bool, e.isFinished → e = .finished := by
      rintro (_ | _ | _ | _ | _ | _) hFin
      all_goals first | rfl | cases hFin
    cases a <;> cases b
    · exact absurd rfl hab
    · exact hOf _ hTest.1
    · exact hOf _ hTest.2
    · exact absurd rfl hab
  obtain ⟨-, hAgree⟩ := setup_agreement _ _ s hReach
  obtain ⟨hRemote, -, hRegions, hTx, -⟩ := hAgree hFinished false true (by decide)
  exact ⟨s, hReach, hRemote, hTx.trans (hRegions rxMessage)⟩

end TensorFlowOnSpark.Rdma.Setup
