import Mathlib.Data.Nat.Notation

/-!
# `RdmaBuffer`

The class that the message, ack and tensor buffers of a channel share: a piece of
registered memory, what is known of the peer's memory for it, two status flags and a job
queue.
-/

namespace TensorFlowOnSpark.Rdma

inductive BufferStatus where
  | none | idle | busy
  deriving DecidableEq, Repr

inductive Location where
  | localSide | remoteSide
  deriving DecidableEq, Repr

structure RemoteMR where
  remoteAddr : UInt64
  rkey : UInt32
  deriving DecidableEq, Repr

/-- `ι` is what the job queue holds, `μ` what the memory can hold. `self` is the address and the
key of the memory, once it is registered; `contents` what was last put there since it was
allocated; `allocations` tells one allocation from the next. The constructor leaves `remote`
uninitialised. -/
structure RdmaBuffer (ι μ : Type) where
  self : Option RemoteMR := none
  size : Nat := 0
  contents : Option μ := none
  allocations : Nat := 0
  remote : Option RemoteMR := none
  queue : List ι := []
  localStatus : BufferStatus := .none
  remoteStatus : BufferStatus := .none

namespace RdmaBuffer

variable {ι μ : Type}

def setBufferStatus (b : RdmaBuffer ι μ) (loc : Location) (status : BufferStatus) :
    RdmaBuffer ι μ :=
  match loc with
  | .localSide => { b with localStatus := status }
  | .remoteSide => { b with remoteStatus := status }

/-- `region` is what `malloc` and `ibv_reg_mr` return. `none` is a failed `CHECK(size > 0)`. -/
def createCPUBuffer (b : RdmaBuffer ι μ) (size : Nat) (region : RemoteMR) :
    Option (RdmaBuffer ι μ) :=
  if 0 < size then
    some { b with
      self := some region, size := size, contents := none, allocations := b.allocations + 1
      localStatus := .idle }
  else none

/-- `none` is a failed `CHECK` that the region is the one already known. -/
def setRemoteMR (b : RdmaBuffer ι μ) (rmr : RemoteMR) (override : Bool) :
    Option (RdmaBuffer ι μ) :=
  if override ∨ b.remoteStatus = .none then
    some { b with remote := some rmr, remoteStatus := .idle }
  else if b.remote = some rmr then some b
  else none

def enqueueItem (b : RdmaBuffer ι μ) (item : ι) : RdmaBuffer ι μ :=
  { b with queue := b.queue ++ [item] }

def Ready (b : RdmaBuffer ι μ) : Prop := b.localStatus = .idle ∧ b.remoteStatus = .idle

instance (b : RdmaBuffer ι μ) : Decidable b.Ready := inferInstanceAs (Decidable (_ ∧ _))

def markBusy (b : RdmaBuffer ι μ) : RdmaBuffer ι μ :=
  { b with localStatus := .busy, remoteStatus := .busy }

end RdmaBuffer

/-- Writers that have set the flags and have not posted, posted writes that the peer has not
released, and posted writes that have not completed locally. -/
structure Ledger where
  localStatus : BufferStatus
  remoteStatus : BufferStatus
  posting : Nat
  outstanding : Nat
  uncompleted : Nat
  unanswered : Nat

namespace Ledger

inductive Move (maySend mayGrow : Ledger → Prop) : Ledger → Ledger → Prop where
  | stay (l : Ledger) : Move maySend mayGrow l l
  | allocate (l : Ledger)
      (free : l.localStatus = .none ∨
        mayGrow l ∧ l.localStatus = .idle ∧ l.remoteStatus = .idle) :
      Move maySend mayGrow l { l with localStatus := .idle, unanswered := l.unanswered + 1 }
  | start (l : Ledger) (localIdle : l.localStatus = .idle) (remoteIdle : l.remoteStatus = .idle)
      (ok : maySend l) :
      Move maySend mayGrow l
        { l with localStatus := .busy, remoteStatus := .busy, posting := l.posting + 1 }
  | post (l : Ledger) (n : Nat) (writer : l.posting = n + 1) :
      Move maySend mayGrow l
        { l with
          posting := n, outstanding := l.outstanding + 1, uncompleted := l.uncompleted + 1 }
  | complete (l : Ledger) (n : Nat) (posted : l.uncompleted = n + 1) :
      Move maySend mayGrow l { l with localStatus := .idle, uncompleted := n }
  | release (l : Ledger) (n : Nat) (posted : l.outstanding = n + 1) :
      Move maySend mayGrow l { l with remoteStatus := .idle, outstanding := n }
  | learn (l : Ledger) (request : 0 < l.unanswered) :
      Move maySend mayGrow l { l with remoteStatus := .idle }
  | resetLocal (l : Ledger) (request : 0 < l.unanswered) :
      Move maySend mayGrow l { l with localStatus := .idle }
  | answered (l : Ledger) (n : Nat) (request : l.unanswered = n + 1) :
      Move maySend mayGrow l { l with remoteStatus := .idle, unanswered := n }

variable {maySend mayGrow : Ledger → Prop}

theorem Move.of_eq {l l' : Ledger} (h : l' = l) :
    Move maySend mayGrow l l' := by
  subst h
  exact .stay l'

structure Exclusive (l : Ledger) : Prop where
  remoteOwner : l.posting + l.outstanding ≤ 1
  localOwner : l.posting + l.uncompleted ≤ 1
  settled : 0 < l.unanswered → l.posting + l.outstanding + l.uncompleted = 0
  remoteBusy : 0 < l.posting + l.outstanding → l.remoteStatus = .busy
  localBusy : 0 < l.posting + l.uncompleted → l.localStatus = .busy
  allocated : l.localStatus = .none → l.posting + l.outstanding + l.uncompleted = 0

structure Flagged (l : Ledger) : Prop where
  localBusy : l.localStatus = .busy → 0 < l.posting + l.uncompleted
  remoteBusy : l.remoteStatus = .busy → 0 < l.posting + l.outstanding
  known : l.localStatus ≠ .none → l.remoteStatus = .none → 0 < l.unanswered
  allocated : l.localStatus = .none →
    l.posting + l.outstanding + l.uncompleted + l.unanswered = 0

def Settled (l : Ledger) : Prop := l.unanswered = 0

variable {l l' : Ledger}

theorem Exclusive.free (h : l.Exclusive)
    (hFree : l.localStatus = .none ∨ l.localStatus = .idle ∧ l.remoteStatus = .idle) :
    l.posting + l.outstanding + l.uncompleted = 0 := by
  rcases hFree with hNone | ⟨hLocal, hRemote⟩
  · exact h.allocated hNone
  · have hOut : ¬0 < l.posting + l.outstanding := by
      intro hPos
      have hBusy := h.remoteBusy hPos
      rw [hRemote] at hBusy
      cases hBusy
    have hUnc : ¬0 < l.posting + l.uncompleted := by
      intro hPos
      have hBusy := h.localBusy hPos
      rw [hLocal] at hBusy
      cases hBusy
    omega

theorem Exclusive.move {mayGrow : Ledger → Prop} (h : l.Exclusive)
    (hMove : Move Settled mayGrow l l') : l'.Exclusive := by
  obtain ⟨hRemote, hLocal, hSettled, hRemoteBusy, hLocalBusy, hAllocated⟩ := id h
  cases hMove with
  | stay => exact h
  | allocate free =>
    constructor <;> grind
  | start localIdle remoteIdle ok =>
    have hZero : l.unanswered = 0 := ok
    constructor <;> grind
  | post n writer =>
    constructor <;> grind
  | complete n posted =>
    constructor <;> grind
  | release n posted =>
    constructor <;> grind
  | learn request =>
    constructor <;> grind
  | resetLocal request =>
    constructor <;> grind
  | answered n request =>
    constructor <;> grind

theorem Flagged.memory (h : l.Flagged)
    (hPos : 0 < l.posting + l.outstanding + l.uncompleted + l.unanswered) :
    l.localStatus ≠ .none := by
  intro hNone
  have hZero := h.allocated hNone
  omega

theorem Flagged.move (h : l.Flagged) (hMove : Move maySend mayGrow l l') : l'.Flagged := by
  obtain ⟨hLocal, hRemote, hKnown, hAllocated⟩ := id h
  cases hMove with
  | stay => exact h
  | complete n posted =>
    have hMemory := h.memory (by omega)
    constructor <;> grind
  | _ => constructor <;> grind

theorem Flagged.pending (h : l.Flagged) (hMemory : l.localStatus ≠ .none)
    (hBusy : ¬(l.localStatus = .idle ∧ l.remoteStatus = .idle)) :
    0 < l.posting + l.outstanding + l.uncompleted + l.unanswered := by
  cases hLocal : l.localStatus with
  | none => exact absurd hLocal hMemory
  | busy =>
    have hPos := h.localBusy hLocal
    omega
  | idle =>
    cases hRemote : l.remoteStatus with
    | none =>
      have hPos := h.known hMemory hRemote
      omega
    | busy =>
      have hPos := h.remoteBusy hRemote
      omega
    | idle => exact absurd ⟨hLocal, hRemote⟩ hBusy

structure Single (l : Ledger) : Prop where
  flagged : l.Flagged
  unallocated : l.localStatus = .none → l.remoteStatus = .none
  single : l.unanswered ≤ 1
  writer : 0 < l.posting + l.outstanding → l.remoteStatus ≠ .none

theorem Single.move {maySend : Ledger → Prop} (h : l.Single)
    (hMove : Move maySend (fun _ => False) l l') : l'.Single := by
  have hNext := h.flagged.move hMove
  obtain ⟨⟨-, -, -, hAllocated⟩, hUnallocated, hSingle, hWriter⟩ := id h
  cases hMove with
  | stay => exact h
  | allocate free =>
    constructor <;> grind
  | complete n posted =>
    constructor <;> grind
  | _ => constructor <;> grind

end Ledger

end TensorFlowOnSpark.Rdma
