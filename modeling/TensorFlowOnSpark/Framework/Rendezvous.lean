import Mathlib.Data.List.AList
import TensorFlowOnSpark.Lib.Transition
import TensorFlowOnSpark.Framework.Status

/-!
# The local rendezvous

`LocalRendezvousImpl` of `framework/rendezvous.cc`.
-/

namespace TensorFlowOnSpark.Framework

open Transition

universe u v

/-- `Rendezvous::Args`: the device context and the allocator attributes. -/
structure Args where
  deviceContext : Option Nat := none
  allocAttrs : UInt32 := 0
deriving DecidableEq, Repr

namespace LocalRendezvousImpl

structure Item (D : Type u) (V : Type v) where
  waiter : Option D
  value : V
  isDead : Bool
  hasBeenRecvd : Bool
  sendDevContext : Option Nat
  recvDevContext : Option Nat
  sendAllocAttrs : UInt32
  recvAllocAttrs : UInt32

/-- One call of a `DoneCallback` with its five arguments. -/
structure Invocation (D : Type u) (V : Type v) where
  done : D
  status : Status
  sendArgs : Args
  recvArgs : Args
  value : V
  isDead : Bool

end LocalRendezvousImpl

structure LocalRendezvousImpl (D : Type u) (V : Type v) where
  tolerateDupRecv : Bool
  table : AList (fun _ : UInt64 => LocalRendezvousImpl.Item D V)
  status : Status

namespace LocalRendezvousImpl

variable {D : Type u} {V : Type v}

def Item.ofMessage (sendArgs : Args) (val : V) (isDead : Bool) : Item D V where
  waiter := none
  value := val
  isDead := isDead
  hasBeenRecvd := false
  sendDevContext := sendArgs.deviceContext
  recvDevContext := none
  sendAllocAttrs := sendArgs.allocAttrs
  recvAllocAttrs := 0

def Item.ofWaiter [Inhabited V] (done : D) (recvArgs : Args) : Item D V where
  waiter := some done
  value := default
  isDead := false
  hasBeenRecvd := false
  sendDevContext := none
  recvDevContext := recvArgs.deviceContext
  sendAllocAttrs := 0
  recvAllocAttrs := recvArgs.allocAttrs

/-- What `Send` leaves of an item whose waiter it serves. -/
def Item.met (item : Item D V) (tolerateDupRecv : Bool) (sendArgs : Args) (val : V)
    (isDead : Bool) : Item D V :=
  let item := { item with waiter := none, hasBeenRecvd := true, recvDevContext := none }
  if tolerateDupRecv then
    { item with
      value := val, isDead := isDead,
      sendDevContext := sendArgs.deviceContext <|> item.sendDevContext,
      sendAllocAttrs := sendArgs.allocAttrs }
  else item

/-- What `RecvAsync` leaves of an item whose value it takes. -/
def Item.taken [Inhabited V] (item : Item D V) (tolerateDupRecv : Bool) : Item D V :=
  { item with
    value := if tolerateDupRecv then item.value else default
    hasBeenRecvd := true }

variable (keyHash : String → UInt64)

/-- `Send`: the returned status, the rendezvous after it, the callbacks it invokes. -/
def send (r : LocalRendezvousImpl D V) (key : String) (sendArgs : Args) (val : V)
    (isDead : Bool) : Status × LocalRendezvousImpl D V × List (Invocation D V) :=
  if r.status ≠ .ok then (r.status, r, [])
  else
    match r.table.lookup (keyHash key) with
    | none =>
      let item := Item.ofMessage sendArgs val isDead
      (.ok, { r with table := r.table.insert (keyHash key) item }, [])
    | some item =>
      match item.waiter with
      | none => (Errors.aborted ("Duplicated send: " ++ key), r, [])
      | some waiter =>
        let item' := item.met r.tolerateDupRecv sendArgs val isDead
        (.ok, { r with table := r.table.insert (keyHash key) item' },
          [{ done := waiter, status := .ok, sendArgs := sendArgs,
             recvArgs := ⟨item.recvDevContext, item.recvAllocAttrs⟩, value := val,
             isDead := isDead }])

variable [Inhabited V]

/-- A callback that gets no message: `done(status, Args(), recv_args, Tensor(), false)`. -/
def refuse (done : D) (status : Status) (recvArgs : Args) : Invocation D V :=
  { done := done, status := status, sendArgs := {}, recvArgs := recvArgs, value := default,
    isDead := false }

def recvAsync (r : LocalRendezvousImpl D V) (key : String) (recvArgs : Args) (done : D) :
    LocalRendezvousImpl D V × List (Invocation D V) :=
  if r.status ≠ .ok then (r, [refuse done r.status recvArgs])
  else
    match r.table.lookup (keyHash key) with
    | some item =>
      if item.hasBeenRecvd && !r.tolerateDupRecv then
        (r, [refuse done (Errors.aborted ("Duplicated recv: " ++ key)) recvArgs])
      else if item.waiter.isNone || r.tolerateDupRecv then
        let item' := item.taken r.tolerateDupRecv
        ({ r with table := r.table.insert (keyHash key) item' },
          [{ done := done, status := .ok, sendArgs := ⟨item.sendDevContext, item.sendAllocAttrs⟩,
             recvArgs := recvArgs, value := item.value, isDead := item.isDead }])
      else
        (r, [refuse done (Errors.aborted ("Duplicated recv: " ++ key)) recvArgs])
    | none =>
      let item := Item.ofWaiter done recvArgs
      ({ r with table := r.table.insert (keyHash key) item }, [])

def waiters (r : LocalRendezvousImpl D V) : List D :=
  r.table.entries.filterMap fun entry => entry.2.waiter

/-- `StartAbort` after its check that the status is an error. -/
def startAbort (r : LocalRendezvousImpl D V) (status : Status) :
    LocalRendezvousImpl D V × List (Invocation D V) :=
  if r.status ≠ .ok then (r, [])
  else ({ r with status := status, table := ∅ },
    r.waiters.map fun waiter => refuse waiter status {})

end LocalRendezvousImpl

namespace Rendezvous

open LocalRendezvousImpl

/-- The `RecvAsync` call that brought a callback: its place among these calls, key and args. -/
structure Receive where
  index : Nat
  key : String
  args : Args
deriving DecidableEq, Repr

structure Sent (V : Type v) where
  key : String
  args : Args
  value : V
  isDead : Bool
  result : Status

structure History (V : Type v) where
  rendezvous : LocalRendezvousImpl Receive V
  recvs : List Receive
  sends : List (Sent V)
  invoked : List (Invocation Receive V)

inductive Call (V : Type v) where
  | send (key : String) (args : Args) (value : V) (isDead : Bool)
  | recvAsync (key : String) (args : Args)
  | startAbort (status : Status)

inductive Check where
  | statusNotOk
deriving DecidableEq, Repr

variable {V : Type v} [Inhabited V] (keyHash : String → UInt64)

def step (h : History V) : Call V → Outcome (History V) Check
  | .send key args value isDead =>
    let (result, r, invoked) := h.rendezvous.send keyHash key args value isDead
    .next { h with
      rendezvous := r
      sends := h.sends ++ [⟨key, args, value, isDead, result⟩]
      invoked := h.invoked ++ invoked }
  | .recvAsync key args =>
    let done : Receive := ⟨h.recvs.length, key, args⟩
    let (r, invoked) := h.rendezvous.recvAsync keyHash key args done
    .next { h with
      rendezvous := r
      recvs := h.recvs ++ [done]
      invoked := h.invoked ++ invoked }
  | .startAbort status =>
    if status = .ok then .failed .statusNotOk
    else
      let (r, invoked) := h.rendezvous.startAbort status
      .next { h with rendezvous := r, invoked := h.invoked ++ invoked }

/-- `NewLocalRendezvous` and no call yet. -/
def History.init (tolerateDupRecv : Bool) : History V where
  rendezvous := ⟨tolerateDupRecv, ∅, .ok⟩
  recvs := []
  sends := []
  invoked := []

end Rendezvous

end TensorFlowOnSpark.Framework
