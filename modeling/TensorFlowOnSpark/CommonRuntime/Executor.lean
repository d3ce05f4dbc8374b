import TensorFlowOnSpark.CommonRuntime.PendingCounts
import TensorFlowOnSpark.Framework.Status
import TensorFlowOnSpark.Graph.Graph
import TensorFlowOnSpark.Lib.Transition

/-!
# The executor

`ExecutorImpl` and `ExecutorState` of `common_runtime/executor.cc`.
-/

namespace TensorFlowOnSpark.CommonRuntime

open Framework Transition Function List

universe u v

abbrev FrameName := List (Nat × String)

inductive Misuse where
  | nullIteration | foreignIteration | occupiedSlot | unknownFrame | loopBound
deriving DecidableEq, Repr

/-- `TaggedNode`. -/
structure TaggedNode (N : Type u) where
  node : N
  inputFrame : FrameName
  inputIter : Nat
  isDead : Bool
deriving DecidableEq, Repr

inductive Event (N : Type u) (V : Type v) where
  | delivered (frame : FrameName) (iter : Nat) (edge : Edge N) (isDead : Bool) (entry : Option V)
  | readied (t : TaggedNode N)
  | started (t : TaggedNode N) (inputs : List (Option V))
  | propagated (t : TaggedNode N)
  | finished

structure Output (N : Type u) (V : Type v) where
  ready : List (TaggedNode N)
  log : List (Event N V)

structure IterationState (N : Type u) (V : Type v) where
  number : Nat
  inputTensors : N → Nat → Option V
  outstandingOps : Int
  outstandingFrameCount : Int
  counts : N → Counts

/-- `iterations` is a ring of `slots` slots. -/
structure FrameState (N : Type u) (V : Type v) where
  maxParallelIterations : Nat
  numPendingInputs : Int
  iterationCount : Nat
  numOutstandingIterations : Int
  slots : Nat
  iterations : Nat → Option (IterationState N V)
  nextIterRoots : List (N × Option V)
  invValues : List (N × Option V)
  deadExits : List N

/-- `compute` is what the kernel of a node returns for its input tensors and the flag
`is_input_dead`: the released outputs, of which a dead one is `none`. -/
structure ExecutorImpl (N : Type u) (V : Type v) where
  graph : Graph N
  emptyTensor : V
  compute : N → List (Option V) → Bool → Except Status (List (Option V))
  vlog : Bool

variable {N : Type u} {V : Type v}

namespace ExecutorImpl

variable (x : ExecutorImpl N V)

/-- `FrameInfo::input_count`, the number of `Enter` nodes of a frame. -/
def inputCount (frameName : String) : Nat :=
  x.graph.nodes.countP fun n =>
    match x.graph.nodeClass n with
    | .enter name _ _ => name = frameName
    | _ => false

def initialCounts (n : N) : Counts :=
  let numInEdges := (x.graph.inEdges n).length
  if x.graph.isMerge n then
    let numControlEdges := (x.graph.inEdges n).countP Edge.isControlEdge
    .setInitialCount (1 + 2 * numControlEdges) numInEdges
  else .setInitialCount numInEdges numInEdges

def newIterationState (number : Nat) : IterationState N V where
  number := number
  inputTensors := fun _ _ => none
  outstandingOps := 0
  outstandingFrameCount := 0
  counts := x.initialCounts

def newFrameState (parallelIters slots inputCount : Nat) : FrameState N V where
  maxParallelIterations := parallelIters
  numPendingInputs := inputCount
  iterationCount := 0
  numOutstandingIterations := 1
  slots := slots
  iterations := fun i => if i = 0 then some (x.newIterationState 0) else none
  nextIterRoots := []
  invValues := []
  deadExits := []

end ExecutorImpl

structure Arrival where
  counts : Counts
  dstDead : Bool
  dstReady : Bool
  dstNeedInput : Bool

/-- The part of the loop body of `ActivateNodes` that decides about the destination. -/
def arrive (g : Graph N) (node : N) (isDead : Bool) (e : Edge N) (entry : Option V)
    (c : Counts) : Arrival :=
  if g.isMerge e.dst then
    if e.isControlEdge then
      let c := c.decrementPending 2
      let dstDead := decide (c.deadCount = g.numInputs e.dst)
      ⟨c, dstDead, c.pending = 0 || (c.pending = 1 && dstDead), false⟩
    else if entry.isSome then
      ⟨c.markLive, false, c.pending = 1, c.pending % 2 = 1⟩
    else
      let c := c.incrementDeadCount
      let dstDead := c.deadCount = g.numInputs e.dst || g.isEnter node
      ⟨c, dstDead, c.pending = 1 && dstDead, false⟩
  else
    let c := if isDead || (!e.isControlEdge && entry.isNone) then c.incrementDeadCount else c
    let dstDead := decide (c.deadCount > 0)
    let c := c.decrementPending 1
    ⟨c, dstDead && !g.isControlTrigger e.dst, c.stored = 0, !e.isControlEdge⟩

/-- The same part of the loop in `DeleteFrame`, for a dead exit. -/
def arriveDead (g : Graph N) (e : Edge N) (c : Counts) : Arrival :=
  if g.isMerge e.dst then
    if e.isControlEdge then
      let c := c.decrementPending 2
      let dstDead := decide (c.deadCount = g.numInputs e.dst)
      ⟨c, dstDead, c.pending = 0 || (c.pending = 1 && dstDead), false⟩
    else
      let c := c.incrementDeadCount
      let dstDead := decide (c.deadCount = g.numInputs e.dst)
      ⟨c, dstDead, c.pending = 1 && dstDead, false⟩
  else
    let c := c.incrementDeadCount.decrementPending 1
    ⟨c, true, c.stored = 0, false⟩

namespace IterationState

variable [DecidableEq N]

def setInput (it : IterationState N V) (e : Edge N) (entry : Option V) : IterationState N V :=
  match e.slots with
  | some (_, slot) =>
    { it with
      inputTensors := update it.inputTensors e.dst
        (update (it.inputTensors e.dst) slot entry) }
  | none => it

/-- Stores what `a` says, and puts the destination into the ready list if it is ready. -/
def place (name : FrameName) (iter : Nat) (it : IterationState N V) (out : Output N V)
    (e : Edge N) (isDead : Bool) (entry : Option V) (a : Arrival) :
    IterationState N V × Output N V :=
  let it := { it with counts := update it.counts e.dst a.counts }
  let it := if a.dstNeedInput then it.setInput e entry else it
  let log := out.log ++ [.delivered name iter e isDead entry]
  if a.dstReady then
    let t : TaggedNode N := ⟨e.dst, name, iter, a.dstDead⟩
    ({ it with outstandingOps := it.outstandingOps + 1 }, ⟨out.ready ++ [t], log ++ [.readied t]⟩)
  else (it, ⟨out.ready, log⟩)

end IterationState

namespace FrameState

def getIteration (f : FrameState N V) (iter : Nat) : Option (IterationState N V) :=
  f.iterations (iter % f.slots)

def setIteration (f : FrameState N V) (iter : Nat) (state : Option (IterationState N V)) :
    FrameState N V :=
  { f with iterations := update f.iterations (iter % f.slots) state }

/-- `GetIteration(iter)` where the source uses the state it returns. -/
def useIteration (f : FrameState N V) (iter : Nat) : Except Misuse (IterationState N V) :=
  match f.getIteration iter with
  | none => .error .nullIteration
  | some it => if it.number = iter then .ok it else .error .foreignIteration

def isFrameDone (f : FrameState N V) : Bool :=
  f.numPendingInputs = 0 && f.numOutstandingIterations = 0

def isIterationDone (f : FrameState N V) (iter : Nat) : Except Misuse Bool :=
  (f.useIteration iter).bind fun it =>
    if it.outstandingOps = 0 && it.outstandingFrameCount = 0 then
      if iter = 0 then .ok (f.numPendingInputs = 0)
      else .ok (f.getIteration (iter - 1)).isNone
    else .ok false

variable [DecidableEq N] (x : ExecutorImpl N V) (name : FrameName)

/-- The loop of `ActivateNodes` over the out-edges of `node`. -/
def activateEdges (node : N) (isDead : Bool) (iter : Nat) (outputs : List (Option V)) :
    List (Edge N) → IterationState N V × Output N V → IterationState N V × Output N V
  | [], s => s
  | e :: edges, (it, out) =>
    if e.dst = x.graph.sink then activateEdges node isDead iter outputs edges (it, out)
    else
      let entry := e.entry outputs
      let a := arrive x.graph node isDead e entry (it.counts e.dst)
      activateEdges node isDead iter outputs edges (it.place name iter out e isDead entry a)

def activateNodes (f : FrameState N V) (node : N) (isDead : Bool) (iter : Nat)
    (outputs : List (Option V)) (out : Output N V) : Except Misuse (FrameState N V × Output N V) :=
  (f.useIteration iter).bind fun it =>
    let s := activateEdges x name node isDead iter outputs (x.graph.outEdges node) (it, out)
    .ok (f.setIteration iter (some s.1), s.2)

/-- The loop of `ActivateNexts` and of `ActivateLoopInvs`. -/
def activateEntries (iter : Nat) :
    List (N × Option V) → FrameState N V → Output N V → Except Misuse (FrameState N V × Output N V)
  | [], f, out => .ok (f, out)
  | (node, entry) :: rest, f, out =>
    (f.activateNodes x name node entry.isNone iter [entry] out).bind fun s =>
      activateEntries iter rest s.1 s.2

def activateNexts (f : FrameState N V) (iter : Nat) (out : Output N V) :
    Except Misuse (FrameState N V × Output N V) :=
  (f.activateEntries x name iter f.nextIterRoots out).bind fun s =>
    .ok ({ s.1 with nextIterRoots := [] }, s.2)

def activateLoopInvs (f : FrameState N V) (iter : Nat) (out : Output N V) :
    Except Misuse (FrameState N V × Output N V) :=
  f.activateEntries x name iter f.invValues out

/-- The loop of `AddLoopInv` over the iterations. -/
def activateIterations (node : N) (entry : Option V) :
    List Nat → FrameState N V → Output N V → Except Misuse (FrameState N V × Output N V)
  | [], f, out => .ok (f, out)
  | iter :: rest, f, out =>
    (f.activateNodes x name node entry.isNone iter [entry] out).bind fun s =>
      activateIterations node entry rest s.1 s.2

def addLoopInv (f : FrameState N V) (node : N) (entry : Option V) (out : Output N V) :
    Except Misuse (FrameState N V × Output N V) :=
  { f with invValues := f.invValues ++ [(node, entry)] }.activateIterations x name node entry
    (range (f.iterationCount + 1)) out

def incrementIteration (f : FrameState N V) (out : Output N V) :
    Except Misuse (FrameState N V × Output N V) :=
  let nextIter := f.iterationCount + 1
  if (f.getIteration nextIter).isSome then .error .occupiedSlot
  else
    let f :=
      { f.setIteration nextIter (some (x.newIterationState nextIter)) with
        iterationCount := nextIter
        numOutstandingIterations := f.numOutstandingIterations + 1
        deadExits := [] }
    (f.activateNexts x name nextIter out).bind fun s =>
      s.1.activateLoopInvs x name nextIter s.2

/-- The loop of `CleanupIterations`, with a bound on its turns. -/
def cleanupLoop : Nat → FrameState N V → Nat → Output N V →
    Except Misuse (FrameState N V × Output N V)
  | 0, _, _, _ => .error .loopBound
  | bound + 1, f, currIter, out =>
    if currIter ≤ f.iterationCount then
      (f.isIterationDone currIter).bind fun done =>
        if done then
          let f :=
            { f.setIteration currIter none with
              numOutstandingIterations := f.numOutstandingIterations - 1 }
          if f.nextIterRoots.isEmpty then cleanupLoop bound f (currIter + 1) out
          else
            (f.incrementIteration x name out).bind fun s =>
              cleanupLoop bound s.1 (currIter + 1) s.2
        else .ok (f, out)
    else .ok (f, out)

def cleanupIterations (f : FrameState N V) (iter : Nat) (out : Output N V) :
    Except Misuse (Bool × FrameState N V × Output N V) :=
  (f.cleanupLoop x name (f.iterationCount + 3) iter out).bind fun s =>
    .ok (s.1.isFrameDone, s)

def decrementOutstandingOps (f : FrameState N V) (iter : Nat) (out : Output N V) :
    Except Misuse (Bool × FrameState N V × Output N V) :=
  (f.useIteration iter).bind fun it =>
    (f.setIteration iter (some { it with outstandingOps := it.outstandingOps - 1 }))
      |>.cleanupIterations x name iter out

end FrameState

abbrev Frames (N : Type u) (V : Type v) := FrameName → Option (FrameState N V)

namespace Frames

def find (frames : Frames N V) (name : FrameName) : Except Misuse (FrameState N V) :=
  match frames name with
  | none => .error .unknownFrame
  | some f => .ok f

def set (frames : Frames N V) (name : FrameName) (f : Option (FrameState N V)) : Frames N V :=
  update frames name f

variable [DecidableEq N] (x : ExecutorImpl N V)

def findOrCreateChildFrame (frames : Frames N V) (frame : FrameName) (iter : Nat)
    (enterName : String) (parallelIters : Nat) : Except Misuse (Frames N V) :=
  let childName := (iter, enterName) :: frame
  match frames childName with
  | some _ => .ok frames
  | none =>
    (frames.find frame).bind fun f =>
      (f.useIteration iter).bind fun it =>
        let f := f.setIteration iter
          (some { it with outstandingFrameCount := it.outstandingFrameCount + 1 })
        let temp := x.newFrameState parallelIters (parallelIters + 1) (x.inputCount enterName)
        .ok ((frames.set frame (some f)).set childName (some temp))

/-- The loops of `DeleteFrame` over the edges of the dead exits. -/
def propagateDeadExits (name : FrameName) (iter : Nat) :
    List (Edge N) → IterationState N V × Output N V → IterationState N V × Output N V
  | [], s => s
  | e :: edges, (it, out) =>
    if e.dst = x.graph.sink then propagateDeadExits name iter edges (it, out)
    else
      propagateDeadExits name iter edges
        (it.place name iter out e true none (arriveDead x.graph e (it.counts e.dst)))

def deleteFrame (frames : Frames N V) (name : FrameName) (out : Output N V) :
    Except Misuse (Frames N V × Output N V) :=
  match name with
  | [] => .ok (frames.set [] none, out)
  | (parentIter, _) :: parentFrame =>
    (frames.find name).bind fun f =>
      if f.deadExits.isEmpty then .ok (frames.set name none, out)
      else
        (frames.find parentFrame).bind fun p =>
          (p.useIteration parentIter).bind fun it =>
            let edges := f.deadExits.flatMap x.graph.outEdges
            let s := propagateDeadExits x parentFrame parentIter edges (it, out)
            let frames := frames.set parentFrame (some (p.setIteration parentIter (some s.1)))
            .ok (frames.set name none, s.2)

def cleanupFramesIterations (frames : Frames N V) (frame : FrameName) (iter : Nat)
    (out : Output N V) : Except Misuse (Frames N V × Output N V) :=
  (frames.find frame).bind fun f =>
    (f.useIteration iter).bind fun it =>
      let f := f.setIteration iter
        (some { it with outstandingFrameCount := it.outstandingFrameCount - 1 })
      (f.cleanupIterations x frame iter out).bind fun r =>
        let frames := frames.set frame (some r.2.1)
        if r.1 then
          (frames.deleteFrame x frame r.2.2).bind fun s =>
            match frame with
            | [] => .ok s
            | (parentIter, _) :: parentFrame =>
              cleanupFramesIterations s.1 parentFrame parentIter s.2
        else .ok (frames, r.2.2)

/-- The end of `PropagateOutputs`: `r` says whether the frame is done. -/
def completeFrame (frames : Frames N V) (frame : FrameName)
    (r : Bool × FrameState N V × Output N V) : Except Misuse (Frames N V × Output N V) :=
  let frames := frames.set frame (some r.2.1)
  if r.1 then
    (frames.deleteFrame x frame r.2.2).bind fun s =>
      match frame with
      | [] => .ok s
      | (parentIter, _) :: parentFrame => s.1.cleanupFramesIterations x parentFrame parentIter s.2
  else .ok (frames, r.2.2)

end Frames

/-- The rest of `PropagateOutputs` for a node that is neither `Enter` nor `Exit`. -/
def FrameState.propagateInFrame [DecidableEq N] (x : ExecutorImpl N V) (f : FrameState N V)
    (t : TaggedNode N) (outputs : List (Option V)) :
    Except Misuse (Bool × FrameState N V × Output N V) :=
  let activated : Except Misuse (FrameState N V × Output N V) :=
    if x.graph.isNextIteration t.node then
      if t.isDead then .ok (f, ⟨[], []⟩)
      else if t.inputIter = f.iterationCount ∧
          f.numOutstandingIterations = f.maxParallelIterations then
        let roots := f.nextIterRoots ++ [(t.node, (outputs[0]?).join)]
        .ok ({ f with nextIterRoots := roots }, ⟨[], []⟩)
      else
        (if t.inputIter = f.iterationCount then f.incrementIteration x t.inputFrame ⟨[], []⟩
          else .ok (f, ⟨[], []⟩)).bind fun s =>
          s.1.activateNodes x t.inputFrame t.node t.isDead (t.inputIter + 1) outputs s.2
    else f.activateNodes x t.inputFrame t.node t.isDead t.inputIter outputs ⟨[], []⟩
  activated.bind fun s => s.1.decrementOutstandingOps x t.inputFrame t.inputIter s.2

def propagateOutputs [DecidableEq N] (x : ExecutorImpl N V) (frames : Frames N V)
    (t : TaggedNode N) (outputs : List (Option V)) : Except Misuse (Frames N V × Output N V) :=
  match x.graph.nodeClass t.node with
  | .enter enterName isConstant parallelIters =>
    let child := (t.inputIter, enterName) :: t.inputFrame
    (frames.findOrCreateChildFrame x t.inputFrame t.inputIter enterName parallelIters).bind
      fun frames =>
        (frames.find child).bind fun c =>
          (if isConstant then c.addLoopInv x child t.node (outputs[0]?).join ⟨[], []⟩
            else c.activateNodes x child t.node t.isDead 0 outputs ⟨[], []⟩).bind fun s =>
            let c := { s.1 with numPendingInputs := s.1.numPendingInputs - 1 }
            let frames := frames.set child (some c)
            (frames.find t.inputFrame).bind fun f =>
              (f.decrementOutstandingOps x t.inputFrame t.inputIter s.2).bind fun r =>
                frames.completeFrame x t.inputFrame r
  | .exit =>
    if t.isDead then
      (frames.find t.inputFrame).bind fun f =>
        let f :=
          if t.inputIter = f.iterationCount then { f with deadExits := f.deadExits ++ [t.node] }
          else f
        (f.decrementOutstandingOps x t.inputFrame t.inputIter ⟨[], []⟩).bind fun r =>
          frames.completeFrame x t.inputFrame r
    else
      match t.inputFrame with
      | [] => .error .unknownFrame
      | (parentIter, _) :: parentFrame =>
        (frames.find parentFrame).bind fun p =>
          (p.activateNodes x parentFrame t.node t.isDead parentIter outputs ⟨[], []⟩).bind fun s =>
            let frames := frames.set parentFrame (some s.1)
            (frames.find t.inputFrame).bind fun f =>
              (f.decrementOutstandingOps x t.inputFrame t.inputIter s.2).bind fun r =>
                frames.completeFrame x t.inputFrame r
  | _ =>
    (frames.find t.inputFrame).bind fun f =>
      (f.propagateInFrame x t outputs).bind fun r => frames.completeFrame x t.inputFrame r

namespace ExecutorImpl

variable (x : ExecutorImpl N V)

/-- `PrepareInputs`: the input tensors and `is_input_dead`. -/
def prepareInputs (n : N) (entries : List (Option V)) : List (Option V) × Bool :=
  if x.graph.isMerge n then (entries, false)
  else (entries.map fun entry => some (entry.getD x.emptyTensor), entries.any Option.isNone)

def processOutputs (n : N) (released : List (Option V)) : Except Status (List (Option V)) :=
  let outputs := (range (x.graph.numOutputs n)).map fun i => (released[i]?).join
  if x.graph.isSwitch n || x.graph.isRecv n then .ok outputs
  else
    match outputs.findIdx? Option.isNone with
    | none => .ok outputs
    | some i => .error (.error .internal ("Missing " ++ toString i ++ "-th output"))

def process (n : N) (isDead : Bool) (entries : List (Option V)) :
    Except Status (List (Option V)) :=
  if isDead && !x.graph.isTransferNode n then .ok (replicate (x.graph.numOutputs n) none)
  else
    let inputs := x.prepareInputs n entries
    (x.compute n inputs.1 inputs.2).bind (x.processOutputs n)

end ExecutorImpl

/-- The threads hold the nodes that are running, with their inputs, and those whose
outputs are propagated, with the ready list or the error that goes to `NodeDone`. -/
structure ExecutorState (N : Type u) (V : Type v) where
  frames : Frames N V
  ready : List (TaggedNode N)
  running : List (TaggedNode N × List (Option V))
  leaving : List (TaggedNode N × Except Status (List (TaggedNode N)))
  numOutstandingOps : Int
  status : Status
  log : List (Event N V)

namespace ExecutorState

variable [DecidableEq N] (x : ExecutorImpl N V)

/-- The state that `RunAsync` leaves. -/
def runAsync : ExecutorState N V :=
  let ready : List (TaggedNode N) :=
    (x.graph.nodes.filter fun n => (x.graph.inEdges n).isEmpty).map fun n => ⟨n, [], 0, false⟩
  let root := x.newFrameState 1 1 (x.inputCount "")
  let it := { x.newIterationState 0 with outstandingOps := ready.length }
  { frames := update (fun _ => none) [] (some (root.setIteration 0 (some it)))
    ready := ready
    running := []
    leaving := []
    numOutstandingOps := ready.length
    status := .ok
    log := ready.map .readied ++ if ready.isEmpty then [.finished] else [] }

/-- `mark_started` or `mark_completed`, which the executor calls when it logs. -/
def mark (frames : Frames N V) (t : TaggedNode N) (f : FrameState N V) (it : IterationState N V)
    (change : Counts → Counts) : Frames N V :=
  if x.vlog then
    frames.set t.inputFrame (some (f.setIteration t.inputIter
      (some { it with counts := update it.counts t.node (change (it.counts t.node)) })))
  else frames

/-- A thread takes a ready node and reads its inputs. -/
def start (s : ExecutorState N V) (i : Nat) : Outcome (ExecutorState N V) Misuse :=
  match s.ready[i]? with
  | none => .blocked
  | some t =>
    match (s.frames.find t.inputFrame).bind fun f =>
        (f.useIteration t.inputIter).bind fun it => .ok (f, it) with
    | .error misuse => .failed misuse
    | .ok (f, it) =>
      let inputs := (range (x.graph.numInputs t.node)).map (it.inputTensors t.node)
      .next { s with
        frames := mark x s.frames t f it Counts.markStarted
        ready := s.ready.eraseIdx i
        running := s.running ++ [(t, inputs)]
        log := s.log ++ [.started t inputs] }

/-- The kernel returns, and the outputs are propagated. -/
def propagate (s : ExecutorState N V) (i : Nat) : Outcome (ExecutorState N V) Misuse :=
  match s.running[i]? with
  | none => .blocked
  | some (t, inputs) =>
    match (s.frames.find t.inputFrame).bind fun f =>
        (f.useIteration t.inputIter).bind fun it => .ok (f, it) with
    | .error misuse => .failed misuse
    | .ok (f, it) =>
      let frames := mark x s.frames t f it Counts.markCompleted
      match x.process t.node t.isDead inputs with
      | .error status =>
        .next { s with
          frames := frames
          running := s.running.eraseIdx i
          leaving := s.leaving ++ [(t, .error status)] }
      | .ok outputs =>
        match propagateOutputs x frames t outputs with
        | .error misuse => .failed misuse
        | .ok (frames, out) =>
          .next { s with
            frames := frames
            running := s.running.eraseIdx i
            leaving := s.leaving ++ [(t, .ok out.ready)]
            log := s.log ++ out.log ++ [.propagated t] }

/-- `NodeDone` counts down and, when it completes the run, calls `Finish`. -/
def countDown (s : ExecutorState N V) : ExecutorState N V :=
  { s with
    numOutstandingOps := s.numOutstandingOps - 1
    log := s.log ++ if s.numOutstandingOps = 1 then [.finished] else [] }

def nodeDone (s : ExecutorState N V) (i : Nat) : Outcome (ExecutorState N V) Misuse :=
  match s.leaving[i]? with
  | none => .blocked
  | some (_, result) =>
    let s := { s with leaving := s.leaving.eraseIdx i }
    match result with
    | .error status =>
      .next ({ s with status := if s.status = Status.ok then status else s.status }.countDown)
    | .ok [] => .next s.countDown
    | .ok ready =>
      .next { s with
        numOutstandingOps := s.numOutstandingOps + (ready.length - 1)
        ready := s.ready ++ ready }

end ExecutorState

inductive ThreadStep where
  | start (i : Nat)
  | propagate (i : Nat)
  | nodeDone (i : Nat)
deriving DecidableEq, Repr

def ExecutorState.step [DecidableEq N] (x : ExecutorImpl N V) (s : ExecutorState N V) :
    ThreadStep → Outcome (ExecutorState N V) Misuse
  | .start i => s.start x i
  | .propagate i => s.propagate x i
  | .nodeDone i => s.nodeDone i

end TensorFlowOnSpark.CommonRuntime
