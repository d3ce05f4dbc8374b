import TensorFlowOnSpark.Lib.RoundToEven
import TensorFlowOnSpark.Lib.Transition
import Mathlib.Algebra.GroupWithZero.Nat
import Mathlib.Logic.Function.Basic

/-!
# The best-fit allocator with coalescing

`BFCAllocator` of `common_runtime/bfc_allocator.cc`.
-/

namespace TensorFlowOnSpark.CommonRuntime

open Transition Function RoundToEven

/-- The value of an expression of type `size_t`. -/
def sizeT (n : Nat) : Nat := n % 2 ^ 64

def kNumBins : Nat := 21

def kMinAllocationBits : Nat := 8

def kMinAllocationSize : Nat := 256

/-- The handles are `int`s from 0 on; `none` stands for `kInvalidChunkHandle`. -/
abbrev ChunkHandle := Nat

abbrev BinNum := Nat

inductive Check where
  | couldNotFindRegion | handleIndex | chunkIndex | handleOverflow | memorySize | splitChunk
  | mergeInUse | mergePrev | insertFreeChunk | removeFreeChunk | couldNotFindChunk
  | invalidHandle | freeInUse | endlessDoubling
deriving DecidableEq, Repr

inductive Stop where
  | check (check : Check)
  | unanswered
deriving DecidableEq, Repr

structure Chunk where
  size : Nat := 0
  requestedSize : Nat := 0
  allocationId : Int := -1
  ptr : Nat := 0
  prev : Option ChunkHandle := none
  next : Option ChunkHandle := none
  binNum : Option BinNum := none

def Chunk.inUse (c : Chunk) : Bool := c.allocationId ≠ -1

structure AllocationRegion where
  ptr : Nat
  memorySize : Nat
  handles : Nat → Option ChunkHandle

namespace AllocationRegion

def endPtr (r : AllocationRegion) : Nat := sizeT (r.ptr + r.memorySize)

def nHandles (r : AllocationRegion) : Nat :=
  (r.memorySize + kMinAllocationSize - 1) / kMinAllocationSize

/-- `IndexFor`, which returns an `int`. -/
def indexFor (r : AllocationRegion) (p : Nat) : Int :=
  Int.bmod (sizeT (p + 2 ^ 64 - r.ptr) / 2 ^ kMinAllocationBits : Nat) (2 ^ 32)

def getHandle (r : AllocationRegion) (p : Nat) : Except Stop (Option ChunkHandle) :=
  if 0 ≤ r.indexFor p ∧ r.indexFor p < r.nHandles then .ok (r.handles (r.indexFor p).toNat)
  else .error (.check .handleIndex)

def setHandle (r : AllocationRegion) (p : Nat) (h : Option ChunkHandle) :
    Except Stop AllocationRegion :=
  if 0 ≤ r.indexFor p ∧ r.indexFor p < r.nHandles then
    .ok { r with handles := update r.handles (r.indexFor p).toNat h }
  else .error (.check .handleIndex)

end AllocationRegion

namespace RegionManager

/-- The place that `std::upper_bound` finds for a region. -/
def insertRegion (r : AllocationRegion) : List AllocationRegion → List AllocationRegion
  | [] => [r]
  | other :: rest =>
    if r.ptr < other.endPtr then r :: other :: rest else other :: insertRegion r rest

def addAllocationRegion (regions : List AllocationRegion) (ptr memorySize : Nat) :
    Except Stop (List AllocationRegion) :=
  if memorySize % kMinAllocationSize = 0 then
    .ok (insertRegion ⟨ptr, memorySize, fun _ => none⟩ regions)
  else .error (.check .memorySize)

def getHandle (p : Nat) : List AllocationRegion → Except Stop (Option ChunkHandle)
  | [] => .error (.check .couldNotFindRegion)
  | r :: rest => if p < r.endPtr then r.getHandle p else getHandle p rest

def setHandle (p : Nat) (h : Option ChunkHandle) :
    List AllocationRegion → Except Stop (List AllocationRegion)
  | [] => .error (.check .couldNotFindRegion)
  | r :: rest =>
    if p < r.endPtr then do
      let r' ← r.setHandle p h
      .ok (r' :: rest)
    else do
      let rest' ← setHandle p h rest
      .ok (r :: rest')

end RegionManager

def chunkLess (chunks : List Chunk) (ha hb : ChunkHandle) : Bool :=
  match chunks[ha]?, chunks[hb]? with
  | some a, some b => if a.size ≠ b.size then a.size < b.size else a.ptr < b.ptr
  | _, _ => false

/-- `Bin::FreeChunkSet`, a `std::set`, is the list of its elements in their order. -/
abbrev FreeChunkSet := List ChunkHandle

namespace FreeChunkSet

variable (less : ChunkHandle → ChunkHandle → Bool) (h : ChunkHandle)

def insert : FreeChunkSet → FreeChunkSet
  | [] => [h]
  | x :: rest =>
    if less h x then h :: x :: rest else if less x h then x :: insert rest else x :: rest

def erase : FreeChunkSet → Nat × FreeChunkSet
  | [] => (0, [])
  | x :: rest =>
    if less h x || less x h then ((erase rest).1, x :: (erase rest).2) else (1, rest)

end FreeChunkSet

structure AllocatorStats where
  numAllocs : Int := 0
  bytesInUse : Int := 0
  maxBytesInUse : Int := 0
  maxAllocSize : Nat := 0

structure BFCAllocator where
  memoryLimit : Nat
  currRegionAllocationBytes : Nat
  totalRegionAllocatedBytes : Nat
  startedBackpedal : Bool
  regions : List AllocationRegion
  chunks : List Chunk
  freeChunksList : Option ChunkHandle
  bins : BinNum → FreeChunkSet
  nextAllocationId : Int
  stats : AllocatorStats

namespace BFCAllocator

def roundedBytes (bytes : Nat) : Nat :=
  sizeT (kMinAllocationSize * (sizeT (bytes + kMinAllocationSize - 1) / kMinAllocationSize))

def binNumForSize (bytes : Nat) : BinNum :=
  min (kNumBins - 1) (Nat.log2 (max bytes 256 / 2 ^ kMinAllocationBits))

/-- The constructor. -/
def init (totalMemory : Nat) (allowGrowth : Bool) : BFCAllocator where
  memoryLimit := totalMemory
  currRegionAllocationBytes :=
    if allowGrowth then roundedBytes (min totalMemory 1048576) else roundedBytes totalMemory
  totalRegionAllocatedBytes := 0
  startedBackpedal := false
  regions := []
  chunks := []
  freeChunksList := none
  bins := fun _ => []
  nextAllocationId := 1
  stats := {}

def chunkFromHandle (s : BFCAllocator) (h : ChunkHandle) : Except Stop Chunk :=
  match s.chunks[h]? with
  | some c => .ok c
  | none => .error (.check .chunkIndex)

def setChunk (s : BFCAllocator) (h : ChunkHandle) (c : Chunk) : BFCAllocator :=
  { s with chunks := s.chunks.set h c }

def setHandle (s : BFCAllocator) (p : Nat) (h : Option ChunkHandle) :
    Except Stop BFCAllocator := do
  let regions ← RegionManager.setHandle p h s.regions
  .ok { s with regions := regions }

def require (condition : Bool) (check : Check) : Except Stop Unit :=
  if condition then .ok () else .error (.check check)

def allocateChunk (s : BFCAllocator) : Except Stop (ChunkHandle × BFCAllocator) :=
  match s.freeChunksList with
  | some h => do
    let c ← s.chunkFromHandle h
    .ok (h, { s with freeChunksList := c.next })
  | none =>
    -- the size of the vector becomes a handle, which is an int
    if s.chunks.length < 2 ^ 31 then
      .ok (s.chunks.length, { s with chunks := s.chunks ++ [{}] })
    else .error (.check .handleOverflow)

def deallocateChunk (s : BFCAllocator) (h : ChunkHandle) : Except Stop BFCAllocator := do
  let c ← s.chunkFromHandle h
  .ok { s.setChunk h { c with next := s.freeChunksList } with freeChunksList := some h }

def insertFreeChunkIntoBin (s : BFCAllocator) (h : ChunkHandle) : Except Stop BFCAllocator := do
  let c ← s.chunkFromHandle h
  require (!c.inUse && c.binNum.isNone) .insertFreeChunk
  let binNum := binNumForSize c.size
  let s := s.setChunk h { c with binNum := some binNum }
  let freeChunks := FreeChunkSet.insert (chunkLess s.chunks) h (s.bins binNum)
  .ok { s with bins := update s.bins binNum freeChunks }

def removeFreeChunkIterFromBin (s : BFCAllocator) (b : BinNum) (h : ChunkHandle) :
    Except Stop BFCAllocator := do
  let c ← s.chunkFromHandle h
  require (!c.inUse && c.binNum.isSome) .removeFreeChunk
  let s := { s with bins := update s.bins b (List.erase (s.bins b) h) }
  .ok (s.setChunk h { c with binNum := none })

def removeFreeChunkFromBin (s : BFCAllocator) (h : ChunkHandle) : Except Stop BFCAllocator := do
  let c ← s.chunkFromHandle h
  match c.binNum with
  | none => .error (.check .removeFreeChunk)
  | some b =>
    require (!c.inUse) .removeFreeChunk
    let (count, freeChunks) := FreeChunkSet.erase (chunkLess s.chunks) h (s.bins b)
    require (0 < count) .couldNotFindChunk
    let s := { s with bins := update s.bins b freeChunks }
    .ok (s.setChunk h { c with binNum := none })

def relink (s : BFCAllocator) (follows : Option ChunkHandle) (h : ChunkHandle) :
    Except Stop BFCAllocator :=
  match follows with
  | none => .ok s
  | some n => do
    let c ← s.chunkFromHandle n
    .ok (s.setChunk n { c with prev := some h })

def splitChunk (s : BFCAllocator) (h : ChunkHandle) (numBytes : Nat) :
    Except Stop BFCAllocator := do
  let (hNewChunk, s) ← s.allocateChunk
  let c ← s.chunkFromHandle h
  require (!c.inUse && c.binNum.isNone) .splitChunk
  let newChunk ← s.chunkFromHandle hNewChunk
  let ptr := sizeT (c.ptr + numBytes)
  let s ← s.setHandle ptr (some hNewChunk)
  let s := s.setChunk hNewChunk
    { newChunk with
      ptr := ptr
      size := sizeT (c.size + 2 ^ 64 - numBytes)
      allocationId := -1
      prev := some h
      next := c.next }
  let s := s.setChunk h { c with size := numBytes, next := some hNewChunk }
  let s ← s.relink c.next hNewChunk
  s.insertFreeChunkIntoBin hNewChunk

def deleteChunk (s : BFCAllocator) (h : ChunkHandle) : Except Stop BFCAllocator := do
  let c ← s.chunkFromHandle h
  let s ← s.setHandle c.ptr none
  s.deallocateChunk h

def merge (s : BFCAllocator) (h1 h2 : ChunkHandle) : Except Stop BFCAllocator := do
  let c1 ← s.chunkFromHandle h1
  let c2 ← s.chunkFromHandle h2
  require (!c1.inUse && !c2.inUse) .mergeInUse
  require (c2.prev = some h1) .mergePrev
  let s := s.setChunk h1 { c1 with next := c2.next, size := sizeT (c1.size + c2.size) }
  let s ← s.relink c2.next h1
  s.deleteChunk h2

/-- The first half of the coalescing: the next chunk, if it is free, is merged into `h`. -/
def coalesceNext (s : BFCAllocator) (h : ChunkHandle) : Except Stop BFCAllocator := do
  let c ← s.chunkFromHandle h
  match c.next with
  | none => .ok s
  | some next =>
    let cnext ← s.chunkFromHandle next
    if cnext.inUse then .ok s
    else do
      let s ← s.removeFreeChunkFromBin next
      s.merge h next

/-- The second half: `h` is merged into the previous chunk if that is free. The result is
`chunk_to_reassign`. -/
def coalescePrev (s : BFCAllocator) (h : ChunkHandle) :
    Except Stop (ChunkHandle × BFCAllocator) := do
  let c ← s.chunkFromHandle h
  match c.prev with
  | none => .ok (h, s)
  | some prev =>
    let cprev ← s.chunkFromHandle prev
    if cprev.inUse then .ok (h, s)
    else do
      let s ← s.removeFreeChunkFromBin prev
      let s ← s.merge prev h
      .ok (prev, s)

def freeAndMaybeCoalesce (s : BFCAllocator) (h : ChunkHandle) : Except Stop BFCAllocator := do
  let c ← s.chunkFromHandle h
  require (c.inUse && c.binNum.isNone) .freeInUse
  let s := s.setChunk h { c with allocationId := -1 }
  let s := { s with stats := { s.stats with bytesInUse := s.stats.bytesInUse - c.size } }
  let s ← s.coalesceNext h
  let (chunkToReassign, s) ← s.coalescePrev h
  s.insertFreeChunkIntoBin chunkToReassign

/-- The free chunk that `FindChunkPtr` takes from one bin. -/
def findInBin (s : BFCAllocator) (roundedBytes : Nat) :
    FreeChunkSet → Except Stop (Option ChunkHandle)
  | [] => .ok none
  | h :: rest => do
    let c ← s.chunkFromHandle h
    if roundedBytes ≤ c.size then .ok (some h) else s.findInBin roundedBytes rest

/-- The search of `FindChunkPtr`, over the given bins. -/
def findChunk (s : BFCAllocator) (roundedBytes : Nat) :
    List BinNum → Except Stop (Option (BinNum × ChunkHandle))
  | [] => .ok none
  | b :: rest => do
    match ← s.findInBin roundedBytes (s.bins b) with
    | some h => .ok (some (b, h))
    | none => s.findChunk roundedBytes rest

/-- A chunk is in use from here on. -/
def markInUse (s : BFCAllocator) (h : ChunkHandle) (numBytes : Nat) :
    Except Stop (Nat × BFCAllocator) := do
  let c ← s.chunkFromHandle h
  let s := s.setChunk h
    { c with requestedSize := numBytes, allocationId := s.nextAllocationId }
  let bytesInUse := s.stats.bytesInUse + c.size
  .ok (c.ptr,
    { s with
      nextAllocationId := s.nextAllocationId + 1
      stats :=
        { numAllocs := s.stats.numAllocs + 1
          bytesInUse := bytesInUse
          maxBytesInUse := max s.stats.maxBytesInUse bytesInUse
          maxAllocSize := max s.stats.maxAllocSize c.size } })

def findChunkPtr (s : BFCAllocator) (binNum : BinNum) (roundedBytes numBytes : Nat) :
    Except Stop (Option Nat × BFCAllocator) := do
  match ← s.findChunk roundedBytes ((List.range kNumBins).drop binNum) with
  | none => .ok (none, s)
  | some (b, h) =>
    let s ← s.removeFreeChunkIterFromBin b h
    let c ← s.chunkFromHandle h
    let s ← if sizeT (roundedBytes * 2) ≤ c.size then s.splitChunk h roundedBytes else .ok s
    let (ptr, s) ← s.markInUse h numBytes
    .ok (some ptr, s)

def availableBytes (s : BFCAllocator) : Nat :=
  sizeT (s.memoryLimit + 2 ^ 64 - s.totalRegionAllocatedBytes) / kMinAllocationSize *
    kMinAllocationSize

/-- The doubling loop of `Extend`. After 64 turns no bit of the size is left, and the loop does
not end any more. -/
def increase (roundedBytes : Nat) : Nat → Nat → Bool → Except Stop (Nat × Bool)
  | 0, _, _ => .error (.check .endlessDoubling)
  | turns + 1, curr, increased =>
    if curr < roundedBytes then increase roundedBytes turns (sizeT (curr * 2)) true
    else .ok (curr, increased)

/-- What `Extend` does before it asks for a region: the region size of the allocator, whether it
was increased, and the size to ask for. -/
def regionRequest (s : BFCAllocator) (roundedBytes : Nat) :
    Except Stop (Option (Nat × Bool × Nat)) :=
  if s.availableBytes < roundedBytes then .ok none
  else do
    let (curr, increased) ← increase roundedBytes 65 s.currRegionAllocationBytes false
    .ok (some (curr, increased, min curr s.availableBytes))

/-- `kBackpedalFactor`, the `float` next to 0.9, in units of `2 ^ -24`. -/
def kBackpedalFactor : Nat := 15099494

/-- `bytes * kBackpedalFactor`, which is computed with the 24 bits of a `float` and converted back
to `size_t`. -/
def timesBackpedalFactor (bytes : Nat) : Nat :=
  roundToEven 24 (roundToEven 24 bytes * kBackpedalFactor) / 2 ^ 24

example : timesBackpedalFactor (2 ^ 32) = 3865470464 := by decide

/-- The loop that tries smaller regions. -/
def backpedal (rounded : Nat) :
    Nat → List (Option Nat) → Except Stop (Option Nat × Nat × List (Option Nat))
  | bytes, [] => if rounded < bytes then .error .unanswered else .ok (none, bytes, [])
  | bytes, answer :: rest =>
    if rounded < bytes then
      match answer with
      | none => backpedal rounded (roundedBytes (timesBackpedalFactor bytes)) rest
      | some memAddr => .ok (some memAddr, roundedBytes (timesBackpedalFactor bytes), rest)
    else .ok (none, bytes, answer :: rest)

/-- The end of `Extend`, with a region from the sub-allocator. -/
def addRegion (s : BFCAllocator) (memAddr bytes : Nat) : Except Stop BFCAllocator := do
  let total := sizeT (s.totalRegionAllocatedBytes + bytes)
  let regions ← RegionManager.addAllocationRegion s.regions memAddr bytes
  let (h, s) ← { s with totalRegionAllocatedBytes := total, regions := regions }.allocateChunk
  let c ← s.chunkFromHandle h
  let s := s.setChunk h
    { c with ptr := memAddr, size := bytes, allocationId := -1, prev := none, next := none }
  let s ← s.setHandle memAddr (some h)
  s.insertFreeChunkIntoBin h

/-- The calls of `Alloc`: the address and the size of a region, and the answers that are left. -/
def requestRegion (s : BFCAllocator) (rounded bytes : Nat) :
    List (Option Nat) → Except Stop (Option Nat × Nat × List (Option Nat) × BFCAllocator)
  | [] => .error .unanswered
  | first :: rest =>
    if first.isNone && !s.startedBackpedal then do
      let (memAddr, bytes, rest) ← backpedal rounded (roundedBytes (timesBackpedalFactor bytes))
        rest
      .ok (memAddr, bytes, rest, { s with startedBackpedal := true })
    else .ok (first, bytes, rest, s)

/-- Whether there is a new region, and the answers that are left. -/
def extend (s : BFCAllocator) (rounded : Nat) (answers : List (Option Nat)) :
    Except Stop (Bool × List (Option Nat) × BFCAllocator) := do
  match ← s.regionRequest rounded with
  | none => .ok (false, answers, s)
  | some (curr, increased, bytes) =>
    let s := { s with currRegionAllocationBytes := curr }
    let (memAddr, bytes, answers, s) ← s.requestRegion rounded bytes answers
    match memAddr with
    | none => .ok (false, answers, s)
    | some memAddr =>
      let s := if increased then s else { s with currRegionAllocationBytes := sizeT (curr * 2) }
      let s ← s.addRegion memAddr bytes
      .ok (true, answers, s)

def allocateRawInternal (s : BFCAllocator) (numBytes : Nat) (answers : List (Option Nat)) :
    Except Stop (Option Nat × List (Option Nat) × BFCAllocator) :=
  if numBytes = 0 then .ok (none, answers, s)
  else do
    let rounded := roundedBytes numBytes
    let binNum := binNumForSize rounded
    match ← s.findChunkPtr binNum rounded numBytes with
    | (some ptr, s) => .ok (some ptr, answers, s)
    | (none, s) =>
      match ← s.extend rounded answers with
      | (false, answers, s) => .ok (none, answers, s)
      | (true, answers, s) =>
        let (ptr, s) ← s.findChunkPtr binNum rounded numBytes
        .ok (ptr, answers, s)

def deallocateRawInternal (s : BFCAllocator) (ptr : Nat) : Except Stop BFCAllocator :=
  if ptr = 0 then .ok s
  else do
    match ← RegionManager.getHandle ptr s.regions with
    | none => .error (.check .invalidHandle)
    | some h => s.freeAndMaybeCoalesce h

def allocatedSize (s : BFCAllocator) (ptr : Nat) : Except Stop Nat := do
  match ← RegionManager.getHandle ptr s.regions with
  | none => .error (.check .invalidHandle)
  | some h =>
    let c ← s.chunkFromHandle h
    .ok c.size

end BFCAllocator

/-- `AllocateRaw` makes one or more attempts of `AllocateRawInternal`, between which other calls
can come; an attempt is an action. -/
inductive BfcAction where
  | allocateRaw (numBytes : Nat) (answers : List (Option Nat))
  | deallocateRaw (ptr : Nat)

/-- The allocator, and the pointers that it gave out and that have not come back, each with the
number of bytes that was asked for. -/
structure BfcState where
  allocator : BFCAllocator
  live : List (Nat × Nat)

namespace BfcState

def init (totalMemory : Nat) (allowGrowth : Bool) : BfcState :=
  ⟨BFCAllocator.init totalMemory allowGrowth, []⟩

def step (s : BfcState) : BfcAction → Outcome BfcState Check
  | .allocateRaw numBytes answers =>
    match s.allocator.allocateRawInternal numBytes answers with
    | .error (.check check) => .failed check
    | .error .unanswered => .blocked
    | .ok (some ptr, [], allocator) => .next ⟨allocator, (ptr, numBytes) :: s.live⟩
    | .ok (none, [], allocator) => .next { s with allocator := allocator }
    | .ok (_, _ :: _, _) => .blocked
  | .deallocateRaw ptr =>
    match s.allocator.deallocateRawInternal ptr with
    | .error (.check check) => .failed check
    | .error .unanswered => .blocked
    | .ok allocator => .next ⟨allocator, s.live.filter fun a => a.1 ≠ ptr⟩

end BfcState

end TensorFlowOnSpark.CommonRuntime
