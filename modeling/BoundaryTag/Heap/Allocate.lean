import BoundaryTag.Heap.Growth
import BoundaryTag.Pool.Fit

namespace BoundaryTag

/-- The size of the block that serves a request for `size` bytes. -/
def blockSize (size : Nat) : Except HeapError Nat :=
  if size = 0 then .error .zeroSize
  else if UInt64.size ≤ size + tagBytes then .error .overflow
  else match roundUp? (size + tagBytes) alignment with
    | some rounded => .ok (max rounded smallestBlock)
    | none => .error .overflow

/-- How many bytes to leave free before an aligned block: none, or enough for a block. -/
def leadBytes (build : Build) (address align : Nat) : Except Fault (Option Nat) := do
  match gapTo? address align with
  | none => return none
  | some gap =>
    if 0 < gap ∧ gap < smallestBlock then
      return some (← build.add gap align)
    else
      return some gap

namespace Heap

variable {ρ : Type} [Region ρ]

/-- Takes a block for `size` bytes into use. The arena grows if no free block is found. -/
def takeBlock (size : Nat) : RequestM ρ Block := do
  let needed ← blockSize size
  let block ← match ← (← get).pool.fit? needed with
    | some block => pure block
    | none => tryCatch (extend (max needed growthUnit)) fun error => do
        record (.growthFailed size error)
        throw error
  let heap ← get
  set { heap with pool := ← heap.pool.take block needed }
  return block

/-- A request says why it is refused, where an allocation answers with no address. -/
def request (size : Nat) : RequestM ρ Nat := do
  let block ← takeBlock size
  return (← get).pool.arena.address block

/-- Memory for `count` elements of `size` bytes each, every byte zero. -/
def requestZeroed (count size : Nat) : RequestM ρ Nat := do
  if UInt64.size ≤ count * size then
    throw .overflow
  let address ← request (count * size)
  modify fun heap => { heap with pool.arena := heap.pool.arena.zero address (count * size) }
  return address

/-- Memory at a multiple of `align`. Above 16 this takes a block that is large enough for any
    lead, frees the lead and cuts off what is left behind. -/
def requestAligned (align size : Nat) : RequestM ρ Nat := do
  if ¬ IsPowerOfTwo align then
    throw .invalidAlignment
  if align ≤ alignment then
    return ← request size
  let needed ← blockSize size
  let padded := needed + align + smallestBlock
  if UInt64.size ≤ padded then
    throw .overflow
  let block ← takeBlock (← (← get).pool.arena.build.sub padded tagBytes)
  let heap ← get
  let a := heap.pool.arena
  let some lead ← leadBytes a.build (a.address block) align | throw .overflow
  let (block, pool) ← heap.pool.splitLead block lead
  let pool ← pool.splitTail block needed
  set { heap with pool }
  return pool.arena.address block

def allocate (size : Nat) : HeapM ρ (Option Nat) := (request size).granted

def allocateZeroed (count size : Nat) : HeapM ρ (Option Nat) :=
  (requestZeroed count size).granted

def allocateAligned (align size : Nat) : HeapM ρ (Option Nat) :=
  (requestAligned align size).granted

end Heap

end BoundaryTag
