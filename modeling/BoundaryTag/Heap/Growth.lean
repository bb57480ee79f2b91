import BoundaryTag.Heap.Basic
import BoundaryTag.Pool.Coalesce

namespace BoundaryTag

/-- What a heap asks of its region when no block fits, unless the request is larger. -/
@[simp, grind =] def growthUnit : Nat := 4096

namespace Heap

variable {ρ : Type} [Region ρ]

/-- Lets the region and the arena grow together. The answer is the offset of the new span. -/
def growBy (bytes : Nat) : RequestM ρ Nat := do
  let heap ← get
  let a := heap.pool.arena
  let (answer, region) := Region.grow heap.region bytes
  set { heap with region }
  match answer with
  | .error error => throw (.region error)
  | .ok address =>
    let expected ← a.build.add a.base a.len
    a.build.require (address = expected) (.growthNotContiguous address expected)
    let arena ← a.setLen (Region.len region)
    set { heap with region, pool.arena := arena }
    return a.len

/-- Appends a free block of at least `bytes` bytes and merges it with a free block before it. -/
def extend (bytes : Nat) : RequestM ρ Block := do
  let some size := roundUp? bytes alignment | throw .overflow
  let start ← growBy size
  let some block := Block.ofOffset? start | throw .overflow
  let heap ← get
  let pool ← heap.pool.append block size
  record (.extended size pool.arena.len)
  let (block, pool) ← pool.coalesce block
  set { heap with pool }
  return block

/-- Gives an empty arena its prologue, its epilogue and a first free block. -/
def setUp : RequestM ρ Unit := do
  let start ← growBy frontBytes
  let heap ← get
  set { heap with pool := ← heap.pool.layOut start }
  let first ← extend growthUnit
  let heap ← get
  record (.ready (← heap.pool.arena.header first).size)

/-- A heap over a region that is empty and starts at a multiple of 16. Whatever `memory` holds
    there, nothing clears it. -/
def create (build : Build) (region : ρ) (memory : Memory := {}) :
    Trace (Except HeapError (Heap ρ)) := do
  let base := Region.base region
  if Region.isEmpty region ∧ isMultiple? base alignment = some true then
    let pool : Pool := { arena := { build, base, len := 0, memory } }
    let (answer, heap) ← setUp.run.run { region, pool }
    return answer.map fun () => heap
  else
    return .error (.region .invalidArgument)

end Heap

end BoundaryTag
