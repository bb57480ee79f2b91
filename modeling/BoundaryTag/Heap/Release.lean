import BoundaryTag.Heap.Allocate
import BoundaryTag.Pool.Release

namespace BoundaryTag.Heap

variable {ρ : Type} [Region ρ]

/-- Releases the memory at an address; nothing happens without one. -/
def release (address : Option Nat) : HeapM ρ Unit := do
  if let some address := address then
    let heap ← get
    set { heap with pool := ← heap.pool.release address }

/-- Copies bytes between two addresses in the arena. -/
def copy (source target count : Nat) : HeapM ρ Unit :=
  modify fun heap => { heap with pool.arena := heap.pool.arena.copy source target count }

/-- Memory for `size` bytes with the contents of the old block, as far as both reach. The old block
    is released, unless there is no memory for the new one. -/
def resize (address : Option Nat) (size : Nat) : HeapM ρ (Option Nat) := do
  let some old := address | allocate size
  if size = 0 then
    release (some old)
    return none
  let a := (← get).pool.arena
  let some block := a.blockAt? old | return none
  let usable ← a.usableBytes block
  let some new ← allocate size | return none
  copy old new (min size usable)
  release (some old)
  return some new

end BoundaryTag.Heap
