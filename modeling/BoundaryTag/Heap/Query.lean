import BoundaryTag.Heap.Basic
import BoundaryTag.Pool.Blocks
import BoundaryTag.Pool.Release

namespace BoundaryTag.Heap

variable {ρ : Type}

def usableSize (address : Nat) : HeapM ρ Nat := do
  (← get).pool.usableSize address

def contains [Region ρ] (address : Nat) : HeapM ρ Bool :=
  return Region.contains (← get).region address

/-- The address of the last byte. -/
def last? [Region ρ] : HeapM ρ (Option Nat) :=
  return Region.last? (← get).region

def blocks : HeapM ρ (List BlockInfo) := do
  (← get).pool.blocks

def stats : HeapM ρ Stats := do
  (← get).pool.stats

end BoundaryTag.Heap
