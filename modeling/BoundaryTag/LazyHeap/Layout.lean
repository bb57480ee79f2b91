import BoundaryTag.LazyHeap.Basic

namespace BoundaryTag

/-- A size together with an alignment, which is a power of two. -/
structure Layout where
  size : Nat
  align : Nat
deriving DecidableEq, Repr

namespace LazyHeap

/-- Writes zeros at an address in the heap. -/
def zero (address count : Nat) : LazyHeapM Unit :=
  discard <| onExisting <| modify fun heap =>
    { heap with pool.arena := heap.pool.arena.zero address count }

/-- Alignments up to 16 hold for every block. Larger ones take the aligned request. -/
def allocateLayout (layout : Layout) : LazyHeapM (Option Nat) :=
  if layout.align ≤ alignment then allocate layout.size
  else allocateAligned layout.align layout.size

def allocateLayoutZeroed (layout : Layout) : LazyHeapM (Option Nat) := do
  if layout.align ≤ alignment then
    allocateZeroed 1 layout.size
  else
    let some address ← allocateAligned layout.align layout.size | return none
    zero address layout.size
    return some address

def releaseLayout (address : Option Nat) (_layout : Layout) : LazyHeapM Unit :=
  release address

/-- Moves memory of a layout to a block of another size with the same alignment. -/
def resizeLayout (address : Option Nat) (layout : Layout) (size : Nat) :
    LazyHeapM (Option Nat) := do
  if layout.align ≤ alignment then
    resize address size
  else
    let some new ← allocateAligned layout.align size | return none
    if let some old := address then
      discard <| onExisting (Heap.copy old new (min layout.size size))
    release address
    return some new

end LazyHeap

end BoundaryTag
