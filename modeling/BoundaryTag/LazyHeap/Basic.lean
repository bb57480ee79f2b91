import BoundaryTag.Audit.Report
import BoundaryTag.Heap.Release
import BoundaryTag.Heap.Query
import BoundaryTag.Region.Reserved

namespace BoundaryTag

/-- Bytes of address space reserved for the heap. -/
def reservation : Nat := 1073741824

/-- The one heap of a running program, which is built on first use over a reservation of address
    space. `base` is where the system puts the reservation, `pageSize` the size of its pages, and
    `permits` what it answers when the heap is to use them. -/
structure LazyHeap where
  build : Build
  base : Nat
  pageSize : Nat := pageBytes
  permits : Nat → Nat → Bool := fun _ _ => true
  heap : Option (Heap ReservedRegion) := none

abbrev LazyHeapM := StateT LazyHeap Trace

namespace LazyHeap

/-- Reserves address space and builds a heap over it. -/
def construct (state : LazyHeap) : Trace (Option (Heap ReservedRegion)) := do
  let answer ← match ReservedRegion.reserve state.base reservation state.pageSize addressSpace
      state.permits with
    | .error error => pure (.error (.region error))
    | .ok region => Heap.create state.build region
  match answer with
  | .ok heap => return some heap
  | .error error =>
    record (.bootstrapFailed error)
    return none

/-- Runs an operation on the heap, if there is one. -/
def onExisting {α : Type} (operation : HeapM ReservedRegion α) : LazyHeapM (Option α) := do
  let state ← get
  match state.heap with
  | none => return none
  | some heap =>
    let (answer, heap) ← operation.run heap
    set { state with heap := some heap }
    return some answer

/-- Runs an operation on the heap, which is built if there is none yet. -/
def onBuilt {α : Type} (operation : HeapM ReservedRegion α) : LazyHeapM (Option α) := do
  let state ← get
  if state.heap.isNone then
    set { state with heap := ← state.construct }
  onExisting operation

def allocate (size : Nat) : LazyHeapM (Option Nat) :=
  return (← onBuilt (Heap.allocate size)).join

def allocateZeroed (count size : Nat) : LazyHeapM (Option Nat) :=
  return (← onBuilt (Heap.allocateZeroed count size)).join

def allocateAligned (align size : Nat) : LazyHeapM (Option Nat) :=
  return (← onBuilt (Heap.allocateAligned align size)).join

def resize (address : Option Nat) (size : Nat) : LazyHeapM (Option Nat) :=
  return (← onBuilt (Heap.resize address size)).join

def release (address : Option Nat) : LazyHeapM Unit := do
  if address.isSome then
    discard <| onExisting (Heap.release address)

def usableSize (address : Nat) : LazyHeapM Nat :=
  return (← onExisting (Heap.usableSize address)).getD 0

def contains (address : Nat) : LazyHeapM Bool :=
  return (← onExisting (Heap.contains address)).getD false

/-- The audit of the heap, if there is one. -/
def audit : LazyHeapM (Option Report) := onExisting Heap.audit

def stats : LazyHeapM (Option Stats) := onExisting Heap.stats

end LazyHeap

end BoundaryTag
