import BoundaryTag.LazyHeap.Basic

namespace BoundaryTag.Malloc

/-- The code for an argument that is not allowed. -/
def invalidArgument : Nat := 22

/-- The code for memory that cannot be had. -/
def outOfMemory : Nat := 12

def malloc (size : Nat) : LazyHeapM (Option Nat) := LazyHeap.allocate size

def calloc (count size : Nat) : LazyHeapM (Option Nat) := LazyHeap.allocateZeroed count size

def realloc (address : Option Nat) (size : Nat) : LazyHeapM (Option Nat) :=
  LazyHeap.resize address size

def free (address : Option Nat) : LazyHeapM Unit := LazyHeap.release address

def alignedAlloc (align size : Nat) : LazyHeapM (Option Nat) := LazyHeap.allocateAligned align size

def memalign (align size : Nat) : LazyHeapM (Option Nat) := LazyHeap.allocateAligned align size

/-- What `posixMemalign` answers: a code, and the pointer it stores, if it stores one. -/
structure Placement where
  code : Nat
  stored : Option (Option Nat) := none
deriving DecidableEq, Repr

/-- The alignment has to be a power of two and a multiple of the size of a pointer. A request for
    no bytes stores a null pointer. -/
def posixMemalign (align size : Nat) : LazyHeapM Placement := do
  if ¬ IsPowerOfTwo align ∨ align % wordBytes ≠ 0 then
    return { code := invalidArgument }
  else if size = 0 then
    return { code := 0, stored := some none }
  else
    match ← LazyHeap.allocateAligned align size with
    | some address => return { code := 0, stored := some (some address) }
    | none => return { code := outOfMemory }

def usableSize (address : Option Nat) : LazyHeapM Nat :=
  match address with
  | some address => LazyHeap.usableSize address
  | none => return 0

/-- Audits the heap. The line number only marks the record of the outcome. -/
def checkHeap (line : Int) : LazyHeapM Bool := do
  match ← LazyHeap.audit with
  | none =>
    record (.auditSkipped line)
    return true
  | some report =>
    if !report.isOk then
      record (.auditFailed line report.violations.length report.blocks)
    return report.isOk

end BoundaryTag.Malloc
