import BoundaryTag.Audit.Violation
import BoundaryTag.Heap.Error

namespace BoundaryTag

/-- The records that a heap logs while it works. -/
inductive Event where
  | ready (firstFree : Nat)
  | extended (bytes len : Nat)
  | growthFailed (size : Nat) (error : HeapError)
  | bootstrapFailed (error : HeapError)
  | violation (violation : Violation)
  | auditSkipped (line : Int)
  | auditFailed (line : Int) (violations blocks : Nat)
deriving DecidableEq, Repr

namespace Event

def level : Event → String
  | violation .. | auditFailed .. => "ERROR"
  | growthFailed .. | bootstrapFailed .. => "WARN"
  | ready .. | extended .. | auditSkipped .. => "DEBUG"

/-- The text of a record. Addresses appear as `<ptr>`. -/
def message : Event → String
  | ready firstFree => s!"heap ready at <ptr>, first free block {firstFree} bytes"
  | extended bytes len => s!"arena extended by {bytes} bytes to {len}"
  | growthFailed size error => s!"allocate({size}): {error.message}"
  | bootstrapFailed error => s!"heap bootstrap failed: {error.message}"
  | violation found => s!"heap check: {found.message}"
  | auditSkipped line => s!"checkheap({line}): no heap yet"
  | auditFailed line violations blocks =>
    s!"checkheap({line}): {violations} violations over {blocks} blocks"

end Event

end BoundaryTag
