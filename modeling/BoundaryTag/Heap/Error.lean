import BoundaryTag.Region.Basic

namespace BoundaryTag

/-- Why a heap refuses a request. A refusal is an answer, not a fault: the heap stays usable. -/
inductive HeapError where
  | zeroSize
  | overflow
  | invalidAlignment
  | region (error : RegionError)
deriving DecidableEq, Repr

namespace HeapError

def name : HeapError → String
  | zeroSize => "ZeroSize"
  | overflow => "Overflow"
  | invalidAlignment => "InvalidAlignment"
  | region error => s!"Region({error.name})"

def message : HeapError → String
  | zeroSize => "zero-size request"
  | overflow => "request size overflows"
  | invalidAlignment => "alignment is not a power of two"
  | region error => s!"region growth failed: {error.name}"

end HeapError

end BoundaryTag
