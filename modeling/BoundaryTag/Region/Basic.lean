namespace BoundaryTag

inductive RegionError where
  | exhausted
  | invalidArgument
  | overflow
  | unsupported
deriving DecidableEq, Repr

namespace RegionError

def name : RegionError → String
  | exhausted => "Exhausted"
  | invalidArgument => "InvalidArgument"
  | overflow => "Overflow"
  | unsupported => "Unsupported"

end RegionError

/-- A span of memory that grows at its end and never moves. It answers a request to grow with the
    address where the new span starts, or refuses. -/
class Region (ρ : Type) where
  base : ρ → Nat
  len : ρ → Nat
  /-- The region after a refusal is an answer too: a region may count the requests it gets. -/
  grow : ρ → Nat → Except RegionError Nat × ρ

namespace Region

variable {ρ : Type} [Region ρ]

def isEmpty (region : ρ) : Bool := len region == 0

/-- The address of the last byte. -/
def last? (region : ρ) : Option Nat :=
  if len region = 0 then none else some (base region + (len region - 1))

def contains (region : ρ) (address : Nat) : Bool :=
  base region ≤ address && address - base region < len region

end Region

end BoundaryTag
