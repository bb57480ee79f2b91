import BoundaryTag.Region.Basic

namespace BoundaryTag

/-- A region that may refuse to grow at any request, whatever room there is. `refusal n` is the
    answer to request number `n`, counted from 1, where that one is to fail. -/
structure UnreliableRegion (ρ : Type) where
  inner : ρ
  calls : Nat := 0
  refusal : Nat → Option RegionError := fun _ => none

namespace UnreliableRegion

variable {ρ : Type} [Region ρ]

def grow (region : UnreliableRegion ρ) (bytes : Nat) :
    Except RegionError Nat × UnreliableRegion ρ :=
  let calls := region.calls + 1
  match region.refusal calls with
  | some e => (.error e, { region with calls })
  | none =>
    let (answer, inner) := Region.grow region.inner bytes
    (answer, { region with inner, calls })

instance : Region (UnreliableRegion ρ) where
  base region := Region.base region.inner
  len region := Region.len region.inner
  grow := UnreliableRegion.grow

end UnreliableRegion

end BoundaryTag
