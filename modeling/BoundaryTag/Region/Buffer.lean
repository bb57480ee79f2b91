import BoundaryTag.Alignment
import BoundaryTag.Region.Basic

namespace BoundaryTag

/-- A region over a buffer of fixed size. -/
structure BufferRegion where
  base : Nat
  capacity : Nat
  len : Nat := 0
deriving DecidableEq, Repr

namespace BufferRegion

/-- The first bytes of a buffer are left out where its address is no multiple of 16. -/
def ofBuffer (address size : Nat) : Except RegionError BufferRegion :=
  match gapTo? address 16 with
  | none => .error .overflow
  | some gap =>
    if gap ≤ size then .ok { base := address + gap, capacity := size - gap }
    else .error .invalidArgument

def remaining (region : BufferRegion) : Nat := region.capacity - region.len

def grow (region : BufferRegion) (bytes : Nat) : Except RegionError Nat × BufferRegion :=
  let stop := region.len + bytes
  if UInt64.size ≤ stop then (.error .overflow, region)
  else if region.capacity < stop then (.error .exhausted, region)
  else (.ok (region.base + region.len), { region with len := stop })

instance : Region BufferRegion where
  base := BufferRegion.base
  len := BufferRegion.len
  grow := BufferRegion.grow

end BufferRegion

end BoundaryTag
