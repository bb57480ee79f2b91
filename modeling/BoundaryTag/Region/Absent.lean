import BoundaryTag.Region.Basic

namespace BoundaryTag

/-- The region of a system that has none. -/
inductive NoRegion : Type

namespace NoRegion

def reserve (_bytes : Nat) : Except RegionError NoRegion := .error .unsupported

instance : Region NoRegion where
  base := nofun
  len := nofun
  grow := nofun

end NoRegion

end BoundaryTag
