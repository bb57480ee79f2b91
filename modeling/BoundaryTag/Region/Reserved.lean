import BoundaryTag.Proofs.Alignment
import BoundaryTag.Region.Basic

namespace BoundaryTag

/-- The size of a page, where a system does not say otherwise. -/
@[simp, grind =] def pageBytes : Nat := 4096

/-- The least whole number of pages that holds `bytes`, in bytes. -/
def wholePages (bytes : Nat) (pageSize : Nat := pageBytes) : Except RegionError Nat :=
  match roundUp? bytes pageSize with
  | some pages => .ok pages
  | none => .error .overflow

/-- The address space of a process, where a system does not say otherwise. A reservation has to be
    smaller, or there is no room for it. -/
@[simp, grind =] def addressSpace : Nat := 140737488355328

theorem wholePages_eq_ok {bytes pageSize pages : Nat} :
    wholePages bytes pageSize = .ok pages ↔ roundUp? bytes pageSize = some pages := by
  rw [wholePages]
  cases roundUp? bytes pageSize <;> simp

/-- A region over a reservation of address space. The reservation is made of whole pages, which are
    committed as the region grows into them. -/
structure ReservedRegion where
  base : Nat
  reserved : Nat
  pageSize : Nat
  whole : wholePages reserved pageSize = .ok reserved
  committed : Nat := 0
  len : Nat := 0
  /-- Whether the system lets the pages between two offsets be used, when it is asked to. -/
  permits : Nat → Nat → Bool := fun _ _ => true

namespace ReservedRegion

/-- Reserves pages for `bytes` bytes where the system puts them, at `base`, in an address space of
    `space` bytes. None of them may be used before the system permits it. -/
def reserve (base bytes : Nat) (pageSize : Nat := pageBytes) (space : Nat := addressSpace)
    (permits : Nat → Nat → Bool := fun _ _ => true) : Except RegionError ReservedRegion :=
  match hpages : wholePages bytes pageSize with
  | .error error => .error error
  | .ok reserved =>
    if reserved = 0 then .error .invalidArgument
    else if space ≤ reserved then .error .exhausted
    else .ok {
      base, reserved, pageSize, permits
      whole := wholePages_eq_ok.2 (roundUp?_of_roundUp? (wholePages_eq_ok.1 hpages)) }

/-- Commits the pages up to offset `stop`, if the system permits their use. -/
def commit (region : ReservedRegion) (stop : Nat) : Except RegionError ReservedRegion := do
  if stop ≤ region.committed then return region
  let target := min (← wholePages stop region.pageSize) region.reserved
  if region.permits region.committed target then return { region with committed := target }
  throw .exhausted

def grow (region : ReservedRegion) (bytes : Nat) : Except RegionError Nat × ReservedRegion :=
  let stop := region.len + bytes
  if UInt64.size ≤ stop then (.error .overflow, region)
  else if region.reserved < stop then (.error .exhausted, region)
  else match region.commit stop with
    | .error error => (.error error, region)
    | .ok committed => (.ok (region.base + region.len), { committed with len := stop })

instance : Region ReservedRegion where
  base := ReservedRegion.base
  len := ReservedRegion.len
  grow := ReservedRegion.grow

end ReservedRegion

end BoundaryTag
