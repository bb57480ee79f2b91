import BoundaryTag.Pool.Coalesce

namespace BoundaryTag.Pool

/-- Frees the block at a caller's address. An address that can name no block and a block that is
    free already are faults; an unchecked build ignores both. -/
def release (pool : Pool) (address : Nat) : Except Fault Pool := do
  let a := pool.arena
  let found := a.blockAt? address
  a.build.require found.isSome (.foreignPointer address)
  let some block := found | return pool
  let tag ← a.header block
  a.build.require tag.allocated (.doubleFree address)
  if tag.free then
    return pool
  let pool ← pool.putTags block (tag.setAllocated false)
  let pool ← pool.enlist block
  return (← pool.coalesce block).2

/-- How many bytes a caller may use from an address on; none if it can name no block. -/
def usableSize (pool : Pool) (address : Nat) : Except Fault Nat :=
  match pool.arena.blockAt? address with
  | some block => pool.arena.usableBytes block
  | none => .ok 0

end BoundaryTag.Pool
