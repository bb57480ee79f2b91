import BoundaryTag.Pool.Basic

namespace BoundaryTag

/-- The size of a block that may be missing. -/
def Arena.sizeOf? (a : Arena) : Option Block → Except Fault Nat
  | some block => return (← a.header block).size
  | none => return 0

namespace Pool

def unlist? (pool : Pool) : Option Block → Except Fault Pool
  | some block => pool.unlist block
  | none => return pool

/-- The neighbours of a block that are free: the one before it and the one after it. -/
def freeNeighbours (pool : Pool) (block : Block) : Except Fault (Option Block × Option Block) := do
  let a := pool.arena
  let before ← if (← a.precedingTag block).free then a.predecessor? block else pure none
  let next ← a.successor block
  return (before, if (← a.header next).free then some next else none)

/-- Merges a listed free block with its free neighbours. The merged block starts where the first of
    them does and is listed under its new size. -/
def coalesce (pool : Pool) (block : Block) : Except Fault (Block × Pool) := do
  let a := pool.arena
  let (before, after) ← pool.freeNeighbours block
  let size := (← a.header block).size
  if before.isNone ∧ after.isNone then
    return (block, pool)
  let gain ← a.build.add (← a.sizeOf? before) (← a.sizeOf? after)
  let size ← a.build.add size gain
  let pool ← pool.unlist block
  let pool ← pool.unlist? after
  let pool ← pool.unlist? before
  let merged := before.getD block
  let pool ← pool.putTags merged (.ofSize size false)
  return (merged, ← pool.enlist merged)

end Pool

end BoundaryTag
