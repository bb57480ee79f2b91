import BoundaryTag.Pool.Basic

namespace BoundaryTag

structure BlockInfo where
  block : Block
  size : Nat
  allocated : Bool
deriving DecidableEq, Repr

/-- How many bytes a caller may use in a block. -/
def BlockInfo.usableBytes (info : BlockInfo) : Nat := info.size - tagBytes

/-- The blocks from `block` on, up to a header of size zero or the end of the arena. -/
def Arena.blocksFrom (a : Arena) (block : Block) : Except Fault (List BlockInfo) := do
  let stop ← a.build.add (← block.headerOffset a.build) wordBytes
  if a.len < stop then
    return []
  let tag ← a.header block
  if tag.size = 0 then
    return []
  let info := ⟨block, tag.size, tag.allocated⟩
  if block.offset < (block.skip tag.size).offset then
    return info :: (← a.blocksFrom (block.skip tag.size))
  else
    return [info]
termination_by UInt64.size - block.offset
decreasing_by
  have := (block.skip tag.size).offset_lt
  omega

structure Stats where
  arenaBytes : Nat := 0
  allocatedBlocks : Nat := 0
  allocatedBytes : Nat := 0
  freeBlocks : Nat := 0
  freeBytes : Nat := 0
  largestFree : Nat := 0
deriving DecidableEq, Repr

/-- Counts one more block. -/
def Stats.count (build : Build) (stats : Stats) (info : BlockInfo) : Except Fault Stats := do
  if info.allocated then
    return { stats with
      allocatedBlocks := stats.allocatedBlocks + 1
      allocatedBytes := ← build.add stats.allocatedBytes info.size }
  else
    return { stats with
      freeBlocks := stats.freeBlocks + 1
      freeBytes := ← build.add stats.freeBytes info.size
      largestFree := max stats.largestFree info.size }

namespace Pool

/-- All blocks between the prologue and the epilogue. -/
def blocks (pool : Pool) : Except Fault (List BlockInfo) := do
  pool.arena.blocksFrom (← pool.arena.successor prologue)

def stats (pool : Pool) : Except Fault Stats := do
  let blocks ← pool.blocks
  blocks.foldlM (Stats.count pool.arena.build) { arenaBytes := pool.arena.len }

end Pool

end BoundaryTag
