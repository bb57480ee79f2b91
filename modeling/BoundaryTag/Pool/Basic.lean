import BoundaryTag.FreeList.Index

namespace BoundaryTag

/-- An arena together with the index of its free blocks. The arena starts with an allocated block
    that has no payload, the prologue, and ends with the header of a block of size zero, the
    epilogue, so that every block in between has neighbours. -/
structure Pool where
  arena : Arena
  index : FreeIndex := {}

/-- The first block of every arena: a header and a footer with no payload between them. -/
def prologue : Block := ⟨16, by decide, by decide⟩

/-- The bytes before the first block's payload: padding, the prologue's tags and a header. -/
@[simp, grind =] def frontBytes : Nat := 32

namespace Pool

def putTags (pool : Pool) (block : Block) (tag : Tag) : Except Fault Pool := do
  return { pool with arena := ← pool.arena.putTags block tag }

/-- Adds a free block to the index. -/
def enlist (pool : Pool) (block : Block) : Except Fault Pool := do
  let (index, arena) ← pool.index.insert pool.arena block
  return { index, arena }

/-- Takes a free block out of the index. -/
def unlist (pool : Pool) (block : Block) : Except Fault Pool := do
  let (index, arena) ← pool.index.erase pool.arena block
  return { index, arena }

/-- Makes the block after `block` the epilogue. -/
def close (pool : Pool) (block : Block) : Except Fault Pool := do
  let last ← pool.arena.successor block
  let offset ← last.headerOffset pool.arena.build
  return { pool with arena := ← pool.arena.putTag offset .epilogue }

/-- Lays out the prologue and the epilogue in an arena of `frontBytes` bytes from `start` on. -/
def layOut (pool : Pool) (start : Nat) : Except Fault Pool := do
  let pool : Pool := { pool with arena := ← pool.arena.store start 0 }
  let pool ← pool.putTags prologue (.ofSize tagBytes true)
  pool.close prologue

/-- Makes a listed free block of the `size` bytes by which the arena grew. Its header replaces the
    old epilogue. -/
def append (pool : Pool) (block : Block) (size : Nat) : Except Fault Pool := do
  let pool ← pool.putTags block (.ofSize size false)
  let pool ← pool.close block
  pool.enlist block

end Pool

end BoundaryTag
