import BoundaryTag.FreeList.Link
import BoundaryTag.SizeClass

namespace BoundaryTag

/-- One doubly linked list of free blocks for each size class, through the payloads of the
    blocks. -/
structure FreeIndex where
  heads : Vector (Option Block) classCount := Vector.replicate classCount none

namespace FreeIndex

/-- The first block of a class; none for a number that is no class. -/
def head (index : FreeIndex) (number : Nat) : Option Block := index.heads[number]?.join

/-- Forgets all blocks. What they hold as links stays. -/
def clear (_ : FreeIndex) : FreeIndex := {}

def isEmpty (index : FreeIndex) : Bool := index.heads.all Option.isNone

/-- The head of the lowest class above `number` that is not empty. -/
def headAbove (index : FreeIndex) (build : Build) (number : Nat) :
    Except Fault (Option Block) := do
  let first ← build.add number 1
  return (index.heads.toList.drop first).findSome? id

/-- Puts a block at the head of its class, which is read from its header. -/
def insert (index : FreeIndex) (a : Arena) (block : Block) :
    Except Fault (FreeIndex × Arena) := do
  let sizeClass := SizeClass.ofSize (← a.header block).size
  let head := index.heads[sizeClass]
  let a ← a.putLink block ⟨none, head⟩
  let a ← match head with
    | some head => a.putPrev head (some block)
    | none => pure a
  return (⟨index.heads.set sizeClass (some block)⟩, a)

/-- Unlinks a block. One without a predecessor must be the head of its class. -/
def erase (index : FreeIndex) (a : Arena) (block : Block) :
    Except Fault (FreeIndex × Arena) := do
  let sizeClass := SizeClass.ofSize (← a.header block).size
  let link ← a.link block
  let (index, a) ← match link.prev with
    | some prev => do
      let a ← a.putNext prev link.next
      pure (index, a)
    | none => do
      let head := index.heads[sizeClass]
      a.build.require (head = some block) (.unlistedBlock block.offset (head.map Block.offset))
      pure (⟨index.heads.set sizeClass link.next⟩, a)
  let a ← match link.next with
    | some next => a.putPrev next link.prev
    | none => pure a
  return (index, a)

end FreeIndex

/-- At most `limit` blocks of a list from `start` on. Each link is read before its block counts. -/
def Arena.listFrom (a : Arena) :
    (limit : Nat) → (start : Option Block) → Except Fault (List Block)
  | 0, _ | _ + 1, none => .ok []
  | limit + 1, some block => do
    let link ← a.link block
    return block :: (← a.listFrom limit link.next)

end BoundaryTag
