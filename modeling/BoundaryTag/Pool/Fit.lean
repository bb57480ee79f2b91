import BoundaryTag.Pool.Coalesce

namespace BoundaryTag

/-- How many blocks of its own class a request looks at. -/
@[simp, grind =] def scanDepth : Nat := 32

/-- The first of at most `limit` blocks of a list that has `size` bytes. -/
def Arena.firstFit? (a : Arena) (size : Nat) :
    (limit : Nat) → (start : Option Block) → Except Fault (Option Block)
  | 0, _ | _ + 1, none => .ok none
  | limit + 1, some block => do
    let link ← a.link block
    if size ≤ (← a.header block).size then
      return some block
    a.firstFit? size limit link.next

namespace Pool

/-- The first fit among the first `scanDepth` blocks of the size's own class, else the head of the
    next class above that has any. Every block of a class above is large enough. -/
def fit? (pool : Pool) (size : Nat) : Except Fault (Option Block) := do
  let sizeClass := SizeClass.ofSize size
  match ← pool.arena.firstFit? size scanDepth (pool.index.head sizeClass) with
  | some block => return some block
  | none => pool.index.headAbove pool.arena.build sizeClass

/-- Takes a listed free block into use for `size` bytes. What is left over becomes a free block, if
    it is large enough for one. -/
def take (pool : Pool) (block : Block) (size : Nat) : Except Fault Pool := do
  let pool ← pool.unlist block
  let whole := (← pool.arena.header block).size
  let rest ← pool.arena.build.sub whole size
  if rest < smallestBlock then
    pool.putTags block (.ofSize whole true)
  else
    let pool ← pool.putTags block (.ofSize size true)
    let remainder := block.skip size
    let pool ← pool.putTags remainder (.ofSize rest false)
    pool.enlist remainder

/-- Frees the first `lead` bytes of an allocated block. What stays allocated is the answer. -/
def splitLead (pool : Pool) (block : Block) (lead : Nat) : Except Fault (Block × Pool) := do
  if lead = 0 then
    return (block, pool)
  let whole := (← pool.arena.header block).size
  let pool ← pool.putTags block (.ofSize lead false)
  let rest := block.skip lead
  let pool ← pool.putTags rest (.ofSize (← pool.arena.build.sub whole lead) true)
  let pool ← pool.enlist block
  return (rest, (← pool.coalesce block).2)

/-- Frees the end of an allocated block behind its first `size` bytes, if it is large enough for a
    free block. -/
def splitTail (pool : Pool) (block : Block) (size : Nat) : Except Fault Pool := do
  let whole := (← pool.arena.header block).size
  let rest ← pool.arena.build.sub whole size
  if rest < smallestBlock then
    return pool
  else
    let pool ← pool.putTags block (.ofSize size true)
    let tail := block.skip size
    let pool ← pool.putTags tail (.ofSize rest false)
    let pool ← pool.enlist tail
    return (← pool.coalesce tail).2

end Pool

end BoundaryTag
