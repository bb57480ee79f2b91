import BoundaryTag.Arena

namespace BoundaryTag

/-- A free block keeps the payload offset of the block before it in its list in the first payload
    word and that of the block after it in the second; zero stands for none. -/
structure Link where
  prev : Option Block := none
  next : Option Block := none
deriving DecidableEq, Repr

namespace Link

def toWord (block : Option Block) : UInt64 := UInt64.ofNat ((block.map Block.offset).getD 0)

def ofWord (word : UInt64) : Option Block := Block.ofOffset? word.toNat

theorem ofWord_toWord (block : Option Block) : ofWord (toWord block) = block := by
  cases block with
  | none => rfl
  | some block =>
    have hword : (UInt64.ofNat block.offset).toNat = block.offset :=
      UInt64.toNat_ofNat_of_lt block.offset_lt
    simp only [ofWord, toWord, Option.map_some, Option.getD_some, hword]
    exact block.ofOffset?_offset

end Link

namespace Arena

def putPrev (a : Arena) (block : Block) (prev : Option Block) : Except Fault Arena :=
  a.store block.offset (Link.toWord prev)

def putNext (a : Arena) (block : Block) (next : Option Block) : Except Fault Arena := do
  a.store (← a.build.add block.offset wordBytes) (Link.toWord next)

/-- The links in a free block; the back link is read first. -/
def link (a : Arena) (block : Block) : Except Fault Link := do
  let prev ← a.load block.offset
  let next ← a.load (← a.build.add block.offset wordBytes)
  return ⟨Link.ofWord prev, Link.ofWord next⟩

def putLink (a : Arena) (block : Block) (link : Link) : Except Fault Arena := do
  let a ← a.putPrev block link.prev
  a.putNext block link.next

end Arena

end BoundaryTag
