import BoundaryTag.Fault

namespace BoundaryTag

/-- The size of a word. -/
@[simp, grind =] def wordBytes : Nat := 8

/-- Payloads and block sizes are multiples of this. -/
@[simp, grind =] def alignment : Nat := 16

/-- What a block spends on its header and footer. -/
@[simp, grind =] def tagBytes : Nat := 16

/-- The size of the smallest block: header, footer and two link words. -/
@[simp, grind =] def smallestBlock : Nat := 32

/-- A block, named by the arena offset of its payload: a word that is not zero. A block of `size`
    bytes whose payload starts at `b` has its header at `b - 8` and its footer at `b + size - 16`;
    the next payload starts at `b + size`. -/
structure Block where
  offset : Nat
  offset_pos : 0 < offset
  offset_lt : offset < UInt64.size
deriving DecidableEq, Repr

namespace Block

def ofOffset? (offset : Nat) : Option Block :=
  if h : 0 < offset ∧ offset < UInt64.size then some ⟨offset, h.1, h.2⟩ else none

/-- Where the header lies. -/
def headerOffset (block : Block) (build : Build) : Except Fault Nat :=
  build.sub block.offset wordBytes

/-- Where the footer lies, in a block of `size` bytes. -/
def footerOffset (block : Block) (build : Build) (size : Nat) : Except Fault Nat := do
  build.sub (← build.add block.offset size) tagBytes

/-- Where the footer of the block before this one lies. -/
def precedingFooterOffset (block : Block) (build : Build) : Except Fault Nat :=
  build.sub block.offset tagBytes

/-- The block `size` bytes further on. The offset stops at the largest word. -/
def skip (block : Block) (size : Nat) : Block where
  offset := min (block.offset + size) (UInt64.size - 1)
  offset_pos := by grind [block.offset_pos]
  offset_lt := by grind

/-- The block `size` bytes further back, if that offset is above zero. -/
def skipBack? (block : Block) (size : Nat) : Option Block := ofOffset? (block.offset - size)

@[ext] theorem ext {b c : Block} (h : b.offset = c.offset) : b = c := by
  cases b
  cases c
  cases h
  rfl

theorem ofOffset?_eq_some {offset : Nat} (hpos : 0 < offset) (hlt : offset < UInt64.size) :
    ofOffset? offset = some ⟨offset, hpos, hlt⟩ :=
  dif_pos ⟨hpos, hlt⟩

theorem ofOffset?_offset (block : Block) : ofOffset? block.offset = some block :=
  ofOffset?_eq_some block.offset_pos block.offset_lt

theorem offset_skip {block : Block} {size : Nat} (hfit : block.offset + size < UInt64.size) :
    (block.skip size).offset = block.offset + size := by
  grind [skip]

theorem headerOffset_eq_ok {block : Block} (build : Build) (hoffset : 8 ≤ block.offset) :
    block.headerOffset build = .ok (block.offset - 8) :=
  build.sub_eq_ok hoffset

theorem footerOffset_eq_ok {block : Block} (build : Build) {size : Nat}
    (hlow : 16 ≤ block.offset + size) (hfit : block.offset + size < UInt64.size) :
    block.footerOffset build size = .ok (block.offset + size - 16) := by
  rw [footerOffset, build.add_eq_ok hfit, ok_bind]
  exact build.sub_eq_ok hlow

end Block

end BoundaryTag
