import BoundaryTag.Alignment
import BoundaryTag.Block
import BoundaryTag.Memory
import BoundaryTag.Tag

namespace BoundaryTag

/-- The span of memory in which blocks lie, from the address `base` on. Words and tags are reached
    by their offsets in it. -/
structure Arena where
  build : Build
  base : Nat
  len : Nat
  memory : Memory := {}

namespace Arena

def isEmpty (a : Arena) : Bool := a.len == 0

def setLen (a : Arena) (len : Nat) : Except Fault Arena := do
  a.build.require (a.len ≤ len) .arenaShrinks
  return { a with len }

/-- A checked build refuses a word that is not aligned or does not end within the arena. The
    alignment is tested first. -/
def checkWord (a : Arena) (offset : Nat) : Except Fault Unit := do
  a.build.require (offset % wordBytes = 0) (.unalignedWord offset)
  a.build.require (offset + wordBytes ≤ a.len) (.wordOutside offset a.len)

def load (a : Arena) (offset : Nat) : Except Fault UInt64 := do
  a.checkWord offset
  return a.memory.load offset

def store (a : Arena) (offset : Nat) (word : UInt64) : Except Fault Arena := do
  a.checkWord offset
  return { a with memory := a.memory.store offset word }

def tagAt (a : Arena) (offset : Nat) : Except Fault Tag := do
  return ⟨← a.load offset⟩

def putTag (a : Arena) (offset : Nat) (tag : Tag) : Except Fault Arena :=
  a.store offset tag.raw

def header (a : Arena) (block : Block) : Except Fault Tag := do
  a.tagAt (← block.headerOffset a.build)

/-- The tag at the end of a block, found through the size in its header. -/
def footer (a : Arena) (block : Block) : Except Fault Tag := do
  a.tagAt (← block.footerOffset a.build (← a.header block).size)

/-- The footer of the block before this one. -/
def precedingTag (a : Arena) (block : Block) : Except Fault Tag := do
  a.tagAt (← block.precedingFooterOffset a.build)

/-- Writes a tag as header and footer of a block of the tag's size. -/
def putTags (a : Arena) (block : Block) (tag : Tag) : Except Fault Arena := do
  let a ← a.putTag (← block.headerOffset a.build) tag
  a.putTag (← block.footerOffset a.build tag.size) tag

/-- The block after this one, by the size in this one's header. -/
def successor (a : Arena) (block : Block) : Except Fault Block := do
  return block.skip (← a.header block).size

/-- The block before this one, by the size in that one's footer. -/
def predecessor? (a : Arena) (block : Block) : Except Fault (Option Block) := do
  return block.skipBack? (← a.precedingTag block).size

/-- How many bytes a caller may use in a block. -/
def usableBytes (a : Arena) (block : Block) : Except Fault Nat := do
  return (← a.header block).size - tagBytes

/-- The address a caller gets for a block. -/
def address (a : Arena) (block : Block) : Nat := a.base + block.offset

/-- The block that a caller's address could name. -/
def blockAt? (a : Arena) (address : Nat) : Option Block :=
  let offset := address - a.base
  if a.base ≤ address ∧ offset < a.len ∧ offset % alignment = 0 then Block.ofOffset? offset
  else none

/-- What a caller does when it writes `f 0, …, f (count - 1)` from `address` on. -/
def fill (a : Arena) (address count : Nat) (f : Nat → UInt8) : Arena :=
  { a with memory := a.memory.fill (address - a.base) count f }

/-- Writes zeros from `address` on. -/
def zero (a : Arena) (address count : Nat) : Arena :=
  { a with memory := a.memory.zero (address - a.base) count }

/-- Copies bytes between two addresses. -/
def copy (a : Arena) (source target count : Nat) : Arena :=
  { a with memory := a.memory.copy (source - a.base) (target - a.base) count }

/-- The byte a caller reads at `address`. -/
def byte (a : Arena) (address : Nat) : UInt8 := a.memory.byte (address - a.base)

theorem checkWord_eq_ok (a : Arena) {offset : Nat} (haligned : offset % 8 = 0)
    (hinside : offset + 8 ≤ a.len) : a.checkWord offset = .ok () := by
  simp [checkWord, Build.require_eq_ok, haligned, hinside]

theorem load_eq_ok (a : Arena) {offset : Nat} (haligned : offset % 8 = 0)
    (hinside : offset + 8 ≤ a.len) : a.load offset = .ok (a.memory.load offset) := by
  rw [load, a.checkWord_eq_ok haligned hinside]
  rfl

theorem store_eq_ok (a : Arena) {offset : Nat} (haligned : offset % 8 = 0)
    (hinside : offset + 8 ≤ a.len) (word : UInt64) :
    a.store offset word = .ok { a with memory := a.memory.store offset word } := by
  rw [store, a.checkWord_eq_ok haligned hinside]
  rfl

theorem tagAt_eq {a : Arena} {offset : Nat} (haligned : offset % 8 = 0)
    (hinside : offset + 8 ≤ a.len) : a.tagAt offset = .ok ⟨a.memory.load offset⟩ := by
  rw [tagAt, a.load_eq_ok haligned hinside]
  rfl

theorem header_eq_load {a : Arena} {block : Block} (haligned : block.offset % 8 = 0)
    (hinside : block.offset ≤ a.len) :
    a.header block = .ok ⟨a.memory.load (block.offset - 8)⟩ := by
  have hpos := block.offset_pos
  rw [header, Block.headerOffset_eq_ok _ (by omega), ok_bind, tagAt_eq (by omega) (by omega)]

end Arena

end BoundaryTag
