import BoundaryTag.SizeClass
import BoundaryTag.Tag

namespace BoundaryTag

/-- What an audit can find wrong with a heap. -/
inductive Violation where
  | prologue (header footer : Tag)
  | epilogue (offset : Nat) (tag : Tag)
  | outOfBounds (block : Block)
  | badSize (block : Block) (size : Nat)
  | misaligned (block : Block)
  | tagMismatch (block : Block) (header footer : Tag)
  | missedCoalesce (block next : Block)
  | listedAllocated (sizeClass : SizeClass) (block : Block)
  | wrongClass (sizeClass : SizeClass) (block : Block) (size : Nat)
  | brokenLink (sizeClass : SizeClass) (block : Block)
  | listCycle (sizeClass : SizeClass)
  | freeCount (walked listed : Nat)
deriving DecidableEq, Repr

/-- A word in hexadecimal: lower case, after `0x`, without leading zeros. -/
def Tag.hex (tag : Tag) : String := "0x" ++ String.ofList (Nat.toDigits 16 tag.raw.toNat)

namespace Violation

def name : Violation → String
  | prologue .. => "Prologue"
  | epilogue .. => "Epilogue"
  | outOfBounds .. => "OutOfBounds"
  | badSize .. => "BadSize"
  | misaligned .. => "Misaligned"
  | tagMismatch .. => "TagMismatch"
  | missedCoalesce .. => "MissedCoalesce"
  | listedAllocated .. => "ListedAllocated"
  | wrongClass .. => "WrongClass"
  | brokenLink .. => "BrokenLink"
  | listCycle .. => "ListCycle"
  | freeCount .. => "FreeCount"

def message : Violation → String
  | prologue header footer => s!"prologue corrupt: header {header.hex}, footer {footer.hex}"
  | epilogue offset tag => s!"epilogue {tag.hex} at offset {offset} is not at the arena end"
  | outOfBounds block => s!"block {block.offset} runs past the arena"
  | badSize block size => s!"block {block.offset} has bad size {size}"
  | misaligned block => s!"block {block.offset} payload is misaligned"
  | tagMismatch block header footer =>
    s!"block {block.offset} header {header.hex} does not match footer {footer.hex}"
  | missedCoalesce block next => s!"adjacent free blocks {block.offset} and {next.offset}"
  | listedAllocated sizeClass block =>
    s!"class {sizeClass.val} lists allocated block {block.offset}"
  | wrongClass sizeClass block size =>
    let proper := SizeClass.ofSize size
    s!"class {sizeClass.val} lists block {block.offset} of size {size}, " ++
      s!"which belongs to class {proper.val}"
  | brokenLink sizeClass block =>
    s!"class {sizeClass.val}: block {block.offset} has a stale back link"
  | listCycle sizeClass => s!"class {sizeClass.val} list does not terminate"
  | freeCount walked listed => s!"{walked} free blocks in the arena but {listed} listed"

end Violation

end BoundaryTag
