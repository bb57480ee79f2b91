import BoundaryTag.Audit.Violation
import BoundaryTag.Pool.Basic

namespace BoundaryTag

/-- What a walk over the arena found. A walk that is not complete met a tag that does not say where
    to go on. -/
structure Survey where
  blocks : Nat := 0
  freeBlocks : Nat := 0
  violations : List Violation := []
  complete : Bool
deriving DecidableEq, Repr

namespace Survey

/-- The findings on one block, followed by those on the rest. -/
def cons (free : Bool) (violations : List Violation) (rest : Survey) : Survey where
  blocks := rest.blocks + 1
  freeBlocks := rest.freeBlocks + free.toNat
  violations := violations ++ rest.violations
  complete := rest.complete

end Survey

namespace Arena

/-- Whether `size` bytes from a block's payload on lie in the arena, after the prologue's header. -/
def Holds (a : Arena) (block : Block) (size : Nat) : Prop :=
  tagBytes ≤ block.offset ∧ block.offset + size < UInt64.size ∧ block.offset + size ≤ a.len

instance (a : Arena) (block : Block) (size : Nat) : Decidable (a.Holds block size) :=
  inferInstanceAs (Decidable (_ ∧ _))

/-- The violations of a single block in its place. `before` is the block before it, if that one is
    free. -/
def inspect (a : Arena) (block : Block) (before : Option Block) :
    Except Fault (List Violation) := do
  let header ← a.header block
  let footer ← a.tagAt (← block.footerOffset a.build header.size)
  let misaligned := if a.address block % alignment = 0 then [] else [.misaligned block]
  let mismatch := if footer = header then [] else [.tagMismatch block header footer]
  let missed := match before with
    | some before => if header.free then [.missedCoalesce before block] else []
    | none => []
  return misaligned ++ mismatch ++ missed

/-- The violations of the header of size zero that ends a walk. -/
def inspectLast (a : Arena) (block : Block) : Except Fault (List Violation) := do
  let tag ← a.header block
  let last ← a.build.sub a.len wordBytes
  let offset ← block.headerOffset a.build
  return if tag.allocated ∧ offset = last then [] else [.epilogue offset tag]

/-- Walks the arena from `block` on. The walk goes on only behind a block that ends in the arena,
    and so comes to an end without a bound. -/
def surveyFrom (a : Arena) (block : Block) (before : Option Block) : Except Fault Survey := do
  if ¬ a.Holds block 0 then
    return { violations := [.outOfBounds block], complete := false }
  let tag ← a.header block
  if tag.size = 0 then
    return { violations := ← a.inspectLast block, complete := true }
  if tag.size < smallestBlock then
    return { violations := [.badSize block tag.size], complete := false }
  if a.Holds block tag.size then
    let violations ← a.inspect block before
    let rest ← a.surveyFrom (block.skip tag.size) (if tag.free then some block else none)
    return rest.cons tag.free violations
  else
    return { violations := [.outOfBounds block], complete := false }
termination_by UInt64.size - block.offset
decreasing_by
  have hfit := (‹a.Holds block tag.size›).2.1
  simp only [smallestBlock, Nat.not_lt] at *
  rw [Block.offset_skip hfit]
  omega

/-- Walks the whole arena. Nothing is walked if the prologue is damaged. -/
def survey (a : Arena) : Except Fault Survey := do
  let expected := Tag.ofSize tagBytes true
  let header ← a.header prologue
  let footer ← a.tagAt (← prologue.footerOffset a.build tagBytes)
  if header = expected ∧ footer = expected then
    a.surveyFrom (← a.successor prologue) none
  else
    return { violations := [.prologue header footer], complete := false }

end Arena

end BoundaryTag
