import BoundaryTag.FreeList.Link
import BoundaryTag.Audit.Survey

namespace BoundaryTag.Arena

/-- Whether a link to `block` may be followed: the smallest block fits there. -/
def Followable (a : Arena) (block : Block) : Prop :=
  a.Holds block smallestBlock ∧ block.offset % alignment = 0

instance (a : Arena) (block : Block) : Decidable (a.Followable block) :=
  inferInstanceAs (Decidable (_ ∧ _))

/-- The block after `cursor` in its list. A list ends at a link that may not be followed. -/
def follow (a : Arena) (cursor : Option Block) : Except Fault (Option Block) :=
  match cursor with
  | none => .ok none
  | some block => if a.Followable block then return (← a.link block).next else .ok none

/-- More rounds than an arena has places for blocks. -/
def listBound (a : Arena) : Nat := a.len / alignment + 2

/-- Moves `fast` two links and `slow` one link at a time until `fast` meets the end of the list or
    `slow`. A list that has more than `steps` such rounds in it does not end. -/
def race (a : Arena) : (steps : Nat) → (slow fast : Option Block) → Except Fault Bool
  | 0, _, _ => .ok true
  | steps + 1, slow, fast => do
    let fast ← a.follow (← a.follow fast)
    let slow ← a.follow slow
    if fast.isNone then
      return false
    else if fast = slow then
      return true
    else
      a.race steps slow fast

/-- Whether the list from `start` on never ends. -/
def endless (a : Arena) (start : Option Block) : Except Fault Bool :=
  a.race a.listBound start start

end BoundaryTag.Arena
