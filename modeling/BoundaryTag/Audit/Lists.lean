import BoundaryTag.Audit.Cycle
import BoundaryTag.FreeList.Index

namespace BoundaryTag

/-- What a walk over free lists found. -/
structure ListSurvey where
  listed : Nat := 0
  violations : List Violation := []
deriving DecidableEq, Repr

def ListSurvey.append (first second : ListSurvey) : ListSurvey where
  listed := first.listed + second.listed
  violations := first.violations ++ second.violations

namespace Arena

/-- The violations of one block in the list of a class, after the block `prev`. -/
def inspectListed (a : Arena) (sizeClass : SizeClass) (prev : Option Block) (block : Block) :
    Except Fault (List Violation) := do
  let tag ← a.header block
  let link ← a.link block
  let allocated := if tag.allocated then [.listedAllocated sizeClass block] else []
  let misplaced := if SizeClass.ofSize tag.size = sizeClass then []
    else [.wrongClass sizeClass block tag.size]
  let stale := if link.prev = prev then [] else [.brokenLink sizeClass block]
  return allocated ++ misplaced ++ stale

/-- Walks at most `steps` blocks of a list. A link that may not be followed ends the walk. -/
def surveyList (a : Arena) (sizeClass : SizeClass) :
    (steps : Nat) → (prev cursor : Option Block) → Except Fault ListSurvey
  | 0, _, _ | _ + 1, _, none => .ok {}
  | steps + 1, prev, some block => do
    if ¬ a.Followable block then
      return { violations := [.outOfBounds block] }
    let violations ← a.inspectListed sizeClass prev block
    let rest ← a.surveyList sizeClass steps (some block) (← a.link block).next
    return ListSurvey.append { listed := 1, violations } rest

end Arena

namespace Pool

/-- Walks the list of one class. A list that does not end is not walked. -/
def surveyClass (pool : Pool) (sizeClass : SizeClass) : Except Fault ListSurvey := do
  let head := pool.index.head sizeClass
  if ← pool.arena.endless head then
    return { violations := [.listCycle sizeClass] }
  else
    pool.arena.surveyList sizeClass pool.arena.listBound none head

def surveyLists (pool : Pool) : Except Fault ListSurvey :=
  (List.finRange classCount).foldlM (fun found sizeClass => do
    return found.append (← pool.surveyClass sizeClass)) {}

end Pool

end BoundaryTag
