import BoundaryTag.Audit.Lists
import BoundaryTag.Heap.Basic

namespace BoundaryTag

/-- What an audit tells of a pool. -/
structure Report where
  blocks : Nat
  freeBlocks : Nat
  listed : Nat
  violations : List Violation
deriving DecidableEq, Repr

namespace Report

def isOk (report : Report) : Bool := report.violations.isEmpty

/-- The first violation found. -/
def first (report : Report) : Option Violation := report.violations.head?

end Report

/-- Audits a pool: its arena first, then its lists, and last whether both have as many free blocks.
    The lists are not walked if the walk over the arena is not complete. -/
def Pool.audit (pool : Pool) : Except Fault Report := do
  let arena ← pool.arena.survey
  let lists ← if arena.complete then pool.surveyLists else pure {}
  let count : List Violation :=
    if arena.complete ∧ lists.listed ≠ arena.freeBlocks then
      [.freeCount arena.freeBlocks lists.listed]
    else []
  return {
    blocks := arena.blocks
    freeBlocks := arena.freeBlocks
    listed := lists.listed
    violations := arena.violations ++ lists.violations ++ count }

/-- Audits the heap and logs every violation. -/
def Heap.audit {ρ : Type} : HeapM ρ Report := do
  let report ← (← get).pool.audit
  report.violations.forM fun found => record (.violation found)
  return report

end BoundaryTag
