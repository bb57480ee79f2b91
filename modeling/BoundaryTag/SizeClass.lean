import BoundaryTag.Block

namespace BoundaryTag

@[simp, grind =] def classCount : Nat := 14

/-- Class 0 holds sizes below the smallest block. From class 1 on the floor doubles from class to
    class, and the last class has no upper end. -/
abbrev SizeClass := Fin classCount

namespace SizeClass

/-- The highest class whose floor is at most `size`. -/
def ofSize (size : Nat) : SizeClass :=
  if size < smallestBlock then ⟨0, by decide⟩
  else
    ⟨min (classCount - 1) ((size / smallestBlock).log2 + 1), by simp only [classCount]; omega⟩

/-- The least size of a class, for any class number: from 1 on, the smallest block shifted left. -/
def floor (build : Build) (number : Nat) : Except Fault Nat :=
  if number = 0 then .ok 0 else build.shiftLeft smallestBlock (number - 1)

end SizeClass

end BoundaryTag
