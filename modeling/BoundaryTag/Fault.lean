namespace BoundaryTag

/-- What stops a checked program in the middle of an operation. -/
inductive Fault where
  | addOverflow
  | subOverflow
  | shiftOverflow
  | unalignedWord (offset : Nat)
  | wordOutside (offset len : Nat)
  | arenaShrinks
  | growthNotContiguous (start expected : Nat)
  | unlistedBlock (block : Nat) (head : Option Nat)
  | foreignPointer (address : Nat)
  | doubleFree (address : Nat)
deriving DecidableEq, Repr

namespace Fault

/-- The text for a fault. Addresses appear as `<ptr>`, so that the text does not depend on where
    the arena lies. -/
def message : Fault → String
  | addOverflow => "attempt to add with overflow"
  | subOverflow => "attempt to subtract with overflow"
  | shiftOverflow => "attempt to shift left with overflow"
  | unalignedWord offset => s!"unaligned word offset {offset}"
  | wordOutside offset len => s!"word offset {offset} outside arena of {len} bytes"
  | arenaShrinks => "arena never shrinks"
  | growthNotContiguous start expected =>
    "assertion `left == right` failed: region grew discontiguously" ++
      s!"\n  left: {start}\n right: {expected}"
  | unlistedBlock block head =>
    let found := match head with
      | none => "None"
      | some other => s!"Some(Block({other}))"
    s!"assertion `left == right` failed: unlisted block Block({block})" ++
      s!"\n  left: {found}\n right: Some(Block({block}))"
  | foreignPointer _ => "free of foreign pointer <ptr>"
  | doubleFree _ => "double free of <ptr>"

end Fault

/-- A checked build stops at an overflowing operation and at a broken assertion. An unchecked build
    computes modulo `2 ^ 64` and skips assertions. -/
inductive Build where
  | checked
  | unchecked
deriving DecidableEq, Repr

namespace Build

/-- The sum of two words. -/
def add (build : Build) (a b : Nat) : Except Fault Nat :=
  if a + b < UInt64.size then .ok (a + b)
  else match build with
    | .checked => .error .addOverflow
    | .unchecked => .ok ((a + b) % UInt64.size)

/-- The difference of two words. -/
def sub (build : Build) (a b : Nat) : Except Fault Nat :=
  if b ≤ a then .ok (a - b)
  else match build with
    | .checked => .error .subOverflow
    | .unchecked => .ok (a + UInt64.size - b)

/-- A word shifted left by `amount` bits. Bits that leave the word are dropped; only an amount of
    64 or more is a fault. -/
def shiftLeft (build : Build) (a amount : Nat) : Except Fault Nat :=
  if amount < 64 then .ok ((a <<< amount) % UInt64.size)
  else match build with
    | .checked => .error .shiftOverflow
    | .unchecked => .ok ((a <<< (amount % 64)) % UInt64.size)

/-- An assertion, tested by checked builds only. -/
def require (build : Build) (condition : Prop) [Decidable condition] (fault : Fault) :
    Except Fault Unit :=
  if condition ∨ build = .unchecked then .ok () else .error fault

theorem add_eq_ok (build : Build) {a b : Nat} (hfit : a + b < UInt64.size) :
    build.add a b = .ok (a + b) :=
  if_pos hfit

theorem sub_eq_ok (build : Build) {a b : Nat} (hle : b ≤ a) : build.sub a b = .ok (a - b) :=
  if_pos hle

theorem shiftLeft_eq_ok (build : Build) {a amount : Nat} (hamount : amount < 64)
    (hfit : a <<< amount < UInt64.size) : build.shiftLeft a amount = .ok (a <<< amount) := by
  unfold shiftLeft
  rw [if_pos hamount, Nat.mod_eq_of_lt hfit]

theorem require_eq_ok (build : Build) {condition : Prop} [Decidable condition] {fault : Fault}
    (hcondition : condition) : build.require condition fault = .ok () :=
  if_pos (.inl hcondition)

end Build

@[simp] theorem ok_bind {α β : Type} (value : α) (next : α → Except Fault β) :
    (Except.ok value >>= next) = next value := rfl

@[simp] theorem error_bind {α β : Type} (fault : Fault) (next : α → Except Fault β) :
    (Except.error fault >>= next) = .error fault := rfl

@[simp] theorem map_ok {α β : Type} (f : α → β) (value : α) :
    (f <$> (Except.ok value : Except Fault α)) = .ok (f value) := rfl

@[simp] theorem map_error {α β : Type} (f : α → β) (fault : Fault) :
    (f <$> (Except.error fault : Except Fault α)) = .error fault := rfl

@[simp] theorem pure_eq_ok {α : Type} (value : α) :
    (pure value : Except Fault α) = .ok value := rfl

theorem toOption_eq_some {α : Type} {result : Except Fault α} {value : α} :
    result.toOption = some value ↔ result = .ok value := by
  cases result <;> simp [Except.toOption]

end BoundaryTag
