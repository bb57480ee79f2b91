import BoundaryTag.FreeList.Index
import Mathlib.Data.List.FinRange

namespace BoundaryTag

theorem mem_drop_finRange {n k : Nat} {d : Fin n} : d ∈ (List.finRange n).drop k ↔ k ≤ d := by
  rw [List.mem_drop_iff_getElem]
  constructor
  · rintro ⟨i, hi, rfl⟩
    simp
  · intro hle
    refine ⟨d - k, ?_, ?_⟩
    · rw [List.length_finRange]
      omega
    · ext
      simp only [List.getElem_finRange, Fin.val_cast]
      omega

/-- A search through the numbers from `k` on answers at the lowest one that has an answer. -/
theorem exists_lowest_of_findSome? {n k : Nat} {α : Type} {f : Fin n → Option α} {a : α}
    (h : ((List.finRange n).drop k).findSome? f = some a) :
    ∃ i : Fin n, k ≤ i ∧ f i = some a ∧ ∀ j : Fin n, k ≤ j → j < i → f j = none := by
  obtain ⟨lower, i, higher, hsplit, hanswer, hlower⟩ := List.findSome?_eq_some_iff.1 h
  have hsorted : (lower ++ i :: higher).Pairwise (· < ·) :=
    hsplit ▸ (List.pairwise_lt_finRange n).drop
  have hmem : ∀ {j}, j ∈ lower ++ i :: higher ↔ k ≤ j := by
    rw [← hsplit]
    exact mem_drop_finRange
  refine ⟨i, hmem.1 (List.mem_append_right _ List.mem_cons_self), hanswer, fun j hlow hlt => ?_⟩
  have hafter := (List.pairwise_cons.1 (List.pairwise_append.1 hsorted).2.1).1
  rcases List.mem_append.1 (hmem.2 hlow) with hbelow | hother
  · exact hlower j hbelow
  · rcases List.mem_cons.1 hother with rfl | hother
    · exact absurd hlt (lt_irrefl _)
    · exact absurd (hafter j hother) (lt_asymm hlt)

namespace FreeIndex

/-- The first head in the classes from `start` on. -/
def headFrom (index : FreeIndex) (start : Nat) : Option Block :=
  ((List.finRange classCount).drop start).findSome? fun c : SizeClass => index.head c

/-- The head of the lowest of some classes that has one; none if none of them has. -/
inductive Lowest (index : FreeIndex) (among : SizeClass → Prop) : Option Block → Prop
  | found {sizeClass : SizeClass} {block : Block} : among sizeClass →
    index.head sizeClass = some block →
    (∀ lower, among lower → lower < sizeClass → index.head lower = none) →
    Lowest index among (some block)
  | exhausted : (∀ sizeClass, among sizeClass → index.head sizeClass = none) →
    Lowest index among none

/-- What the search above a number answers, for any word. It does what it is for if the word is not
    the last one, and above that only where there is nothing to find. -/
structure Ascends (index : FreeIndex) (build : Build) (number : UInt64) : Prop where
  lowest_iff : (∃ found, index.headAbove build number.toNat = .ok found ∧
      index.Lowest (fun sizeClass => number.toNat < sizeClass) found) ↔
    number.toNat + 1 < UInt64.size ∨ build = .unchecked ∧ index.isEmpty = true
  none_of_ge : 13 ≤ number.toNat → number.toNat + 1 < UInt64.size →
    index.headAbove build number.toNat = .ok none
  checked_last : number.toNat + 1 = UInt64.size → build = .checked →
    index.headAbove build number.toNat = .error .addOverflow
  unchecked_last : number.toNat + 1 = UInt64.size → build = .unchecked →
    ∃ found, index.headAbove build number.toNat = .ok found ∧ index.Lowest (fun _ => True) found

variable (index : FreeIndex) {among : SizeClass → Prop} {number : Nat}

theorem head_of_lt {i : Nat} (hi : i < classCount) : index.head i = index.heads[i] := by
  rw [head, Vector.getElem?_eq_getElem hi]
  rfl

theorem isEmpty_iff :
    index.isEmpty = true ↔ ∀ sizeClass : SizeClass, index.head sizeClass = none := by
  simp only [isEmpty, Vector.all_eq_true, Option.isNone_iff_eq_none]
  constructor
  · intro hnone sizeClass
    rw [index.head_of_lt sizeClass.isLt]
    exact hnone sizeClass sizeClass.isLt
  · intro hnone i hi
    rw [← index.head_of_lt hi]
    exact hnone ⟨i, hi⟩

/-- A search through the heads goes through the classes in their order. -/
theorem findSome?_drop_heads (start : Nat) :
    (index.heads.toList.drop start).findSome? id = index.headFrom start := by
  have hheads : index.heads.toList =
      (List.finRange classCount).map fun c : SizeClass => index.head c := by
    have hlength : index.heads.toList.length = classCount := Vector.length_toList
    apply List.ext_getElem (by rw [hlength, List.length_map, List.length_finRange])
    intro i hi _
    rw [Vector.getElem_toList, List.getElem_map, List.getElem_finRange]
    exact (index.head_of_lt (hlength ▸ hi)).symm
  rw [hheads, ← List.map_drop, List.findSome?_map]
  rfl

theorem headAbove_eq (build : Build) (hnumber : number + 1 < UInt64.size) :
    index.headAbove build number = .ok (index.headFrom (number + 1)) := by
  rw [headAbove, build.add_eq_ok hnumber, ok_bind, findSome?_drop_heads]
  rfl

theorem headAbove_checked_last (hnumber : number + 1 = UInt64.size) :
    index.headAbove .checked number = .error .addOverflow := by
  have hadd : Build.checked.add number 1 = .error .addOverflow := if_neg hnumber.not_lt
  rw [headAbove, hadd, error_bind]

theorem headAbove_unchecked_last (hnumber : number + 1 = UInt64.size) :
    index.headAbove .unchecked number = .ok (index.headFrom 0) := by
  have hadd : Build.unchecked.add number 1 = .ok 0 := by
    rw [Build.add, if_neg hnumber.not_lt, hnumber, Nat.mod_self]
  rw [headAbove, hadd, ok_bind, findSome?_drop_heads]
  rfl

theorem lowest_headFrom {start : Nat}
    (hamong : ∀ sizeClass, among sizeClass ↔ start ≤ sizeClass) :
    index.Lowest among (index.headFrom start) := by
  cases hsearch : index.headFrom start with
  | none =>
    refine .exhausted fun sizeClass hclass => ?_
    have hmem := mem_drop_finRange.2 ((hamong sizeClass).1 hclass)
    exact List.findSome?_eq_none_iff.1 hsearch sizeClass hmem
  | some block =>
    obtain ⟨sizeClass, hstart, hhead, hlower⟩ := exists_lowest_of_findSome? hsearch
    exact .found ((hamong sizeClass).2 hstart) hhead fun lower hclass =>
      hlower lower ((hamong lower).1 hclass)

theorem exists_headAbove (build : Build) (hnumber : number + 1 < UInt64.size) :
    ∃ found, index.headAbove build number = .ok found ∧
      index.Lowest (fun sizeClass => number < sizeClass) found :=
  ⟨_, index.headAbove_eq build hnumber, index.lowest_headFrom fun _ => Iff.rfl⟩

theorem exists_headAbove_unchecked_last (hnumber : number + 1 = UInt64.size) :
    ∃ found, index.headAbove .unchecked number = .ok found ∧
      index.Lowest (fun _ => True) found := by
  refine ⟨_, index.headAbove_unchecked_last hnumber, ?_⟩
  exact index.lowest_headFrom fun sizeClass => iff_of_true trivial (Nat.zero_le sizeClass)

variable {index}

/-- Which head is the lowest is decided, and so is whether there is one. -/
theorem Lowest.unique {found other : Option Block} (h : index.Lowest among found)
    (hother : index.Lowest among other) : found = other := by
  cases h with
  | @found c block hclass hhead hlower =>
    cases hother with
    | @found d block' hclass' hhead' hlower' =>
      rcases lt_trichotomy c d with hlt | rfl | hlt
      · cases hhead.symm.trans (hlower' c hclass hlt)
      · exact hhead.symm.trans hhead'
      · cases hhead'.symm.trans (hlower d hclass' hlt)
    | exhausted hnone => cases hhead.symm.trans (hnone c hclass)
  | exhausted hnone =>
    cases hother with
    | @found d _ hclass hhead _ => cases hhead.symm.trans (hnone d hclass)
    | exhausted _ => rfl

theorem lowest_none_of_ge (hnumber : 13 ≤ number) :
    index.Lowest (fun sizeClass => number < sizeClass) none := by
  refine .exhausted fun sizeClass hclass => ?_
  have hlast : sizeClass.val < 14 := sizeClass.isLt
  have hlow : number < sizeClass := hclass
  omega

/-- No class lies above the last word, so a search that starts over there is right only if it finds
    nothing in any class. -/
theorem isEmpty_of_lowest_last {found : Option Block} (hnumber : number + 1 = UInt64.size)
    (habove : index.headAbove .unchecked number = .ok found)
    (hlowest : index.Lowest (fun sizeClass => number < sizeClass) found) :
    index.isEmpty = true := by
  obtain ⟨other, hother, hall⟩ := index.exists_headAbove_unchecked_last hnumber
  obtain rfl : found = other := Except.ok.inj (habove.symm.trans hother)
  have hlast : 13 ≤ number := by
    have : 13 + 1 ≤ UInt64.size := by decide
    omega
  obtain rfl : found = none := hlowest.unique (lowest_none_of_ge hlast)
  cases hall with
  | exhausted hnone => exact index.isEmpty_iff.2 fun sizeClass => hnone sizeClass trivial

/-- The search finds the lowest class above a number just if the number has a next word, or if there
    is nothing to find and the sum is not checked. -/
theorem exists_lowest_iff (build : Build) (hword : number < UInt64.size) :
    (∃ found, index.headAbove build number = .ok found ∧
        index.Lowest (fun sizeClass => number < sizeClass) found) ↔
      number + 1 < UInt64.size ∨ build = .unchecked ∧ index.isEmpty = true := by
  rcases Nat.lt_or_eq_of_le hword with hlt | hlast
  · exact iff_of_true (index.exists_headAbove build hlt) (.inl hlt)
  · constructor
    · rintro ⟨found, habove, hlowest⟩
      cases build with
      | checked =>
        rw [index.headAbove_checked_last hlast] at habove
        cases habove
      | unchecked => exact .inr ⟨rfl, isEmpty_of_lowest_last hlast habove hlowest⟩
    · rintro (hlt | ⟨rfl, hempty⟩)
      · exact absurd hlast hlt.ne
      · have hnone := index.isEmpty_iff.1 hempty
        obtain ⟨found, habove, hall⟩ := index.exists_headAbove_unchecked_last hlast
        obtain rfl : found = none := hall.unique (.exhausted fun sizeClass _ => hnone sizeClass)
        exact ⟨none, habove, .exhausted fun sizeClass _ => hnone sizeClass⟩

/-- The next class that has blocks is found above every word but the last. There the search would
    start one class above the last word: a checked build stops, and an unchecked one is back at
    class 0. -/
theorem ascends_of_word (index : FreeIndex) (build : Build) (number : UInt64) :
    index.Ascends build number where
  lowest_iff := exists_lowest_iff build number.toNat_lt
  none_of_ge hnumber hlt := by
    obtain ⟨found, habove, hlowest⟩ := index.exists_headAbove build hlt
    rw [habove, hlowest.unique (lowest_none_of_ge hnumber)]
  checked_last hlast hbuild := by
    subst hbuild
    exact index.headAbove_checked_last hlast
  unchecked_last hlast hbuild := by
    subst hbuild
    exact index.exists_headAbove_unchecked_last hlast

/-- An index that lists blocks in class 1 alone. -/
def loneHead : FreeIndex := ⟨(Vector.replicate classCount none).set 1 (Block.ofOffset? 32)⟩

/-- No class lies above the last word. A search there stops, or finds class 1. -/
theorem loneHead_above_last : loneHead.headAbove .checked (UInt64.size - 1) = .error .addOverflow ∧
    loneHead.headAbove .unchecked (UInt64.size - 1) = .ok (Block.ofOffset? 32) ∧
    ¬ loneHead.Lowest (fun sizeClass => UInt64.size - 1 < sizeClass) (Block.ofOffset? 32) := by
  refine ⟨by decide +kernel, by decide +kernel, fun hlowest => ?_⟩
  have hnone := hlowest.unique (lowest_none_of_ge (by decide))
  exact absurd hnone (by decide)

end FreeIndex

end BoundaryTag
