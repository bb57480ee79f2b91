import BoundaryTag.Proofs.Alignment
import Mathlib.Order.Bounds.Defs

namespace BoundaryTag

variable {value align : Nat}

theorem isPowerOfTwo_iff_exists_pow (n : Nat) : IsPowerOfTwo n ↔ n.isPowerOfTwo := by
  rw [isPowerOfTwo_iff, Nat.isPowerOfTwo]
  simp only [Nat.one_shiftLeft]

/-- No rounding is defined for an alignment. -/
structure Unroundable (value align : Nat) : Prop where
  multiple_eq : isMultiple? value align = none
  up_eq : roundUp? value align = none
  down_eq : roundDown? value align = none
  gap_eq : gapTo? value align = none

/-- The answers for a power of two are those of rounding to its nearest multiples, as far as these
    are words. -/
structure RoundsToMultiples (value align : Nat) : Prop where
  up : ∃ least, IsLeast {multiple | align ∣ multiple ∧ value ≤ multiple} least ∧
    roundUp? value align = if least < UInt64.size then some least else none
  down : ∃ greatest, IsGreatest {multiple | align ∣ multiple ∧ multiple ≤ value} greatest ∧
    roundDown? value align = some greatest
  gap : ∃ least, IsLeast {gap | align ∣ value + gap} least ∧
    gapTo? value align = if value + least < UInt64.size then some least else none
  gap_eq_none_iff : gapTo? value align = none ↔ roundUp? value align = none
  multiple_eq : isMultiple? value align = some (decide (align ∣ value))
  dvd_iff : align ∣ value ↔ roundUp? value align = some value ∧ roundDown? value align = some value

theorem unroundable_of_not (hpower : ¬ IsPowerOfTwo align) : Unroundable value align where
  multiple_eq := if_neg hpower
  up_eq := if_neg fun hdefined => hpower hdefined.1
  down_eq := if_neg hpower
  gap_eq := Option.map_eq_none_iff.2 (if_neg fun hdefined => hpower hdefined.1)

/-- The least multiple that is not below a value. -/
theorem isLeast_multiple (hpos : 0 < align) (value : Nat) :
    IsLeast {multiple | align ∣ multiple ∧ value ≤ multiple}
      ((value + (align - 1)) / align * align) := by
  have hlow := Nat.div_mul_le_self (value + (align - 1)) align
  have hhigh := Nat.lt_div_mul_add (a := value + (align - 1)) hpos
  refine ⟨⟨Nat.dvd_mul_left _ _, by omega⟩, fun multiple hmultiple => ?_⟩
  obtain ⟨hdvd, hle⟩ := hmultiple
  exact Nat.le_of_lt_add_of_dvd (by omega) (Nat.dvd_mul_left _ _) hdvd

/-- The greatest multiple that is not above a value. -/
theorem isGreatest_multiple (hpos : 0 < align) (value : Nat) :
    IsGreatest {multiple | align ∣ multiple ∧ multiple ≤ value} (value / align * align) := by
  have hhigh := Nat.lt_div_mul_add (a := value) hpos
  refine ⟨⟨Nat.dvd_mul_left _ _, Nat.div_mul_le_self value align⟩, fun multiple hmultiple => ?_⟩
  obtain ⟨hdvd, hle⟩ := hmultiple
  exact Nat.le_of_lt_add_of_dvd (Nat.lt_of_le_of_lt hle hhigh) hdvd (Nat.dvd_mul_left _ _)

namespace IsPowerOfTwo

/-- The sum that is tested for overflow is a word just if the multiple is one. -/
theorem roundUp?_isLeast (h : IsPowerOfTwo align) (hfit : align ≤ UInt64.size) (value : Nat) :
    ∃ least, IsLeast {multiple | align ∣ multiple ∧ value ≤ multiple} least ∧
      roundUp? value align = if least < UInt64.size then some least else none := by
  have hleast := isLeast_multiple h.pos value
  have hlow := Nat.div_mul_le_self (value + (align - 1)) align
  have hword : value + (align - 1) < UInt64.size ↔
      (value + (align - 1)) / align * align < UInt64.size := by
    constructor
    · exact Nat.lt_of_le_of_lt hlow
    · intro hshort
      have hroom := h.add_le hfit hleast.1.1 hshort
      have hvalue := hleast.1.2
      have hpos := h.pos
      omega
  refine ⟨_, hleast, ?_⟩
  rw [roundUp?_eq]
  simp only [h, hword, true_and]

theorem roundDown?_isGreatest (h : IsPowerOfTwo align) (hfit : align ≤ UInt64.size)
    (hvalue : value < UInt64.size) :
    ∃ greatest, IsGreatest {multiple | align ∣ multiple ∧ multiple ≤ value} greatest ∧
      roundDown? value align = some greatest :=
  ⟨_, isGreatest_multiple h.pos value, roundDown?_eq h hfit hvalue⟩

/-- The gap to a multiple is least where the multiple is. -/
theorem gapTo?_isLeast (h : IsPowerOfTwo align) (hfit : align ≤ UInt64.size) (value : Nat) :
    ∃ least, IsLeast {gap | align ∣ value + gap} least ∧
      gapTo? value align = if value + least < UInt64.size then some least else none := by
  obtain ⟨multiple, ⟨⟨hdvd, hle⟩, hleast⟩, hround⟩ := h.roundUp?_isLeast hfit value
  obtain ⟨gap, rfl⟩ := Nat.exists_eq_add_of_le hle
  refine ⟨gap, ⟨hdvd, fun other hother => ?_⟩, ?_⟩
  · have := hleast ⟨hother, Nat.le_add_right value other⟩
    omega
  · rw [gapTo?, hround]
    split
    · rw [Option.map_some, Nat.add_sub_cancel_left]
    · rfl

theorem isMultiple?_eq_decide (h : IsPowerOfTwo align) (value : Nat) :
    isMultiple? value align = some (decide (align ∣ value)) := by
  rw [isMultiple?_eq, if_pos h, Option.some.injEq, Bool.eq_iff_iff, beq_iff_eq, decide_eq_true_eq,
    Nat.dvd_iff_mod_eq_zero]

/-- The multiples are the values that rounding leaves alone. -/
theorem dvd_iff_fixed (h : IsPowerOfTwo align) (hfit : align ≤ UInt64.size)
    (hvalue : value < UInt64.size) :
    align ∣ value ↔ roundUp? value align = some value ∧ roundDown? value align = some value := by
  obtain ⟨least, hleast, hup⟩ := h.roundUp?_isLeast hfit value
  obtain ⟨greatest, hgreatest, hdown⟩ := h.roundDown?_isGreatest hfit hvalue
  constructor
  · intro hdvd
    obtain rfl : least = value :=
      Nat.le_antisymm (hleast.2 ⟨hdvd, Nat.le_refl value⟩) hleast.1.2
    obtain rfl : greatest = least :=
      Nat.le_antisymm hgreatest.1.2 (hgreatest.2 ⟨hdvd, Nat.le_refl _⟩)
    exact ⟨hup.trans (if_pos hvalue), hdown⟩
  · rintro ⟨-, hfixed⟩
    obtain rfl : greatest = value := Option.some.inj (hdown.symm.trans hfixed)
    exact hgreatest.1.1

end IsPowerOfTwo

/-- Words are rounded to the nearest multiples of a power of two, and to nothing else. -/
theorem rounds_of_words (hvalue : value < UInt64.size) (halign : align < UInt64.size) :
    (¬ align.isPowerOfTwo → Unroundable value align) ∧
      (align.isPowerOfTwo → RoundsToMultiples value align) := by
  rw [← isPowerOfTwo_iff_exists_pow]
  refine ⟨unroundable_of_not, fun hpower => ?_⟩
  have hfit : align ≤ UInt64.size := Nat.le_of_lt halign
  exact {
    up := hpower.roundUp?_isLeast hfit value
    down := hpower.roundDown?_isGreatest hfit hvalue
    gap := hpower.gapTo?_isLeast hfit value
    gap_eq_none_iff := Option.map_eq_none_iff
    multiple_eq := hpower.isMultiple?_eq_decide value
    dvd_iff := hpower.dvd_iff_fixed hfit hvalue }

/-- In the last page of all words there is no multiple to round up to, and none at all for a
    step that is no power of two. -/
theorem rounds_at_last_page : UInt64.size - 8 < UInt64.size ∧ 4096 < UInt64.size ∧
    48 < UInt64.size ∧ RoundsToMultiples (UInt64.size - 8) 4096 ∧
    roundUp? (UInt64.size - 8) 4096 = none ∧
    roundDown? (UInt64.size - 8) 4096 = some (UInt64.size - 4096) ∧
    Unroundable (UInt64.size - 8) 48 := by
  have hpower : Nat.isPowerOfTwo 4096 := ⟨12, rfl⟩
  have hnot : ¬ Nat.isPowerOfTwo 48 := by
    rw [← isPowerOfTwo_iff_exists_pow]
    decide
  exact ⟨by decide, by decide, by decide, (rounds_of_words (by decide) (by decide)).2 hpower,
    by decide +kernel, by decide +kernel, (rounds_of_words (by decide) (by decide)).1 hnot⟩

end BoundaryTag
