import BoundaryTag.SizeClass
import Mathlib.Algebra.Group.Nat.Defs
import Mathlib.Data.Finset.Card

namespace BoundaryTag.SizeClass

/-- The thresholds above class 0: the number of a class exceeds `k` from the `k`-th on. -/
theorem lt_ofSize_iff {k : Nat} (hk : k < classCount - 1) (size : Nat) :
    k < (ofSize size).val ↔ smallestBlock <<< k ≤ size := by
  have hpos : 0 < smallestBlock := by decide
  rw [Nat.shiftLeft_eq]
  by_cases hsmall : size < smallestBlock
  · have hlow : smallestBlock ≤ smallestBlock * 2 ^ k :=
      Nat.le_mul_of_pos_right _ (Nat.two_pow_pos k)
    rw [ofSize, if_pos hsmall]
    exact iff_of_false (Nat.not_lt_zero k) (by omega)
  · have hne : size / smallestBlock ≠ 0 :=
      Nat.pos_iff_ne_zero.1 (Nat.div_pos (Nat.le_of_not_lt hsmall) hpos)
    rw [ofSize, if_neg hsmall, Nat.mul_comm, ← Nat.le_div_iff_mul_le hpos, ← Nat.le_log2 hne]
    change k < min (classCount - 1) (_ + 1) ↔ _
    omega

theorem floor_succ (build : Build) {k : Nat} (hk : k < classCount - 1) :
    floor build (k + 1) = .ok (smallestBlock <<< k) := by
  have hword : smallestBlock <<< k < UInt64.size := by
    have hle : smallestBlock <<< k ≤ smallestBlock <<< (classCount - 1) := by
      rw [Nat.shiftLeft_eq, Nat.shiftLeft_eq]
      exact Nat.mul_le_mul_left _ (Nat.pow_le_pow_right (by decide) (Nat.le_of_lt hk))
    exact Nat.lt_of_le_of_lt hle (by decide)
  rw [floor, if_neg (Nat.succ_ne_zero k), Nat.add_sub_cancel]
  exact build.shiftLeft_eq_ok (by simp only [classCount] at hk; omega) hword

/-- Every class has a floor, and what is not below it is of that class or of a higher one. -/
theorem floor_le_iff (build : Build) (sizeClass : SizeClass) (size : Nat) :
    ∃ least, floor build sizeClass = .ok least ∧ (least ≤ size ↔ sizeClass ≤ ofSize size) := by
  obtain ⟨number, hnumber⟩ := sizeClass
  cases number with
  | zero => exact ⟨0, rfl, iff_of_true (Nat.zero_le size) (Nat.zero_le _)⟩
  | succ k =>
    have hk : k < classCount - 1 := Nat.lt_sub_of_add_lt hnumber
    exact ⟨smallestBlock <<< k, floor_succ build hk, (lt_ofSize_iff hk size).symm⟩

theorem ofSize_mono {size other : Nat} (hle : size ≤ other) : ofSize size ≤ ofSize other := by
  obtain ⟨least, hfloor, hsize⟩ := floor_le_iff .checked (ofSize size) size
  obtain ⟨least', hfloor', hother⟩ := floor_le_iff .checked (ofSize size) other
  obtain rfl : least = least' := Except.ok.inj (hfloor.symm.trans hfloor')
  exact hother.1 (Nat.le_trans (hsize.2 (Fin.le_refl _)) hle)

/-- Every size of a higher class is larger. -/
theorem lt_of_ofSize_lt {size other : Nat} (hlt : ofSize size < ofSize other) : size < other := by
  refine Nat.lt_of_not_le fun hle => ?_
  exact absurd (ofSize_mono hle) (Fin.not_le.2 hlt)

/-- The number of a class is the number of thresholds that its sizes have reached. -/
theorem val_ofSize_eq_card (size : Nat) :
    (ofSize size).val = ((Finset.range 13).filter fun k => 32 * 2 ^ k ≤ size).card := by
  have hlast : (ofSize size).val < 14 := (ofSize size).isLt
  have hreached : ((Finset.range 13).filter fun k => 32 * 2 ^ k ≤ size) =
      Finset.range (ofSize size).val := by
    ext k
    rw [Finset.mem_filter, Finset.mem_range, Finset.mem_range, ← Nat.shiftLeft_eq]
    constructor
    · rintro ⟨hk, hreached⟩
      exact (lt_ofSize_iff hk size).2 hreached
    · intro hlt
      have hk : k < 13 := by omega
      exact ⟨hk, (lt_ofSize_iff hk size).1 hlt⟩
  rw [hreached, Finset.card_range]

/-- The classes partition all sizes by their floors. A search that goes on in a higher class
    relies on this, and looks at no size there. -/
theorem ordered_by_floors (build : Build) :
    (∀ (size : Nat) (sizeClass : SizeClass), ∃ least, floor build sizeClass = .ok least ∧
      (least ≤ size ↔ sizeClass ≤ ofSize size)) ∧
    (∀ size other : Nat, size ≤ other → ofSize size ≤ ofSize other) ∧
    (∀ size : Nat, (ofSize size).val =
      ((Finset.range 13).filter fun k => 32 * 2 ^ k ≤ size).card) ∧
    (∀ size : Nat, (ofSize size).val ≤ 13) ∧
    ∀ size other : Nat, ofSize size < ofSize other → size < other :=
  ⟨fun size sizeClass => floor_le_iff build sizeClass size, fun _ _ => ofSize_mono,
    val_ofSize_eq_card, fun size => Nat.le_of_lt_succ (ofSize size).isLt,
    fun _ _ => lt_of_ofSize_lt⟩

end BoundaryTag.SizeClass
