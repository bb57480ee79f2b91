namespace BoundaryTag

/-- Zero is not a power of two. -/
def IsPowerOfTwo (n : Nat) : Prop := 1 <<< n.log2 = n

instance (n : Nat) : Decidable (IsPowerOfTwo n) := inferInstanceAs (Decidable (_ = _))

/-- The word `value` without the bits of `mask`. -/
def clearBits (value mask : Nat) : Nat := (UInt64.ofNat value &&& ~~~UInt64.ofNat mask).toNat

def isMultiple? (value align : Nat) : Option Bool :=
  if IsPowerOfTwo align then some (value &&& (align - 1) == 0) else none

/-- The least multiple of `align` that is not below `value`. There is none if `align` is no power of
    two, or if the sum that the rounding starts from would not fit a word. -/
def roundUp? (value align : Nat) : Option Nat :=
  if IsPowerOfTwo align ∧ value + (align - 1) < UInt64.size then
    some (clearBits (value + (align - 1)) (align - 1))
  else none

/-- The greatest multiple of `align` that is not above `value`. -/
def roundDown? (value align : Nat) : Option Nat :=
  if IsPowerOfTwo align then some (clearBits value (align - 1)) else none

/-- How far `value` lies below the next multiple of `align`. -/
def gapTo? (value align : Nat) : Option Nat :=
  (roundUp? value align).map (· - value)

theorem isPowerOfTwo_shiftLeft (k : Nat) : IsPowerOfTwo (1 <<< k) := by
  simp [IsPowerOfTwo, Nat.one_shiftLeft, Nat.log2_two_pow]

theorem isPowerOfTwo_iff (n : Nat) : IsPowerOfTwo n ↔ ∃ k, n = 1 <<< k :=
  ⟨fun h => ⟨n.log2, h.symm⟩, fun ⟨k, hk⟩ => hk ▸ isPowerOfTwo_shiftLeft k⟩

/-- What a mask clears and what it keeps make up the word. -/
theorem toNat_and_not_add_and (word mask : UInt64) :
    (word &&& ~~~mask).toNat + (word &&& mask).toNat = word.toNat := by
  have hapart : (word.toBitVec &&& ~~~mask.toBitVec) &&& (word.toBitVec &&& mask.toBitVec) = 0 := by
    ext i hi
    cases hbit : mask.toBitVec[i] <;> simp [hbit]
  have hjoin : (word.toBitVec &&& ~~~mask.toBitVec) ||| (word.toBitVec &&& mask.toBitVec) =
      word.toBitVec := by
    ext i hi
    cases hbit : mask.toBitVec[i] <;> simp [hbit]
  rw [← BitVec.add_eq_or_of_and_eq_zero _ _ hapart] at hjoin
  have hsum := congrArg BitVec.toNat hjoin
  rwa [BitVec.toNat_add_of_and_eq_zero hapart] at hsum

namespace IsPowerOfTwo

variable {align : Nat}

/-- The mask of an alignment keeps the remainder. -/
theorem and_eq_mod (h : IsPowerOfTwo align) (value : Nat) :
    value &&& (align - 1) = value % align := by
  obtain ⟨k, rfl⟩ := (isPowerOfTwo_iff align).1 h
  rw [Nat.one_shiftLeft, Nat.and_two_pow_sub_one_eq_mod]

/-- The mask of an alignment clears the remainder. -/
theorem toNat_and_not (h : IsPowerOfTwo align) (hfit : align ≤ UInt64.size) (word : UInt64) :
    (word &&& ~~~UInt64.ofNat (align - 1)).toNat = word.toNat / align * align := by
  have hsize : 0 < UInt64.size := by decide
  have hmask : (UInt64.ofNat (align - 1)).toNat = align - 1 :=
    UInt64.toNat_ofNat_of_lt' (by omega)
  have hsplit := toNat_and_not_add_and word (UInt64.ofNat (align - 1))
  rw [UInt64.toNat_and word (UInt64.ofNat (align - 1)), hmask, h.and_eq_mod] at hsplit
  have hdiv := Nat.div_add_mod' word.toNat align
  omega

theorem clearBits_eq (h : IsPowerOfTwo align) (hfit : align ≤ UInt64.size) {value : Nat}
    (hvalue : value < UInt64.size) : clearBits value (align - 1) = value / align * align := by
  rw [clearBits, h.toNat_and_not hfit, UInt64.toNat_ofNat_of_lt' hvalue]

end IsPowerOfTwo

theorem isMultiple?_eq (value align : Nat) :
    isMultiple? value align = if IsPowerOfTwo align then some (value % align == 0) else none := by
  by_cases h : IsPowerOfTwo align
  · rw [isMultiple?, if_pos h, if_pos h, h.and_eq_mod]
  · rw [isMultiple?, if_neg h, if_neg h]

theorem roundUp?_eq (value align : Nat) :
    roundUp? value align = if IsPowerOfTwo align ∧ value + (align - 1) < UInt64.size then
      some ((value + (align - 1)) / align * align) else none := by
  by_cases h : IsPowerOfTwo align ∧ value + (align - 1) < UInt64.size
  · obtain ⟨hpower, hshort⟩ := h
    rw [roundUp?, if_pos ⟨hpower, hshort⟩, if_pos ⟨hpower, hshort⟩,
      hpower.clearBits_eq (by omega) hshort]
  · rw [roundUp?, if_neg h, if_neg h]

theorem roundDown?_eq {value align : Nat} (h : IsPowerOfTwo align) (hfit : align ≤ UInt64.size)
    (hvalue : value < UInt64.size) : roundDown? value align = some (value / align * align) := by
  rw [roundDown?, if_pos h, h.clearBits_eq hfit hvalue]

end BoundaryTag
