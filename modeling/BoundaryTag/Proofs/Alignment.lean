import BoundaryTag.Alignment

namespace BoundaryTag

variable {align value rounded gap : Nat}

theorem IsPowerOfTwo.pos (h : IsPowerOfTwo align) : 0 < align := by
  obtain ⟨k, rfl⟩ := (isPowerOfTwo_iff align).1 h
  rw [Nat.one_shiftLeft]
  exact Nat.two_pow_pos k

/-- A power of two divides every larger one. -/
theorem IsPowerOfTwo.dvd {small large : Nat} (hsmall : IsPowerOfTwo small)
    (hlarge : IsPowerOfTwo large) (hle : small ≤ large) : small ∣ large := by
  obtain ⟨m, rfl⟩ := (isPowerOfTwo_iff small).1 hsmall
  obtain ⟨n, rfl⟩ := (isPowerOfTwo_iff large).1 hlarge
  rw [Nat.one_shiftLeft, Nat.one_shiftLeft] at hle ⊢
  have hexp : m ≤ n := (Nat.pow_le_pow_iff_right (by decide)).1 hle
  exact Nat.pow_dvd_pow 2 hexp

/-- From a multiple that is a word there is room for one more step. -/
theorem IsPowerOfTwo.add_le {multiple : Nat} (h : IsPowerOfTwo align) (hfit : align ≤ UInt64.size)
    (hdvd : align ∣ multiple) (hshort : multiple < UInt64.size) :
    multiple + align ≤ UInt64.size := by
  have hword : align ∣ UInt64.size := h.dvd (isPowerOfTwo_shiftLeft 64) hfit
  refine Nat.le_of_not_lt fun hover => ?_
  exact Nat.not_lt_of_le (Nat.le_of_lt_add_of_dvd hover hword hdvd) hshort

/-- A power of two that is a word is at most half of the radix. -/
theorem IsPowerOfTwo.add_self_le (h : IsPowerOfTwo align) (hshort : align < UInt64.size) :
    align + align ≤ UInt64.size :=
  h.add_le (Nat.le_of_lt hshort) (Nat.dvd_refl align) hshort

/-- A value that is rounded up becomes a multiple less than one step above it. -/
theorem roundUp?_spec (h : roundUp? value align = some rounded) :
    IsPowerOfTwo align ∧ rounded % align = 0 ∧ value ≤ rounded ∧ rounded < value + align ∧
      rounded < UInt64.size := by
  rw [roundUp?_eq] at h
  split at h
  · rename_i hdefined
    obtain ⟨hpower, hfit⟩ := hdefined
    obtain rfl : (value + (align - 1)) / align * align = rounded := by simpa using h
    have hpos := hpower.pos
    have hlow := Nat.div_mul_le_self (value + (align - 1)) align
    have hhigh := Nat.lt_div_mul_add (a := value + (align - 1)) hpos
    exact ⟨hpower, Nat.mul_mod_left _ _, by omega, by omega, by omega⟩
  · cases h

theorem roundUp?_eq_some (hpower : IsPowerOfTwo align) (hfit : value + (align - 1) < UInt64.size) :
    ∃ rounded, roundUp? value align = some rounded :=
  ⟨_, if_pos ⟨hpower, hfit⟩⟩

theorem roundUp?_add_le (h : roundUp? value align = some rounded) :
    rounded + align ≤ UInt64.size := by
  obtain ⟨hpower, hmod, -, -, hshort⟩ := roundUp?_spec h
  have hfit : align ≤ UInt64.size := by
    rw [roundUp?] at h
    split at h
    · omega
    · cases h
  exact hpower.add_le hfit (Nat.dvd_of_mod_eq_zero hmod) hshort

/-- A value is rounded up to the least multiple that is not below it. -/
theorem roundUp?_le {multiple : Nat} (h : roundUp? value align = some rounded)
    (hmod : multiple % align = 0) (hle : value ≤ multiple) : rounded ≤ multiple := by
  obtain ⟨-, hrounded, -, hhigh, -⟩ := roundUp?_spec h
  have hlt : rounded < multiple + align := Nat.lt_of_lt_of_le hhigh (Nat.add_le_add_right hle _)
  exact Nat.le_of_lt_add_of_dvd hlt (Nat.dvd_of_mod_eq_zero hrounded) (Nat.dvd_of_mod_eq_zero hmod)

/-- What lies between a value and its rounding is rounded up to the same multiple. -/
theorem roundUp?_of_le_of_le {other : Nat} (h : roundUp? value align = some rounded)
    (hlow : value ≤ other) (hhigh : other ≤ rounded) : roundUp? other align = some rounded := by
  obtain ⟨hpower, hmod, -⟩ := roundUp?_spec h
  have hpos := hpower.pos
  have hroom := roundUp?_add_le h
  have hfit : other + (align - 1) < UInt64.size := by omega
  obtain ⟨next, hnext⟩ := roundUp?_eq_some hpower hfit
  obtain ⟨-, hmod', hle, -⟩ := roundUp?_spec hnext
  have hbelow := roundUp?_le hnext hmod hhigh
  have habove := roundUp?_le h hmod' (Nat.le_trans hlow hle)
  rw [hnext, Nat.le_antisymm hbelow habove]

/-- A multiple is rounded up to itself. -/
theorem roundUp?_of_roundUp? (h : roundUp? value align = some rounded) :
    roundUp? rounded align = some rounded :=
  roundUp?_of_le_of_le h (roundUp?_spec h).2.2.1 (Nat.le_refl _)

/-- Where anything is rounded, nothing is rounded to nothing. -/
theorem roundUp?_zero (h : roundUp? value align = some rounded) : roundUp? 0 align = some 0 := by
  have hpower := (roundUp?_spec h).1
  have hpos := hpower.pos
  have hroom := roundUp?_add_le h
  have hfit : 0 + (align - 1) < UInt64.size := by omega
  obtain ⟨least, hleast⟩ := roundUp?_eq_some hpower hfit
  have hle : least ≤ 0 := roundUp?_le hleast (Nat.zero_mod align) (Nat.le_refl 0)
  rw [hleast, Nat.le_zero.1 hle]

theorem roundUp?_eq_none (hpower : IsPowerOfTwo align) (h : roundUp? value align = none) :
    UInt64.size ≤ value + (align - 1) := by
  rw [roundUp?_eq] at h
  split at h
  · cases h
  · rename_i hdefined
    exact Nat.le_of_not_lt fun hfit => hdefined ⟨hpower, hfit⟩

theorem gapTo?_eq_none (hpower : IsPowerOfTwo align) (h : gapTo? value align = none) :
    UInt64.size < value + align := by
  have hround := roundUp?_eq_none hpower (Option.map_eq_none_iff.1 h)
  have hpos := hpower.pos
  omega

/-- The gap to the next multiple is shorter than a step. -/
theorem gapTo?_spec (h : gapTo? value align = some gap) :
    (value + gap) % align = 0 ∧ gap < align := by
  obtain ⟨rounded, hrounded, rfl⟩ := Option.map_eq_some_iff.1 h
  obtain ⟨-, hmod, hlow, hhigh, -⟩ := roundUp?_spec hrounded
  rw [Nat.add_sub_cancel' hlow]
  exact ⟨hmod, by omega⟩

end BoundaryTag
