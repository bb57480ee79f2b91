import BoundaryTag.Alignment

namespace BoundaryTag

/-- The word before a block and the word after it. Sizes are multiples of 16, so the low four bits
    are free for flags, of which the lowest marks an allocated block. -/
structure Tag where
  raw : UInt64
deriving DecidableEq, Repr

namespace Tag

/-- A tag for a block of `size` bytes, header and footer included. -/
def ofSize (size : Nat) (allocated : Bool) : Tag :=
  ⟨UInt64.ofNat size ||| (if allocated then 1 else 0)⟩

/-- The size a tag records: its word without the low four bits. -/
def size (tag : Tag) : Nat := (tag.raw &&& ~~~0xF).toNat

def allocated (tag : Tag) : Bool := tag.raw &&& 1 != 0

def free (tag : Tag) : Bool := !tag.allocated

/-- The same size with the flag set or cleared, and no other low bit. -/
def setAllocated (tag : Tag) (allocated : Bool) : Tag := ofSize tag.size allocated

/-- The allocated tag of size zero that ends an arena. -/
def epilogue : Tag := ofSize 0 true

theorem size_eq (tag : Tag) : tag.size = tag.raw.toNat / 16 * 16 := by
  have hpower : IsPowerOfTwo 16 := by decide
  exact hpower.toNat_and_not (by decide) tag.raw

theorem allocated_eq (tag : Tag) : tag.allocated = (tag.raw.toNat % 2 == 1) := by
  have hflag : (tag.raw &&& 1).toNat = tag.raw.toNat % 2 := by
    rw [UInt64.toNat_and]
    exact Nat.and_one_is_mod _
  rw [allocated, Bool.eq_iff_iff, bne_iff_ne, beq_iff_eq, ne_eq, ← UInt64.toNat_inj, hflag]
  change ¬ _ = 0 ↔ _
  omega

theorem size_lt (tag : Tag) : tag.size < UInt64.size := UInt64.toNat_lt_size _

theorem size_mod (tag : Tag) : tag.size % 16 = 0 := by
  rw [size_eq]
  omega

theorem toNat_ofSize {size : Nat} (hsize : size % 16 = 0) (hfit : size < UInt64.size)
    (allocated : Bool) : (ofSize size allocated).raw.toNat = size + allocated.toNat := by
  have hraw : (UInt64.ofNat size).toNat = size := UInt64.toNat_ofNat_of_lt hfit
  cases allocated
  · simp [ofSize, hraw]
  · have hor : size ||| 1 = size + 1 := by
      rw [show size = 16 * (size / 16) by omega]
      exact (Nat.two_pow_add_eq_or_of_lt (i := 4) (by decide) _).symm
    simpa [ofSize, hraw] using hor

theorem size_ofSize {size : Nat} (hsize : size % 16 = 0) (hfit : size < UInt64.size)
    (allocated : Bool) : (ofSize size allocated).size = size := by
  rw [size_eq, toNat_ofSize hsize hfit]
  cases allocated <;> simp <;> omega

theorem allocated_ofSize {size : Nat} (hsize : size % 16 = 0) (hfit : size < UInt64.size)
    (allocated : Bool) : (ofSize size allocated).allocated = allocated := by
  rw [allocated_eq, toNat_ofSize hsize hfit]
  cases allocated <;> simp <;> omega

end Tag

end BoundaryTag
