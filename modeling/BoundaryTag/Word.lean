namespace BoundaryTag.Word

/-- Byte `k` of a word, counted from the least significant. -/
def byte (word : UInt64) (k : Nat) : UInt8 := (word >>> UInt64.ofNat (8 * k)).toUInt8

def setByte (word : UInt64) (k : Nat) (byte : UInt8) : UInt64 :=
  let shift := UInt64.ofNat (8 * k)
  (word &&& ~~~(0xFF <<< shift)) ||| (byte.toUInt64 <<< shift)

theorem byte_setByte (word : UInt64) {k j : Nat} (hk : k < 8) (hj : j < 8) (byte : UInt8) :
    Word.byte (Word.setByte word k byte) j = if j = k then byte else Word.byte word j := by
  apply UInt8.toBitVec_inj.1
  ext i hi
  have hmask (n : Nat) (hn : n < 64) : (255#64)[n] = decide (n < 8) := by
    have := Nat.testBit_two_pow_sub_one 8 n
    simpa [BitVec.getElem_eq_testBit_toNat] using this
  have hkmod : 8 * k % 64 = 8 * k := by omega
  have hjmod : 8 * j % 64 = 8 * j := by omega
  have hjbit : 8 * j + i < 64 := by omega
  rcases Nat.lt_trichotomy j k with hlt | rfl | hgt
  · have hbelow : 8 * j + i < 8 * k := by omega
    simp [Word.byte, Word.setByte, hkmod, hjmod, hjbit, hbelow, Nat.ne_of_lt hlt]
  · have hge : ¬ 8 * j + i < 8 * j := by omega
    simp [Word.byte, Word.setByte, hjmod, hjbit, hmask, hge, hi]
  · have habove : ¬ 8 * j + i - 8 * k < 8 := by omega
    have hge : ¬ 8 * j + i < 8 * k := by omega
    simp [Word.byte, Word.setByte, hkmod, hjmod, hjbit, hmask, habove, hge, Nat.ne_of_gt hgt,
      BitVec.getLsbD_of_ge _ _ (Nat.not_lt.1 habove)]
end BoundaryTag.Word
