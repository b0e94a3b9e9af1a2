import Mathlib.Algebra.Group.Nat.Defs

/-!
# Bits of words

The bits of a 32-bit word, and the numbers that stand in a run of them. A number is put in the place of another by clearing the
bits of its field and setting its own, which stay in the field if the number fits.
-/

namespace AccelFirmware

variable {word value : UInt32} {low width n : Nat}

/-- Words are equal if their bits are. -/
theorem eq_of_testBit_eq {a b : UInt32} (h : ∀ n, a.toNat.testBit n = b.toNat.testBit n) : a = b :=
  UInt32.toNat_inj.1 (Nat.eq_of_testBit_eq h)

theorem testBit_complement (word : UInt32) (hn : n < 32) : (~~~word).toNat.testBit n = !word.toNat.testBit n := by
  have hword : (~~~word).toNat = 2 ^ 32 - (word.toNat + 1) := by
    rw [UInt32.toNat_not]
    have := word.toNat_lt
    simp only [UInt32.size]
    omega
  rw [hword, Nat.testBit_two_pow_sub_succ word.toNat_lt, decide_eq_true hn, Bool.true_and]

theorem testBit_shiftLeft (word : UInt32) (hlow : low < 32) (hn : n < 32) :
    (word <<< UInt32.ofNat low).toNat.testBit n = (decide (low ≤ n) && word.toNat.testBit (n - low)) := by
  have hshift : (UInt32.ofNat low).toNat % 32 = low := by
    rw [UInt32.toNat_ofNat_of_lt' (Nat.lt_trans hlow (by decide)), Nat.mod_eq_of_lt hlow]
  rw [UInt32.toNat_shiftLeft, hshift, Nat.testBit_mod_two_pow, Nat.testBit_shiftLeft, decide_eq_true hn, Bool.true_and]

/-! ## Fields -/

/-- The number in `width` bits of a word, from the bit `low` on. -/
def bitField (word : UInt32) (low width : Nat) : Nat := word.toNat / 2 ^ low % 2 ^ width

theorem testBit_bitField : (bitField word low width).testBit n = (decide (n < width) && word.toNat.testBit (n + low)) := by
  rw [bitField, Nat.testBit_mod_two_pow, Nat.testBit_div_two_pow]

theorem bitField_lt : bitField word low width < 2 ^ width := Nat.mod_lt _ (Nat.two_pow_pos width)

/-- A word with a value in the place of a field. -/
def replaceField (low width : Nat) (value word : UInt32) : UInt32 :=
  word &&& ~~~(UInt32.ofNat (2 ^ width - 1) <<< UInt32.ofNat low) ||| value <<< UInt32.ofNat low

theorem testBit_replaceField (hlow : low < 32) (hwidth : width ≤ 32) (hn : n < 32) :
    (replaceField low width value word).toNat.testBit n =
      (word.toNat.testBit n && !(decide (low ≤ n) && decide (n - low < width)) ||
        decide (low ≤ n) && value.toNat.testBit (n - low)) := by
  have hpower : 2 ^ width ≤ 2 ^ 32 := Nat.pow_le_pow_right (by decide) hwidth
  have hones : (UInt32.ofNat (2 ^ width - 1)).toNat = 2 ^ width - 1 :=
    UInt32.toNat_ofNat_of_lt' (by have := Nat.two_pow_pos width; simp only [UInt32.size]; omega)
  rw [replaceField, UInt32.toNat_or, Nat.testBit_or, UInt32.toNat_and, Nat.testBit_and, testBit_complement _ hn,
    testBit_shiftLeft _ hlow hn, testBit_shiftLeft _ hlow hn, hones, Nat.testBit_two_pow_sub_one]

section

variable (hlow : low < 32) (hwidth : low + width ≤ 32) (hvalue : value.toNat < 2 ^ width)

include hlow hwidth hvalue

/-- A value that fits is what its field then holds. -/
theorem bitField_replaceField : bitField (replaceField low width value word) low width = value.toNat := by
  refine Nat.eq_of_testBit_eq fun n => ?_
  rw [testBit_bitField]
  by_cases hn : n < width
  · rw [testBit_replaceField hlow (by omega) (by omega)]
    simp [hn]
  · have hhigh : value.toNat.testBit n = false :=
      Nat.testBit_lt_two_pow (Nat.lt_of_lt_of_le hvalue (Nat.pow_le_pow_right (by decide) (Nat.not_lt.1 hn)))
    simp [hn, hhigh]

/-- Bits outside of the field stay. -/
theorem bitField_replaceField_of_disjoint {low' width' : Nat} (hrange : low' + width' ≤ 32)
    (hdisjoint : low' + width' ≤ low ∨ low + width ≤ low') :
    bitField (replaceField low width value word) low' width' = bitField word low' width' := by
  refine Nat.eq_of_testBit_eq fun n => ?_
  rw [testBit_bitField, testBit_bitField]
  by_cases hn : n < width'
  · have hhigh (h : width ≤ n + low' - low) : value.toNat.testBit (n + low' - low) = false :=
      Nat.testBit_lt_two_pow (Nat.lt_of_lt_of_le hvalue (Nat.pow_le_pow_right (by decide) h))
    rw [testBit_replaceField hlow (by omega) (by omega)]
    rcases hdisjoint with hbelow | habove
    · have hout : ¬ low ≤ n + low' := by omega
      simp [hout]
    · have hout : ¬ n + low' - low < width := by omega
      simp [hout, hhigh (by omega)]
  · simp [hn]

end

end AccelFirmware
