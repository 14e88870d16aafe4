import Mathlib.Data.Nat.Bitwise

/-!
# CRC-32

The checksum with the reflected polynomial `0xedb88320`, computed byte by byte with a table of 256
entries, and bit by bit.
-/

namespace RadKernel.Crc32

def polynomial : UInt32 := 0xedb88320

/-- The register is shifted by one bit. -/
def shift (c : UInt32) : UInt32 := if c &&& 1 = 0 then c >>> 1 else polynomial ^^^ (c >>> 1)

def shifts : Nat → UInt32 → UInt32
  | 0, c => c
  | n + 1, c => shifts n (shift c)

def entry (byte : UInt8) : UInt32 := shifts 8 byte.toUInt32

def byteStep (c : UInt32) (byte : UInt8) : UInt32 := entry (c.toUInt8 ^^^ byte) ^^^ (c >>> 8)

/-- The checksum with a table. -/
def crc32 (bytes : List UInt8) : UInt32 := ~~~bytes.foldl byteStep (~~~0)

/-- The checksum without one. -/
def bitByBit (bytes : List UInt8) : UInt32 :=
  ~~~bytes.foldl (fun c byte => shifts 8 (c ^^^ byte.toUInt32)) (~~~0)

theorem xor_and (c d k : UInt32) : (c ^^^ d) &&& k = (c &&& k) ^^^ (d &&& k) := by
  apply UInt32.toBitVec_inj.1
  ext i hi
  simp only [UInt32.toBitVec_and, UInt32.toBitVec_xor, BitVec.getElem_and, BitVec.getElem_xor,
    Bool.and_xor_distrib_right]

theorem xor_shiftRight (c d k : UInt32) : (c ^^^ d) >>> k = (c >>> k) ^^^ (d >>> k) := by
  apply UInt32.toBitVec_inj.1
  exact BitVec.ushiftRight_xor_distrib ..

theorem toNat_and_one (c : UInt32) : (c &&& 1).toNat = c.toNat % 2 := by
  exact Nat.and_one_is_mod _

theorem and_one_cases (c : UInt32) : c &&& 1 = 0 ∨ c &&& 1 = 1 := by
  have h := toNat_and_one c
  rcases Nat.mod_two_eq_zero_or_one c.toNat with h0 | h1
  · exact Or.inl (UInt32.toNat_inj.1 (h.trans h0))
  · exact Or.inr (UInt32.toNat_inj.1 (h.trans h1))

/-! ## Linearity -/

theorem shift_xor (c d : UInt32) : shift (c ^^^ d) = shift c ^^^ shift d := by
  have hcancel : ∀ x y : UInt32, (polynomial ^^^ x) ^^^ (polynomial ^^^ y) = x ^^^ y := by
    intro x y
    rw [UInt32.xor_comm polynomial x, UInt32.xor_assoc, ← UInt32.xor_assoc polynomial polynomial,
      UInt32.xor_self, UInt32.zero_xor]
  unfold shift
  rw [xor_and, xor_shiftRight]
  rcases and_one_cases c with hc | hc <;> rcases and_one_cases d with hd | hd
  · simp [hc, hd]
  · simp only [hc, hd, UInt32.zero_xor, if_true, if_neg (show (1 : UInt32) ≠ 0 by decide)]
    ac_rfl
  · simp only [hc, hd, UInt32.xor_zero, if_true, if_neg (show (1 : UInt32) ≠ 0 by decide)]
    ac_rfl
  · simp [hc, hd, hcancel]

theorem shifts_xor (n : Nat) (c d : UInt32) : shifts n (c ^^^ d) = shifts n c ^^^ shifts n d := by
  induction n generalizing c d with
  | zero => rfl
  | succ n ih => rw [shifts, shift_xor, ih, shifts, shifts]

/-- Bits above the lowest ones are only shifted. -/
theorem shifts_high {n : Nat} {c : UInt32} (h : 2 ^ n ∣ c.toNat) :
    (shifts n c).toNat = c.toNat / 2 ^ n := by
  induction n generalizing c with
  | zero => simp [shifts]
  | succ n ih =>
    obtain ⟨m, hm⟩ := h
    have heven : c &&& 1 = 0 := by
      refine UInt32.toNat_inj.1 ((toNat_and_one c).trans ?_)
      rw [hm, Nat.pow_succ', Nat.mul_assoc, Nat.mul_mod_right]
      rfl
    have hshift : (shift c).toNat = 2 ^ n * m := by
      rw [shift, if_pos heven, UInt32.toNat_shiftRight, hm]
      simp only [show (1 : UInt32).toNat % 32 = 1 from rfl, Nat.shiftRight_eq_div_pow,
        Nat.pow_succ', Nat.mul_assoc]
      exact Nat.mul_div_cancel_left _ Nat.two_pos
    rw [shifts, ih ⟨m, hshift⟩, hshift, hm, Nat.mul_div_cancel_left _ (Nat.two_pow_pos n),
      Nat.mul_div_cancel_left _ (Nat.two_pow_pos _)]

theorem toNat_high (c : UInt32) : (c >>> 8 <<< 8).toNat = 2 ^ 8 * (c.toNat / 2 ^ 8) := by
  have h := c.toNat_lt
  rw [UInt32.toNat_shiftLeft, UInt32.toNat_shiftRight]
  simp only [show (8 : UInt32).toNat % 32 = 8 from rfl, Nat.shiftLeft_eq, Nat.shiftRight_eq_div_pow]
  omega

theorem xor_split (c : UInt32) (byte : UInt8) :
    c ^^^ byte.toUInt32 = (c.toUInt8 ^^^ byte).toUInt32 ^^^ (c >>> 8 <<< 8) := by
  apply UInt32.toNat_inj.1
  rw [UInt32.toNat_xor, UInt32.toNat_xor, toNat_high, UInt8.toNat_toUInt32, UInt8.toNat_toUInt32,
    UInt8.toNat_xor, UInt32.toNat_toUInt8]
  refine Nat.eq_of_testBit_eq fun i => ?_
  rw [Nat.testBit_xor, Nat.testBit_xor, Nat.testBit_xor, Nat.testBit_mod_two_pow,
    Nat.testBit_two_pow_mul, Nat.testBit_div_two_pow]
  by_cases h : i < 8
  · simp [h, Nat.not_le.2 h]
  · have hb : byte.toNat.testBit i = false :=
      Nat.testBit_lt_two_pow
        (Nat.lt_of_lt_of_le byte.toNat_lt (Nat.pow_le_pow_right (by omega) (by omega)))
    have hi : i - 8 + 8 = i := by omega
    simp [h, Nat.le_of_not_lt h, hb, hi]

theorem shifts_byte (c : UInt32) (byte : UInt8) :
    shifts 8 (c ^^^ byte.toUInt32) = byteStep c byte := by
  have hhigh : shifts 8 (c >>> 8 <<< 8) = c >>> 8 := by
    refine UInt32.toNat_inj.1 ?_
    rw [shifts_high ⟨_, toNat_high c⟩, toNat_high, Nat.mul_div_cancel_left _ (Nat.two_pow_pos 8),
      UInt32.toNat_shiftRight]
    exact (Nat.shiftRight_eq_div_pow ..).symm
  rw [xor_split, shifts_xor, hhigh]
  rfl

theorem bitByBit_eq (bytes : List UInt8) : bitByBit bytes = crc32 bytes := by
  unfold bitByBit crc32
  simp only [shifts_byte]

end RadKernel.Crc32
