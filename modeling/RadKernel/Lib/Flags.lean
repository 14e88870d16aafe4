import Mathlib.Tactic.Common

/-!
# Flags in a word

A word of flags, each of them one bit, that are set, cleared and tested by masks.
-/

namespace RadKernel.Flags

variable {flags bit other : UInt32} {on : Prop} [Decidable on]

/-- A flag is set or cleared. -/
def put (flags bit : UInt32) (on : Prop) [Decidable on] : UInt32 :=
  if on then flags ||| bit else flags &&& ~~~bit

theorem eq_of_bits {x y : UInt32} (h : ∀ i < 32, x.toBitVec.getLsbD i = y.toBitVec.getLsbD i) :
    x = y := UInt32.toBitVec_inj.1 (BitVec.eq_of_getLsbD_eq h)

theorem put_and_self : put flags bit on &&& bit = if on then bit else 0 := by
  unfold put
  split <;> refine eq_of_bits fun i hi => ?_
  · cases h : bit.toBitVec.getLsbD i <;> simp [h]
  · cases h : bit.toBitVec.getLsbD i <;> simp [h]

/-- Another flag stays. -/
theorem put_and_of_disjoint (h : bit &&& other = 0) :
    put flags bit on &&& other = flags &&& other := by
  have hbits : ∀ i, (bit.toBitVec.getLsbD i && other.toBitVec.getLsbD i) = false := by
    intro i
    rw [← BitVec.getLsbD_and, ← UInt32.toBitVec_and, h]
    simp
  unfold put
  split <;> refine eq_of_bits fun i hi => ?_
  · have hi' := hbits i
    cases hother : other.toBitVec.getLsbD i <;> simp_all
  · have hi' := hbits i
    cases hother : other.toBitVec.getLsbD i <;> simp_all

/-- A test for a single bit gives the bit or nothing. -/
theorem and_twoPow (flags : UInt32) (k : Nat) :
    flags &&& ⟨BitVec.twoPow 32 k⟩ =
      if flags &&& ⟨BitVec.twoPow 32 k⟩ ≠ 0 then ⟨BitVec.twoPow 32 k⟩ else 0 := by
  split
  · next hne =>
    refine UInt32.toBitVec_inj.1 ?_
    rw [UInt32.toBitVec_and, BitVec.and_twoPow]
    split
    · rfl
    · next hbit =>
      refine absurd (UInt32.toBitVec_inj.1 ?_) hne
      rw [UInt32.toBitVec_and, BitVec.and_twoPow, if_neg hbit]
      rfl
  · next heq => simpa using heq

theorem and_or (flags x y : UInt32) : flags &&& (x ||| y) = (flags &&& x) ||| (flags &&& y) := by
  refine eq_of_bits fun i hi => ?_
  simp [Bool.and_or_distrib_left]

end RadKernel.Flags
