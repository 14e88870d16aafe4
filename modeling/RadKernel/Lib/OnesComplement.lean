import Mathlib.Algebra.Group.Nat.Defs
import Mathlib.Tactic.Common

/-!
# One's complement sums

Sums of 16-bit words where a carry out of the top is added at the bottom, and the checksum made
of them: the complement of the sum. Words with their checksum among them sum up to all ones.
-/

namespace RadKernel.OnesComplement

/-- The bytes as big-endian words, added up; a last odd byte is the upper half of a word. -/
def wordSum : List UInt8 → Nat
  | [] => 0
  | [a] => 256 * a.toNat
  | a :: b :: rest => 256 * a.toNat + b.toNat + wordSum rest

/-- Add the carries in until there are none, in at most `fuel` rounds. -/
def foldCarries : Nat → Nat → Nat
  | 0, sum => sum
  | fuel + 1, sum =>
    if sum / 65536 = 0 then sum else foldCarries fuel (sum % 65536 + sum / 65536)

/-- Sums of 32 bits need no more than two rounds. -/
def folded (sum : Nat) : Nat := foldCarries 2 sum

def checksum (sum : Nat) : Nat := 65535 - folded sum

variable {sum : Nat}

theorem folded_eq (h : sum < 2 ^ 32) :
    folded sum < 65536 ∧ folded sum % 65535 = sum % 65535 ∧ (folded sum = 0 ↔ sum = 0) := by
  unfold folded
  simp only [foldCarries]
  split_ifs <;> omega

theorem checksum_le (sum : Nat) : checksum sum ≤ 65535 := Nat.sub_le _ _

/-- A sum to which its own checksum is added has the checksum 0. -/
theorem checksum_add_checksum (hsum : sum + 65535 < 2 ^ 32) :
    checksum (sum + checksum sum) = 0 := by
  have hle := checksum_le sum
  obtain ⟨hlt, hmod, hzero⟩ := @folded_eq sum (by omega)
  obtain ⟨hlt', hmod', hzero'⟩ := @folded_eq (sum + checksum sum) (by omega)
  unfold checksum at hmod' hzero' hlt' ⊢
  omega

end RadKernel.OnesComplement
