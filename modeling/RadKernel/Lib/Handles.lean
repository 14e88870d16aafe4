import Mathlib.Tactic.Common

/-!
# Tables that are reached through handles

A table of records and a table of handles of the same size. The handle of a record in use holds
its index; when the record is freed, both are cleared, so the handle then leads to record 0.
-/

namespace RadKernel.Handles

open Function

variable {ρ : Type*} {used : ρ → Bool} {zero r : ρ} {limit k : Nat} {records : Nat → ρ}
  {handles : Nat → Nat}

/-- Handles and records agree, and what is not in use is cleared. -/
structure Tidy (used : ρ → Bool) (zero : ρ) (limit : Nat) (records : Nat → ρ)
    (handles : Nat → Nat) : Prop where
  live : ∀ k, used (records k) = true → k < limit ∧ handles k = k
  free : ∀ k, used (records k) = false → records k = zero ∧ handles k = 0

theorem Tidy.start (hzero : used zero = false) :
    Tidy used zero limit (fun _ => zero) fun _ => 0 where
  live k hk := by simp [hzero] at hk
  free k hk := ⟨rfl, rfl⟩

section
variable (h : Tidy used zero limit records handles)
include h

theorem Tidy.create (hk : k < limit) (hr : used r = true) :
    Tidy used zero limit (update records k r) (update handles k k) where
  live j hj := by
    by_cases hjk : j = k
    · subst hjk
      exact ⟨hk, update_self ..⟩
    · simp only [update_of_ne hjk] at hj ⊢
      exact h.live j hj
  free j hj := by
    by_cases hjk : j = k
    · subst hjk
      simp [hr] at hj
    · simp only [update_of_ne hjk] at hj ⊢
      exact h.free j hj

/-- A record in use changes. -/
theorem Tidy.write (hk : used (records k) = true)
    (hr : used r = true) : Tidy used zero limit (update records k r) handles where
  live j hj := by
    by_cases hjk : j = k
    · exact hjk ▸ h.live k hk
    · rw [update_of_ne hjk] at hj
      exact h.live j hj
  free j hj := by
    by_cases hjk : j = k
    · subst hjk
      simp [hr] at hj
    · rw [update_of_ne hjk] at hj ⊢
      exact h.free j hj

theorem Tidy.destroy (hzero : used zero = false) (k : Nat) :
    Tidy used zero limit (update records k zero) (update handles k 0) where
  live j hj := by
    by_cases hjk : j = k
    · subst hjk
      simp [hzero] at hj
    · simp only [update_of_ne hjk] at hj ⊢
      exact h.live j hj
  free j hj := by
    by_cases hjk : j = k
    · subst hjk
      simp
    · simp only [update_of_ne hjk] at hj ⊢
      exact h.free j hj

/-- Clearing a record that is not in use changes nothing. -/
theorem Tidy.destroy_free (hk : used (records k) = false) :
    update records k zero = records ∧ update handles k 0 = handles := by
  obtain ⟨hrecord, hhandle⟩ := h.free k hk
  exact ⟨Function.update_eq_iff.2 ⟨hrecord.symm, fun _ _ => rfl⟩,
    Function.update_eq_iff.2 ⟨hhandle.symm, fun _ _ => rfl⟩⟩

end

end RadKernel.Handles
