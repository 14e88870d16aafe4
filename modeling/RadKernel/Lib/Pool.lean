import Mathlib.Algebra.BigOperators.Group.Finset.Piecewise
import Mathlib.Algebra.Order.BigOperators.Group.Finset

/-!
# Counting free numbers

A pool of numbers in groups of bits: a clear bit stands for a free number. Every group has a count of
its free numbers, and the pool has their sum.
-/

namespace RadKernel.Pool

open Finset Function

variable {valid : ℕ → Finset ℕ} {groups width limit : ℕ} {bits : ℕ → ℕ → Bool} {counts : ℕ → ℕ}
  {total group i : ℕ}

/-- The free numbers of a group. -/
def clear (valid : Finset ℕ) (bits : ℕ → Bool) : Finset ℕ := valid.filter (bits · = false)

variable {s : Finset ℕ} {f : ℕ → Bool}

theorem mem_clear : i ∈ clear s f ↔ i ∈ s ∧ f i = false := mem_filter

/-- A bitmap with one bit changed. -/
def put (bits : ℕ → ℕ → Bool) (group i : ℕ) (v : Bool) : ℕ → ℕ → Bool :=
  Function.update bits group (Function.update (bits group) i v)

/-- The counts are right. -/
structure Balanced (valid : ℕ → Finset ℕ) (groups : ℕ) (bits : ℕ → ℕ → Bool) (counts : ℕ → ℕ)
    (total : ℕ) : Prop where
  each : ∀ k < groups, counts k = (clear (valid k) (bits k)).card
  sum : total = ∑ k ∈ range groups, counts k

theorem clear_set : clear s (update f i true) = (clear s f).erase i := by
  ext j
  rw [mem_erase, mem_clear, mem_clear]
  by_cases hj : j = i
  · simp [hj]
  · simp [hj]

theorem clear_unset (hi : i ∈ s) : clear s (update f i false) = insert i (clear s f) := by
  ext j
  rw [mem_insert, mem_clear, mem_clear]
  by_cases hj : j = i
  · simp [hj, hi]
  · simp [hj]

theorem sum_update (hgroup : group < groups) (counts : ℕ → ℕ) (v : ℕ) :
    (∑ k ∈ range groups, update counts group v k) + counts group =
      (∑ k ∈ range groups, counts k) + v := by
  have hmem := mem_range.2 hgroup
  rw [sum_update_of_mem hmem, ← add_sum_erase _ counts hmem, sdiff_singleton_eq_erase]
  omega

namespace Balanced

section
variable (h : Balanced valid groups bits counts total) (hgroup : group < groups)
include h hgroup

theorem pos (hi : i ∈ valid group) (hclear : bits group i = false) : 0 < counts group := by
  rw [h.each group hgroup]
  exact card_pos.2 ⟨i, mem_clear.2 ⟨hi, hclear⟩⟩

theorem count_le_total : counts group ≤ total := by
  rw [h.sum]
  exact single_le_sum (fun _ _ => Nat.zero_le _) (mem_range.2 hgroup)

/-- A free number is marked. -/
theorem take (hi : i ∈ valid group) (hclear : bits group i = false) :
    Balanced valid groups (put bits group i true)
      (update counts group (counts group - 1)) (total - 1) where
  each k hk := by
    unfold put
    by_cases hgr : k = group
    · subst hgr
      rw [update_self, update_self, clear_set,
        card_erase_of_mem (mem_clear.2 ⟨hi, hclear⟩), ← h.each k hk]
    · rw [update_of_ne hgr, update_of_ne hgr]
      exact h.each k hk
  sum := by
    have hpos := h.pos hgroup hi hclear
    have hsum := sum_update hgroup counts (counts group - 1)
    have htotal := h.sum
    omega

/-- A marked number is put back. -/
theorem give (hi : i ∈ valid group) (hset : bits group i = true) :
    Balanced valid groups (put bits group i false)
      (update counts group (counts group + 1)) (total + 1) where
  each k hk := by
    unfold put
    by_cases hgr : k = group
    · subst hgr
      have hnot : i ∉ clear (valid k) (bits k) := by
        rw [mem_clear, hset]
        exact fun h => by simp at h
      rw [update_self, update_self, clear_unset hi, card_insert_of_notMem hnot, ← h.each k hk]
    · rw [update_of_ne hgr, update_of_ne hgr]
      exact h.each k hk
  sum := by
    have hsum := sum_update hgroup counts (counts group + 1)
    have htotal := h.sum
    omega

theorem count_le (hwidth : ∀ i ∈ valid group, i < width) : counts group ≤ width := by
  rw [h.each group hgroup, ← card_range width]
  refine card_le_card fun i hi => ?_
  exact mem_range.2 (hwidth i (mem_clear.1 hi).1)

end

/-- Free numbers are numbers below the limit. -/
theorem total_le (h : Balanced valid groups bits counts total)
    (hvalid : ∀ k i, i ∈ valid k → i < width ∧ k * width + i < limit) : total ≤ limit := by
  rw [h.sum, sum_congr rfl fun k hk => h.each k (mem_range.1 hk), ← card_sigma, ← card_range limit]
  refine card_le_card_of_injOn (fun p => p.1 * width + p.2) ?_ ?_
  · rintro ⟨k, i⟩ hp
    have hi := (mem_clear.1 (mem_sigma.1 hp).2).1
    exact mem_coe.2 (mem_range.2 (hvalid k i hi).2)
  · rintro ⟨k, i⟩ hp ⟨k', i'⟩ hp' heq
    have hi := (hvalid k i (mem_clear.1 (mem_sigma.1 (mem_coe.1 hp)).2).1).1
    have hi' := (hvalid k' i' (mem_clear.1 (mem_sigma.1 (mem_coe.1 hp')).2).1).1
    simp only at heq hi hi'
    have hpos : 0 < width := by omega
    have hk : k = k' := by
      have hdiv := congrArg (· / width) heq
      simpa [Nat.add_comm, Nat.add_mul_div_right, hpos, Nat.div_eq_of_lt hi,
        Nat.div_eq_of_lt hi'] using hdiv
    subst hk
    have : i = i' := by omega
    rw [this]

end Balanced

end RadKernel.Pool
