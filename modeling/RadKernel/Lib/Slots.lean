import Mathlib.Data.List.Basic

/-!
# Queues in an array of slots

An array of `n` slots, each empty or holding an item, read from slot 0 up. Taking the first
item in use always gives the first of the contents. Putting an item into an empty slot
appends it only when no item lies above.
-/

namespace RadKernel.Slots

open Function

variable {α : Type*} {n i : Nat} {slots slots' : Nat → Option α} {a : α}

/-- The items in the order of their slots. -/
def contents (n : Nat) (slots : Nat → Option α) : List α := (List.range n).filterMap slots

theorem contents_congr (h : ∀ k < n, slots k = slots' k) :
    contents n slots = contents n slots' := by
  refine List.filterMap_congr fun k hk => ?_
  exact h k (List.mem_range.1 hk)

theorem contents_split (hi : i < n) (slots : Nat → Option α) :
    contents n slots = contents i slots ++ (slots i).toList ++
      (List.range' (i + 1) (n - i - 1)).filterMap slots := by
  have hrange : List.range n = List.range i ++ [i] ++ List.range' (i + 1) (n - i - 1) := by
    obtain ⟨m, rfl⟩ : ∃ m, n = i + (m + 1) := ⟨n - i - 1, by omega⟩
    rw [show i + (m + 1) - i - 1 = m by omega, List.range_eq_range', List.range_eq_range',
      ← List.range'_append_1, List.range'_succ]
    simp
  rw [contents, hrange]
  cases h : slots i <;> simp [h, contents]

theorem contents_eq_nil (h : ∀ k < n, slots k = none) : contents n slots = [] := by
  refine List.filterMap_eq_nil_iff.2 fun k hk => ?_
  exact h k (List.mem_range.1 hk)

/-- An item put above all others comes last. -/
theorem contents_put (hi : i < n) (hfree : ∀ k, i ≤ k → k < n → slots k = none) (a : α) :
    contents n (update slots i (some a)) = contents n slots ++ [a] := by
  have hbelow : contents i (update slots i (some a)) = contents i slots := by
    refine contents_congr fun k hk => ?_
    rw [update_of_ne (by omega)]
  have habove : ∀ f : Nat → Option α, (∀ k, i < k → k < n → f k = none) →
      (List.range' (i + 1) (n - i - 1)).filterMap f = [] := by
    intro f hf
    refine List.filterMap_eq_nil_iff.2 fun k hk => ?_
    rw [List.mem_range'_1] at hk
    exact hf k (by omega) (by omega)
  rw [contents_split hi, contents_split hi slots, hbelow, update_self,
    hfree i (Nat.le_refl i) hi, habove slots fun k hk hn => hfree k (by omega) hn, habove]
  · simp
  · intro k hk hn
    rw [update_of_ne (by omega)]
    exact hfree k (by omega) hn

/-- The item in the lowest slot in use comes first. -/
theorem contents_take (hi : i < n) (hbelow : ∀ k < i, slots k = none) (ha : slots i = some a) :
    contents n slots = a :: contents n (update slots i none) := by
  have hbelow' : ∀ k < i, update slots i none k = none := by
    intro k hk
    rw [update_of_ne (by omega)]
    exact hbelow k hk
  have habove : (List.range' (i + 1) (n - i - 1)).filterMap (update slots i none) =
      (List.range' (i + 1) (n - i - 1)).filterMap slots := by
    refine List.filterMap_congr fun k hk => ?_
    rw [List.mem_range'_1] at hk
    rw [update_of_ne (by omega)]
  rw [contents_split hi, contents_split hi (update slots i none),
    contents_eq_nil hbelow, contents_eq_nil hbelow', update_self, habove, ha]
  simp

end RadKernel.Slots
