import Mathlib.Data.List.Basic

/-!
# Trees of tables

A table has entries, and an entry may link to another table. Trees of tables hang from roots, and
a table is found by the entries on the way from its root, the last one first. In a forest no table
is found in two ways, up to a depth below which entries are no links.
-/

namespace RadKernel.Forest

variable {κ α β : Type*} {link link' : α → β → Option α} {root root' : κ → Option α} {n : Nat}
  {k : κ} {π : List β} {a b : α} {i : β}

/-- The table at a path, whose last entry is the head of the list. -/
def reach (link : α → β → Option α) (root : κ → Option α) (k : κ) : List β → Option α
  | [] => root k
  | i :: π => (reach link root k π).bind fun a => link a i

/-- Tables at paths of length up to `n` are at one path only. -/
def Distinct (n : Nat) (link : α → β → Option α) (root : κ → Option α) : Prop :=
  ∀ k π k' π' a, π.length ≤ n → π'.length ≤ n → reach link root k π = some a →
    reach link root k' π' = some a → k = k' ∧ π = π'

theorem reach_cons :
    reach link root k (i :: π) = (reach link root k π).bind fun a => link a i := rfl

/-- A path of which a part leads nowhere. -/
theorem reach_of_none (h : reach link root k π = none) (i : β) :
    reach link root k (i :: π) = none := by
  rw [reach_cons, h]
  rfl

theorem reach_of_some (h : reach link root k π = some a) (i : β) :
    reach link root k (i :: π) = link a i := by
  rw [reach_cons, h]
  rfl

theorem reach_congr (hroot : root' k = root k)
    (hlink : ∀ π a, π.length < n → reach link root k π = some a → link' a = link a)
    (hπ : π.length ≤ n) : reach link' root' k π = reach link root k π := by
  induction π with
  | nil => exact hroot
  | cons i π ih =>
    rw [List.length_cons] at hπ
    rw [reach_cons, reach_cons, ih (by omega)]
    cases h : reach link root k π with
    | none => rfl
    | some a => rw [Option.bind_some, Option.bind_some, hlink π a (by omega) h]

/-- What the links lead to is the same forest. -/
theorem Distinct.congr (h : Distinct n link root)
    (hsame : ∀ k π, π.length ≤ n → reach link' root' k π = reach link root k π) :
    Distinct n link' root' := by
  intro k π k' π' a hπ hπ' hr hr'
  rw [hsame k π hπ] at hr
  rw [hsame k' π' hπ'] at hr'
  exact h k π k' π' a hπ hπ' hr hr'

namespace Distinct

variable {k' : κ} {π' : List β}

/-- A table without links that is nowhere in the forest is linked from a free entry. -/
theorem reach_link [DecidableEq κ] [DecidableEq β] (h : Distinct n link root)
    (ha : reach link root k π = some a) (hπ : π.length < n) (hfree : link a i = none)
    (hfresh : ∀ k' π', π'.length ≤ n → reach link root k' π' ≠ some b)
    (hnew : link' a i = some b) (hempty : ∀ j, link' b j = none)
    (hsame : ∀ x j, x ≠ b → (x ≠ a ∨ j ≠ i) → link' x j = link x j) (hπ' : π'.length ≤ n) :
    reach link' root k' π' = if k' = k ∧ π' = i :: π then some b else reach link root k' π' := by
  induction π' with
  | nil => simp [reach]
  | cons j π₁ ih =>
    rw [List.length_cons] at hπ'
    rw [reach_cons, ih (by omega)]
    by_cases hbelow : k' = k ∧ π₁ = i :: π
    · -- below the new table there is nothing, as before
      obtain ⟨rfl, rfl⟩ := hbelow
      have hne : ¬(k' = k' ∧ j :: i :: π = i :: π) := by
        rintro ⟨-, heq⟩
        simpa using congrArg List.length heq
      have hbefore : reach link root k' (i :: π) = none := (reach_of_some ha i).trans hfree
      rw [if_pos ⟨rfl, rfl⟩, if_neg hne, Option.bind_some, hempty, reach_of_none hbefore]
    rw [if_neg hbelow]
    cases hx : reach link root k' π₁ with
    | none =>
      have hne : ¬(k' = k ∧ j :: π₁ = i :: π) := by
        rintro ⟨rfl, heq⟩
        obtain ⟨-, rfl⟩ := List.cons.inj heq
        rw [ha] at hx
        cases hx
      rw [if_neg hne, reach_of_none hx]
      rfl
    | some x =>
      have hxb : x ≠ b := by
        rintro rfl
        exact hfresh k' π₁ (by omega) hx
      rw [Option.bind_some]
      by_cases hhere : x = a ∧ j = i
      · obtain ⟨rfl, rfl⟩ := hhere
        obtain ⟨rfl, rfl⟩ := h k' π₁ k π x (by omega) (by omega) hx ha
        rw [if_pos ⟨rfl, rfl⟩, hnew]
      · have hne : ¬(k' = k ∧ j :: π₁ = i :: π) := by
          rintro ⟨rfl, heq⟩
          obtain ⟨rfl, rfl⟩ := List.cons.inj heq
          exact hhere ⟨Option.some.inj (hx.symm.trans ha), rfl⟩
        rw [if_neg hne, reach_of_some hx, hsame x j hxb (by tauto)]

/-- A table that was nowhere is at one path. -/
theorem add {π₀ : List β} [∀ k' π', Decidable (k' = k ∧ π' = π₀)] (h : Distinct n link root)
    (hfresh : ∀ k' π', π'.length ≤ n → reach link root k' π' ≠ some b)
    (hreach : ∀ k' π', π'.length ≤ n → reach link' root' k' π' =
      if k' = k ∧ π' = π₀ then some b else reach link root k' π') : Distinct n link' root' := by
  intro k₁ π₁ k₂ π₂ x h₁ h₂ hr₁ hr₂
  rw [hreach k₁ π₁ h₁] at hr₁
  rw [hreach k₂ π₂ h₂] at hr₂
  have hb₁ := hfresh k₁ π₁ h₁
  have hb₂ := hfresh k₂ π₂ h₂
  split_ifs at hr₁ hr₂ with hhere hhere' hhere'
  · exact ⟨hhere.1.trans hhere'.1.symm, hhere.2.trans hhere'.2.symm⟩
  · cases hr₁
    exact absurd hr₂ hb₂
  · cases hr₂
    exact absurd hr₁ hb₁
  · exact h k₁ π₁ k₂ π₂ x h₁ h₂ hr₁ hr₂

/-- A table without links becomes the root of a new tree. -/
theorem reach_plant [DecidableEq κ] (hroot : root k = none)
    (hfresh : ∀ k' π', π'.length ≤ n → reach link root k' π' ≠ some b)
    (hempty : ∀ j, link' b j = none) (hsame : ∀ x, x ≠ b → link' x = link x) (hπ' : π'.length ≤ n) :
    reach link' (Function.update root k (some b)) k' π' =
      if k' = k ∧ π' = [] then some b else reach link root k' π' := by
  by_cases hk : k' = k
  · subst hk
    have hnone : ∀ π, reach link root k' π = none := by
      intro π
      induction π with
      | nil => exact hroot
      | cons i π ih => exact reach_of_none ih i
    induction π' with
    | nil => simp [reach]
    | cons j π₁ ih =>
      rw [List.length_cons] at hπ'
      have hne : ¬(k' = k' ∧ j :: π₁ = []) := by simp
      rw [reach_cons, ih (by omega), if_neg hne, hnone (j :: π₁)]
      by_cases hnil : π₁ = []
      · rw [if_pos ⟨rfl, hnil⟩, Option.bind_some, hempty]
      · have hbelow : ¬(k' = k' ∧ π₁ = []) := by simpa using hnil
        rw [if_neg hbelow, hnone]
        rfl
  · rw [if_neg (by simp [hk])]
    refine reach_congr (Function.update_of_ne hk ..) (fun π a hlt ha => hsame a ?_) hπ'
    rintro rfl
    exact hfresh k' π (by omega) ha

/-- A tree is cut down. -/
theorem reach_cut [DecidableEq κ] (k' : κ) (π' : List β) :
    reach link (Function.update root k none) k' π' =
      if k' = k then none else reach link root k' π' := by
  induction π' with
  | nil =>
    by_cases hk : k' = k
    · subst hk
      simp [reach]
    · simp [reach, hk]
  | cons j π₁ ih =>
    rw [reach_cons, ih]
    split_ifs
    · rfl
    · rfl

end Distinct

end RadKernel.Forest
