import Mathlib.Data.List.Basic

/-!
# Items laid end to end

A list of items, each with a width, laid one after the other from a start address.
`place` pairs every item with the address it starts at and `finish` is the first
address after the last one. The library knows nothing of what the items are: heap
blocks, directory records and extents are all laid out this way.
-/

namespace RadKernel.Tiling

variable {α : Type*} (width : α → Nat)

/-- Every item paired with the address it starts at. -/
def place : Nat → List α → List (Nat × α)
  | _, [] => []
  | lo, x :: xs => (lo, x) :: place (lo + width x) xs

/-- The first address after the row. -/
def finish : Nat → List α → Nat
  | lo, [] => lo
  | lo, x :: xs => finish (lo + width x) xs

section
variable (lo : Nat)
include lo

@[simp] theorem place_nil : place width lo [] = [] := rfl

@[simp] theorem place_cons (x : α) (xs : List α) :
    place width lo (x :: xs) = (lo, x) :: place width (lo + width x) xs := rfl

@[simp] theorem finish_nil : finish width lo [] = lo := rfl

@[simp] theorem finish_cons (x : α) (xs : List α) :
    finish width lo (x :: xs) = finish width (lo + width x) xs := rfl

theorem finish_append (xs ys : List α) :
    finish width lo (xs ++ ys) = finish width (finish width lo xs) ys := by
  induction xs generalizing lo with
  | nil => rfl
  | cons x xs ih => simp [ih]

theorem place_append (xs ys : List α) :
    place width lo (xs ++ ys) = place width lo xs ++ place width (finish width lo xs) ys := by
  induction xs generalizing lo with
  | nil => rfl
  | cons x xs ih => simp [ih]

theorem le_finish (xs : List α) : lo ≤ finish width lo xs := by
  induction xs generalizing lo with
  | nil => simp
  | cons x xs ih => exact Nat.le_trans (Nat.le_add_right _ _) (ih _)

end

theorem length_le_finish (hw : ∀ x, 0 < width x) (lo : Nat) (xs : List α) :
    lo + xs.length ≤ finish width lo xs := by
  induction xs generalizing lo with
  | nil => simp
  | cons x xs ih =>
    have := ih (lo + width x)
    have := hw x
    simp only [List.length_cons, finish_cons]
    omega

variable {lo a : Nat} {x : α} {xs : List α}

/-- An item sits at `a` exactly when the row splits around it there. -/
theorem mem_place :
    (a, x) ∈ place width lo xs ↔ ∃ l r, xs = l ++ x :: r ∧ a = finish width lo l := by
  induction xs generalizing lo with
  | nil => simp
  | cons y xs ih =>
    simp only [place_cons, List.mem_cons, Prod.mk.injEq, ih]
    constructor
    · rintro (⟨rfl, rfl⟩ | ⟨l, r, rfl, rfl⟩)
      · exact ⟨[], xs, rfl, rfl⟩
      · exact ⟨y :: l, r, rfl, rfl⟩
    · rintro ⟨l, r, hl, rfl⟩
      cases l with
      | nil => simp_all
      | cons z l =>
        simp only [List.cons_append, List.cons.injEq] at hl
        exact .inr ⟨l, r, hl.2, by simp [hl.1]⟩

theorem mem_place_bounds (h : (a, x) ∈ place width lo xs) :
    lo ≤ a ∧ a + width x ≤ finish width lo xs := by
  obtain ⟨l, r, rfl, rfl⟩ := (mem_place width).1 h
  refine ⟨le_finish width lo l, ?_⟩
  rw [finish_append, finish_cons]
  exact le_finish width _ r

/-- Two placed items are the same item or lie one before the other. -/
theorem place_apart {b : Nat} {y : α} (hx : (a, x) ∈ place width lo xs)
    (hy : (b, y) ∈ place width lo xs) : (a = b ∧ x = y) ∨ a + width x ≤ b ∨ b + width y ≤ a := by
  induction xs generalizing lo with
  | nil => simp at hx
  | cons z xs ih =>
    simp only [place_cons, List.mem_cons, Prod.mk.injEq] at hx hy
    rcases hx with ⟨rfl, rfl⟩ | hx <;> rcases hy with ⟨rfl, rfl⟩ | hy
    · exact .inl ⟨rfl, rfl⟩
    · exact .inr (.inl (mem_place_bounds width hy).1)
    · exact .inr (.inr (mem_place_bounds width hx).1)
    · exact ih hx hy

end RadKernel.Tiling
