import Mathlib.Data.List.Basic
import Mathlib.Tactic.Ring

/-!
# Painting a rectangle of an image

An image is an array of words, read row after row with a distance of `stride` words from a
row to the next. Painting a rectangle goes over its rows, and over the words of each row.
-/

namespace RadKernel.Raster

variable {α : Type*} {x y x0 y0 width height stride base count k : Nat}

/-- The words of a row replaced from left to right. -/
def paintRow (f : Nat → α → α) (base count : Nat) (image : Nat → α) : Nat → α :=
  (List.range count).foldl
    (fun image col => Function.update image (base + col) (f col (image (base + col)))) image

/-- The rows of a rectangle replaced from top to bottom. -/
def paint (f : Nat → Nat → α → α) (stride x0 y0 width height : Nat) (image : Nat → α) : Nat → α :=
  (List.range height).foldl
    (fun image row => paintRow (f row) ((y0 + row) * stride + x0) width image) image

theorem paintRow_apply (f : Nat → α → α) (image : Nat → α) :
    paintRow f base count image k =
      if base ≤ k ∧ k < base + count then f (k - base) (image k) else image k := by
  unfold paintRow
  induction count with
  | zero => rw [if_neg (by omega)]; rfl
  | succ count ih =>
    rw [List.range_succ, List.foldl_append, List.foldl_cons, List.foldl_nil, Function.update_apply]
    by_cases hk : k = base + count
    · subst hk
      rw [if_pos rfl, if_pos (by omega), ih, if_neg (by omega), Nat.add_sub_cancel_left]
    · rw [if_neg hk, ih]
      by_cases hin : base ≤ k ∧ k < base + count
      · rw [if_pos hin, if_pos (by omega)]
      · rw [if_neg hin, if_neg (by omega)]

/-- A word lies in a row of the rectangle only when its coordinates do. -/
theorem mem_row_iff (hx : x < stride) (hwidth : x0 + width ≤ stride) :
    (y0 * stride + x0 ≤ y * stride + x ∧ y * stride + x < y0 * stride + x0 + width) ↔
      y = y0 ∧ x0 ≤ x ∧ x < x0 + width := by
  constructor
  · rintro ⟨hlow, hhigh⟩
    have hy : y = y0 := by
      rcases Nat.lt_trichotomy y y0 with hlt | heq | hgt
      · have := Nat.mul_le_mul_right stride hlt
        rw [Nat.succ_mul] at this
        omega
      · exact heq
      · have := Nat.mul_le_mul_right stride hgt
        rw [Nat.succ_mul] at this
        omega
    subst hy
    omega
  · rintro ⟨rfl, hlow, hhigh⟩
    omega

theorem paint_apply (f : Nat → Nat → α → α) (image : Nat → α) (hx : x < stride)
    (hwidth : x0 + width ≤ stride) :
    paint f stride x0 y0 width height image (y * stride + x) =
      if x0 ≤ x ∧ x < x0 + width ∧ y0 ≤ y ∧ y < y0 + height
      then f (y - y0) (x - x0) (image (y * stride + x)) else image (y * stride + x) := by
  unfold paint
  induction height with
  | zero => rw [if_neg (by omega)]; rfl
  | succ height ih =>
    rw [List.range_succ, List.foldl_append, List.foldl_cons, List.foldl_nil, paintRow_apply, ih]
    simp only [mem_row_iff hx hwidth]
    by_cases hy : y = y0 + height ∧ x0 ≤ x ∧ x < x0 + width
    · obtain ⟨rfl, hlow, hhigh⟩ := hy
      rw [if_pos ⟨rfl, hlow, hhigh⟩, if_neg (by omega), if_pos (by omega),
        Nat.add_sub_cancel_left, Nat.add_sub_add_left]
    · rw [if_neg hy]
      by_cases hin : x0 ≤ x ∧ x < x0 + width ∧ y0 ≤ y ∧ y < y0 + height
      · rw [if_pos hin, if_pos (by omega)]
      · rw [if_neg hin, if_neg (by omega)]

end RadKernel.Raster
