import Mathlib.Data.List.Basic

/-!
# Byte arrays in a buffer

A buffer of cells of which the first `size` count. Cells above the size keep what was stored
there. Against it stands a list that grows by a filler: cut or padded to a length, and written
to from a position, with a gap in front of it padded.
-/

namespace RadKernel.Buffer

variable {α : Type*} {zero : α} {size position n : Nat} {cells : Nat → α} {bytes : List α}

def contents (size : Nat) (cells : Nat → α) : List α := (List.range size).map cells

/-- The cells after some were written. -/
def store (cells : Nat → α) (position : Nat) (bytes : List α) : Nat → α := fun k =>
  if position ≤ k then bytes[k - position]?.getD (cells k) else cells k

/-- The list cut or padded to length `n`. -/
def resize (zero : α) (n : Nat) (bytes : List α) : List α :=
  bytes.take n ++ List.replicate (n - bytes.length) zero

/-- The list with `bytes` from `position` on, after a gap of fillers when it ends before. -/
def overwrite (zero : α) (position : Nat) (bytes old : List α) : List α :=
  resize zero position old ++ bytes ++ old.drop (position + bytes.length)

@[simp] theorem length_contents : (contents size cells).length = size := by
  simp [contents]

theorem getElem?_contents (k : Nat) :
    (contents size cells)[k]? = if k < size then some (cells k) else none := by
  grind [contents]

theorem getElem?_resize (old : List α) (k : Nat) :
    (resize zero n old)[k]? = if k < n then some (old[k]?.getD zero) else none := by
  grind [resize]

@[simp] theorem length_resize (old : List α) : (resize zero n old).length = n := by
  grind [resize]

theorem contents_resize : contents n (fun k => if size ≤ k ∧ k < n then zero else cells k) =
    resize zero n (contents size cells) := by
  refine List.ext_getElem? fun k => ?_
  rw [getElem?_contents, getElem?_resize, getElem?_contents]
  grind

/-- What is written into the buffer is written into the list, when the cells between the size
and the position hold the filler. -/
theorem contents_store (bytes : List α) (hgap : ∀ k, size ≤ k → k < position → cells k = zero) :
    contents (max size (position + bytes.length)) (store cells position bytes) =
      overwrite zero position bytes (contents size cells) := by
  refine List.ext_getElem? fun k => ?_
  rw [getElem?_contents, overwrite]
  by_cases hlow : k < position
  · rw [List.append_assoc, List.getElem?_append_left (by simpa using hlow), getElem?_resize,
      getElem?_contents]
    have hstore : store cells position bytes k = cells k := by
      rw [store, if_neg (by omega)]
    grind
  · by_cases hin : k < position + bytes.length
    · rw [List.getElem?_append_left (by simp; omega), List.getElem?_append_right (by simp; omega)]
      simp only [length_resize, store]
      grind
    · rw [List.getElem?_append_right (by simp; omega), List.getElem?_drop, getElem?_contents]
      simp only [List.length_append, length_resize, store]
      grind

@[simp] theorem store_nil : store cells position [] = cells := by
  funext k
  grind [store]

/-- Pieces that are written one after the other are written as a whole. -/
theorem store_append (bytes more : List α) :
    store (store cells position bytes) (position + bytes.length) more =
      store cells position (bytes ++ more) := by
  funext k
  grind [store]

theorem contents_read :
    (List.range (min (size - position) n)).map (fun k => cells (position + k)) =
      ((contents size cells).drop position).take n := by
  refine List.ext_getElem? fun k => ?_
  rw [List.getElem?_take, List.getElem?_drop, getElem?_contents]
  grind

end RadKernel.Buffer
