import Mathlib.Data.Nat.ModEq
import RadKernel.Lib.Buffer

/-!
# Ring buffers

An array of `capacity` cells that holds a queue: `size` elements from `start` on, which go on
at the front of the array when they reach its end. Elements come and go in blocks, and a block
that crosses the end is copied in two pieces.
-/

namespace RadKernel.Ring

open Buffer

variable {α : Type*} {capacity start size count : Nat} {cells : Nat → α} {block : List α}

/-- The elements, oldest first. -/
def queue (capacity start size : Nat) (cells : Nat → α) : List α :=
  (List.range size).map fun n => cells ((start + n) % capacity)

/-- The block from `position` to the end of the array, the rest from its front on. -/
def push (capacity position : Nat) (cells : Nat → α) (block : List α) : Nat → α :=
  let first := min block.length (capacity - position)
  let cells := store cells position (block.take first)
  if first < block.length then store cells 0 (block.drop first) else cells

/-- The first `count` elements: up to the end of the array, the rest from its front on. -/
def peek (capacity start count : Nat) (cells : Nat → α) : List α :=
  let first := min count (capacity - start)
  contents first (fun n => cells (start + n)) ++
    if first < count then contents (count - first) cells else []

@[simp] theorem length_queue : (queue capacity start size cells).length = size := by
  simp [queue]

@[simp] theorem queue_zero : queue capacity start 0 cells = [] := rfl

theorem getElem?_queue (n : Nat) : (queue capacity start size cells)[n]? =
    if n < size then some (cells ((start + n) % capacity)) else none := by
  grind [queue]

variable {n position k : Nat}

/-- A position up to twice around the array. -/
theorem mod_eq (hstart : start < capacity) (hn : n ≤ capacity) :
    (start + n) % capacity =
      if start + n < capacity then start + n else start + n - capacity := by
  split
  · next hlt => exact Nat.mod_eq_of_lt hlt
  · next hge =>
    rw [Nat.mod_eq_sub_mod (by omega)]
    exact Nat.mod_eq_of_lt (by omega)

theorem store_of_lt (hk : k < position) : store cells position block k = cells k := by
  simp [store, Nat.not_le.2 hk]

theorem store_apply (hk : position ≤ k) :
    store cells position block k = (block[k - position]?).getD (cells k) := by
  simp [store, hk]

theorem push_apply (hstart : start < capacity) (hfit : block.length ≤ capacity)
    (hn : n < capacity) : push capacity start cells block ((start + n) % capacity) =
      (block[n]?).getD (cells ((start + n) % capacity)) := by
  rw [mod_eq hstart (by omega)]
  unfold push
  by_cases hlt : start + n < capacity
  · -- the cell is in the first piece
    have hfirst : store cells start (block.take (min block.length (capacity - start)))
        (start + n) = (block[n]?).getD (cells (start + n)) := by
      rw [store_apply (by omega), Nat.add_sub_cancel_left, List.getElem?_take]
      grind
    split
    · rw [store_apply (Nat.zero_le _), hfirst, List.getElem?_drop]
      grind
    · exact hfirst
  · have hbefore : store cells start (block.take (min block.length (capacity - start)))
        (start + n - capacity) = cells (start + n - capacity) := store_of_lt (by omega)
    split
    · next hrest =>
      rw [store_apply (Nat.zero_le _), hbefore, List.getElem?_drop]
      congr 2
      omega
    · next hall =>
      rw [hbefore, List.getElem?_eq_none (by omega)]
      rfl

/-- An element put behind the last one. -/
theorem queue_snoc (hroom : size < capacity) (x : α) :
    queue capacity start (size + 1) (Function.update cells ((start + size) % capacity) x) =
      queue capacity start size cells ++ [x] := by
  rw [queue, List.range_succ, List.map_append, List.map_singleton, Function.update_self]
  congr 1
  refine List.map_congr_left fun n hn => Function.update_of_ne ?_ _ _
  have hlt := List.mem_range.1 hn
  intro heq
  have hsame : n = size := Nat.ModEq.eq_of_lt_of_lt (Nat.ModEq.add_left_cancel' start heq)
    (by omega) hroom
  omega

/-- A block copied behind the last element comes last. -/
theorem queue_push (hstart : start < capacity) (hfit : size + block.length ≤ capacity) :
    queue capacity start (size + block.length)
        (push capacity ((start + size) % capacity) cells block) =
      queue capacity start size cells ++ block := by
  have hpos : (start + size) % capacity < capacity := Nat.mod_lt _ (by omega)
  refine List.ext_getElem? fun n => ?_
  rw [getElem?_queue]
  by_cases hn : n < size
  · -- an element from before is `capacity - size + n` cells behind the block
    have hcell : (start + n) % capacity =
        ((start + size) % capacity + (capacity - size + n)) % capacity := by
      rw [Nat.mod_add_mod, show start + size + (capacity - size + n) = start + n + capacity by omega,
        Nat.add_mod_right]
    rw [if_pos (by omega), List.getElem?_append_left (by simpa using hn), getElem?_queue, if_pos hn,
      hcell, push_apply hpos (by omega) (by omega), List.getElem?_eq_none (by omega)]
    rfl
  · rw [List.getElem?_append_right (by simp; omega), length_queue]
    split
    · next hlt =>
      have hcell :
    (start + n) % capacity = ((start + size) % capacity + (n - size)) % capacity := by
        rw [Nat.mod_add_mod]
        congr 1
        omega
      rw [hcell, push_apply hpos (by omega) (by omega),
        List.getElem?_eq_getElem (show n - size < block.length by omega)]
      rfl
    · exact (List.getElem?_eq_none (by omega)).symm

theorem peek_eq (hstart : start < capacity) (hcount : count ≤ size) (hsize : size ≤ capacity) :
    peek capacity start count cells = (queue capacity start size cells).take count := by
  refine List.ext_getElem? fun n => ?_
  rw [List.getElem?_take, getElem?_queue]
  unfold peek
  by_cases hn : n < min count (capacity - start)
  · rw [List.getElem?_append_left (by simpa using hn), getElem?_contents, if_pos hn,
      if_pos (by omega), if_pos (by omega), Nat.mod_eq_of_lt (by omega)]
  · rw [List.getElem?_append_right (by simp; omega), length_contents]
    split
    · next hrest =>
      rw [getElem?_contents]
      split
      · rw [if_pos (by omega), if_pos (by omega), mod_eq hstart (by omega), if_neg (by omega)]
        congr 2
        omega
      · rw [if_neg (by omega)]
    · rw [if_neg (by omega)]
      rfl

/-- What is left when the first `count` elements are gone. -/
theorem queue_drop (hcount : count ≤ size) :
    queue capacity ((start + count) % capacity) (size - count) cells =
      (queue capacity start size cells).drop count := by
  refine List.ext_getElem? fun n => ?_
  rw [List.getElem?_drop, getElem?_queue, getElem?_queue, Nat.mod_add_mod]
  grind

theorem queue_eq_cons (hstart : start < capacity) (hsize : 0 < size) :
    queue capacity start size cells =
      cells start :: queue capacity ((start + 1) % capacity) (size - 1) cells := by
  have hfirst : (queue capacity start size cells)[0]? = some (cells start) := by
    rw [getElem?_queue, if_pos hsize, Nat.add_zero, Nat.mod_eq_of_lt hstart]
  rw [queue_drop hsize]
  obtain ⟨hlt, hget⟩ := List.getElem?_eq_some_iff.1 hfirst
  rw [← hget]
  exact List.drop_zero.symm.trans (List.drop_eq_getElem_cons hlt)

end RadKernel.Ring
