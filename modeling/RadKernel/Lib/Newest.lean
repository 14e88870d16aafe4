import Mathlib.Data.List.DropRight

/-!
# Queues that keep the newest items

A queue of bounded length that makes room by dropping its oldest item. What was put into it is a
list; readers get items of that list at increasing positions, so each of them at most once, and
what waits is the end of what lies behind the last item that was read.
-/

namespace RadKernel

open List

variable {α : Type*} {capacity n : Nat} {pushed returned pending : List α} {positions : List Nat}

/-- The position behind the last of increasing positions. -/
def behind (positions : List Nat) : Nat :=
  match positions.getLast? with
  | none => 0
  | some p => p + 1

/-- The items that were put in and not read, nor any item behind them. -/
def unread (pushed : List α) (positions : List Nat) : List α := pushed.drop (behind positions)

/-- What readers got and what waits, against all that was put in. -/
def Newest (capacity : Nat) (pushed returned pending : List α) : Prop :=
  ∃ positions : List Nat, positions.Pairwise (· < ·) ∧
    returned.map some = positions.map (pushed[·]?) ∧
    pending = (unread pushed positions).rtake capacity

@[simp] theorem behind_concat (p : Nat) : behind (positions ++ [p]) = p + 1 := by
  simp [behind]

theorem lt_behind (hpos : positions.Pairwise (· < ·)) {p : Nat} (hp : p ∈ positions) :
    p < behind positions := by
  obtain rfl | ⟨init, last, rfl⟩ := eq_nil_or_concat' positions
  · simp at hp
  · simp only [pairwise_append, mem_append, mem_singleton] at hpos hp
    rw [behind_concat]
    grind

theorem behind_le (hpos : ∀ p ∈ positions, p < n) : behind positions ≤ n := by
  obtain rfl | ⟨init, last, rfl⟩ := eq_nil_or_concat' positions
  · exact Nat.zero_le n
  · rw [behind_concat]
    exact hpos last (by simp)

/-- The items at the positions exist. -/
theorem lt_length_of_map (h : returned.map some = positions.map (pushed[·]?)) {p : Nat}
    (hp : p ∈ positions) : p < pushed.length := by
  have hmem : pushed[p]? ∈ returned.map some := h ▸ mem_map_of_mem hp
  obtain ⟨x, -, hx⟩ := List.mem_map.1 hmem
  exact (List.getElem?_eq_some_iff.1 hx.symm).1

theorem rtake_concat (l : List α) (x : α) :
    (l ++ [x]).rtake capacity = (l.rtake capacity ++ [x]).rtake capacity := by
  cases capacity with
  | zero => simp
  | succ n =>
    rw [rtake_concat_succ, rtake_concat_succ]
    simp only [List.rtake, drop_drop, length_drop]
    congr 2
    omega

namespace Newest

theorem empty : Newest capacity ([] : List α) [] [] := ⟨[], by simp [unread, List.rtake]⟩

section
variable (h : Newest capacity pushed returned pending)
include h

theorem length_le : pending.length ≤ capacity := by
  obtain ⟨positions, -, -, rfl⟩ := h
  simp only [List.rtake, length_drop]
  omega

/-- An item is put in; the oldest one is dropped when there is no room. -/
theorem push (x : α) :
    Newest capacity (pushed ++ [x]) returned ((pending ++ [x]).rtake capacity) := by
  obtain ⟨positions, hpos, hreturned, rfl⟩ := h
  have hlt : ∀ p ∈ positions, p < pushed.length := fun p hp => lt_length_of_map hreturned hp
  refine ⟨positions, hpos, ?_, ?_⟩
  · rw [hreturned]
    refine map_congr_left fun p hp => ?_
    exact (List.getElem?_append_left (hlt p hp)).symm
  · rw [← rtake_concat, unread, unread, drop_append_of_le_length (behind_le hlt)]

/-- The oldest items that wait are read. -/
theorem read (hn : n ≤ pending.length) :
    Newest capacity pushed (returned ++ pending.take n) (pending.drop n) := by
  have hcapacity := h.length_le
  obtain ⟨positions, hpos, hreturned, rfl⟩ := h
  -- what waits begins at position `first`
  obtain ⟨first, hfirst, hpending⟩ : ∃ first, behind positions ≤ first ∧
      (unread pushed positions).rtake capacity = pushed.drop first :=
    ⟨_, Nat.le_add_right _ _, drop_drop⟩
  rw [hpending] at hn hcapacity ⊢
  refine ⟨positions ++ List.range' first n, ?_, ?_, ?_⟩
  · refine List.pairwise_append.2 ⟨hpos, pairwise_lt_range', ?_⟩
    intro p hp q hq
    have hp' := lt_behind hpos hp
    rw [mem_range'_1] at hq
    omega
  · rw [map_append, map_append, hreturned]
    congr 1
    refine ext_getElem? fun i => ?_
    grind
  · cases n with
    | zero =>
      rw [drop_zero, List.range'_zero, append_nil]
      exact hpending.symm
    | succ n =>
      rw [length_drop] at hn hcapacity
      rw [List.range'_concat, ← append_assoc, unread, behind_concat, List.rtake,
        length_drop, drop_drop, drop_drop]
      congr 1
      omega

end

end Newest

end RadKernel
