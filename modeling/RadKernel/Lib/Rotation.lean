import Mathlib.Data.List.Range

/-!
# Search in rotation

The places of a ring are searched one after the other, from the place after the one that was
found last. A place that is always wanted is found soon: each search that finds another place
stops before it, so the next search starts closer to it.
-/

namespace RadKernel

variable {n start i j : Nat} {p : Nat → Bool} {js : List Nat}

/-- The places in the order of a search. -/
def rotation (n start : Nat) : List Nat :=
  (List.range n).map fun offset => (start + offset) % n

/-- How many places are searched before a place. -/
def ahead (n start i : Nat) : Nat :=
  if start ≤ i then i - start else i + n - start

theorem wrap {a : Nat} (h : a < 2 * n) : a % n = if a < n then a else a - n := by
  split
  · next ha => exact Nat.mod_eq_of_lt ha
  · next ha =>
    rw [Nat.mod_eq_sub_mod (by omega)]
    exact Nat.mod_eq_of_lt (by omega)

theorem ahead_lt (hi : i < n) (hstart : start < n) : ahead n start i < n := by
  unfold ahead
  split <;> omega

theorem add_ahead (hi : i < n) (hstart : start < n) : (start + ahead n start i) % n = i := by
  have hlt := ahead_lt hi hstart
  rw [wrap (by omega)]
  unfold ahead at hlt ⊢
  grind

theorem ahead_add {offset : Nat} (hoffset : offset < n) (hstart : start < n) :
    ahead n start ((start + offset) % n) = offset := by
  rw [wrap (by omega)]
  unfold ahead
  grind

theorem mem_rotation (hi : i < n) (hstart : start < n) : i ∈ rotation n start :=
  List.mem_map.2 ⟨ahead n start i, List.mem_range.2 (ahead_lt hi hstart), add_ahead hi hstart⟩

theorem lt_of_mem_rotation (hj : j ∈ rotation n start) : j < n := by
  obtain ⟨offset, hoffset, rfl⟩ := List.mem_map.1 hj
  have hpos := List.mem_range.1 hoffset
  exact Nat.mod_lt _ (by omega)

/-- A search stops before a place that is wanted, or at it. -/
theorem ahead_le_of_find (hstart : start < n) (hfind : (rotation n start).find? p = some j)
    (hi : i < n) (hp : p i = true) : ahead n start j ≤ ahead n start i := by
  rw [rotation, List.find?_map, Option.map_eq_some_iff] at hfind
  obtain ⟨offset, hoffset, rfl⟩ := hfind
  obtain ⟨-, hmem, hbefore⟩ := List.find?_range_eq_some.1 hoffset
  rw [ahead_add (List.mem_range.1 hmem) hstart]
  by_contra! hlt
  have hmiss := hbefore _ hlt
  simp [add_ahead hi hstart, hp] at hmiss

/-- The search after it starts closer to the place. -/
theorem ahead_next (hstart : start < n) (hj : j < n) (hi : i < n) (hne : j ≠ i)
    (hle : ahead n start j ≤ ahead n start i) : ahead n ((j + 1) % n) i < ahead n start i := by
  rw [wrap (by omega)]
  unfold ahead at hle ⊢
  grind

/-- The places found by searches from `start` on, none of which passes over `i`. -/
def Turns (n i : Nat) : Nat → List Nat → Prop
  | _, [] => True
  | start, j :: js => j < n ∧ ahead n start j ≤ ahead n start i ∧ Turns n i ((j + 1) % n) js

section
variable (hi : i < n) (hstart : start < n) (h : Turns n i start js)
include hi hstart h

theorem mem_of_ahead (hlength : ahead n start i < js.length) : i ∈ js := by
  induction js generalizing start with
  | nil => simp at hlength
  | cons j js ih =>
    obtain ⟨hj, hle, hjs⟩ := h
    by_cases hne : j = i
    · simp [hne]
    · have hlt := ahead_next hstart hj hi hne hle
      have hmem := ih (Nat.mod_lt _ (by omega)) hjs (by simp at hlength; omega)
      exact List.mem_cons_of_mem _ hmem

/-- A place is among those found by as many searches as the ring has places. -/
theorem mem_of_turns (hlength : n ≤ js.length) : i ∈ js :=
  mem_of_ahead hi hstart h (Nat.lt_of_lt_of_le (ahead_lt hi hstart) hlength)

end

end RadKernel
