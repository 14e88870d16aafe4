import Mathlib.Data.Finset.Card
import Mathlib.Data.Nat.Find

/-!
# Walks that follow links

A walk goes from a node to the next one until it comes to a node at which it stops. When all links
lead into a finite set, a walk that stops does so after at most as many steps as the set has nodes,
since a node that comes back comes back again and again.
-/

namespace RadKernel.Walk

variable {α : Type*} {next : α → α} {stop : α → Prop} {a : α} {i j n : ℕ}

/-- Behind a node that came back the walk repeats itself. -/
theorem iterate_shorter (hij : next^[i] a = next^[j] a) (hlt : i < j) (hn : j ≤ n) :
    next^[n - (j - i)] a = next^[n] a := by
  have hshort : n - (j - i) = (n - j) + i := by omega
  have hlong : n = (n - j) + j := by omega
  rw [hshort, Function.iterate_add_apply, hij, ← Function.iterate_add_apply, ← hlong]

theorem comes_back (nodes : Finset α) (h : ∀ k ≤ nodes.card, next^[k + 1] a ∈ nodes) :
    ∃ i j, i < j ∧ j ≤ nodes.card ∧ next^[i + 1] a = next^[j + 1] a := by
  classical
  have hmaps : ∀ k ∈ Finset.range (nodes.card + 1), next^[k + 1] a ∈ nodes := by
    intro k hk
    apply h
    rw [Finset.mem_range] at hk
    omega
  obtain ⟨i, hi, j, hj, hne, hsame⟩ :=
    Finset.exists_ne_map_eq_of_card_lt_of_maps_to (by simp) hmaps
  rw [Finset.mem_range] at hi hj
  rcases Nat.lt_or_gt_of_ne hne with hlt | hlt
  · exact ⟨i, j, hlt, by omega, hsame⟩
  · exact ⟨j, i, hlt, by omega, hsame.symm⟩

/-- The first stop of a walk comes within as many steps as there are nodes that links lead to. -/
theorem stops_within (nodes : Finset α) (hnext : ∀ b, next b ∈ nodes)
    (h : ∃ n, stop (next^[n] a)) : ∃ n ≤ nodes.card, stop (next^[n] a) := by
  classical
  refine ⟨Nat.find h, ?_, Nat.find_spec h⟩
  by_contra hlong
  -- two of the steps before the stop lead to one node
  obtain ⟨i, j, hlt, hj, hsame⟩ := @comes_back _ next a nodes fun k _ => by
    rw [Function.iterate_succ_apply']
    exact hnext _
  have hshort := iterate_shorter hsame (by omega) (n := Nat.find h) (by omega)
  refine Nat.find_min h (m := Nat.find h - (j + 1 - (i + 1))) (by omega) ?_
  rw [hshort]
  exact Nat.find_spec h

end RadKernel.Walk
