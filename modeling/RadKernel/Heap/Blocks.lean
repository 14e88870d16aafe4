import RadKernel.Lib.Tiling
import Mathlib.Data.List.Chain

/-!
# The heap as a row of blocks

The abstract heap: blocks of a size and a free flag laid end to end, each one a 64-byte
header and its payload. `merge` is what coalescing does to the row.
-/

namespace RadKernel.Heap

open Tiling

structure Block where
  size : Nat
  free : Bool

/-- Header and payload. -/
def Block.width (b : Block) : Nat := 64 + b.size

@[simp] theorem Block.width_mk (n : Nat) (f : Bool) : Block.width ⟨n, f⟩ = 64 + n := rfl

/-- Join neighbouring free blocks from the left, as one pass of `coalesce_heap` does. -/
def merge : List Block → List Block
  | [] => []
  | [b] => [b]
  | b :: c :: rest =>
    if b.free && c.free then merge (⟨b.size + (64 + c.size), true⟩ :: rest)
    else b :: merge (c :: rest)
termination_by bs => bs.length

/-- No two neighbours are both free. -/
def Apart (bs : List Block) : Prop := bs.IsChain fun b c => ¬ (b.free = true ∧ c.free = true)

theorem head_merge (b : Block) (rest : List Block) :
    ∃ c tail, merge (b :: rest) = c :: tail ∧ c.free = b.free := by
  generalize h : b :: rest = bs
  fun_induction merge bs generalizing b rest with
  | case1 => simp at h
  | case2 d => simp_all
  | case3 d e r hfree ih =>
    obtain ⟨c, tail, hc, hcf⟩ := ih ⟨d.size + (64 + e.size), true⟩ r rfl
    refine ⟨c, tail, hc, ?_⟩
    simp_all
  | case4 d e r hfree ih =>
    simp only [List.cons.injEq] at h
    exact ⟨d, _, rfl, by rw [h.1]⟩

theorem apart_merge (bs : List Block) : Apart (merge bs) := by
  fun_induction merge bs with
  | case1 => exact .nil
  | case2 b => exact .singleton b
  | case3 b c rest hfree ih => exact ih
  | case4 b c rest hfree ih =>
    obtain ⟨d, tail, hd, hdf⟩ := head_merge c rest
    rw [hd] at ih ⊢
    refine List.isChain_cons_cons.2 ⟨?_, ih⟩
    rw [hdf]
    simpa using hfree

variable {b : Block} {bs : List Block}

theorem mem_place_merge {lo a : Nat} (hb : b.free = false) :
    (a, b) ∈ place Block.width lo (merge bs) ↔ (a, b) ∈ place Block.width lo bs := by
  fun_induction merge bs generalizing lo with
  | case1 => rfl
  | case2 d => rfl
  | case3 d e rest hfree ih =>
    rw [ih]
    have hd : b ≠ d := fun h => by simp_all
    have he : b ≠ e := fun h => by simp_all
    have hj : b ≠ ⟨d.size + (64 + e.size), true⟩ := fun h => by simp_all
    have hw : lo + (64 + (d.size + (64 + e.size))) = lo + d.width + e.width := by
      simp only [Block.width]; omega
    simp [hd, he, hj, hw]
  | case4 d e rest hfree ih => rw [place_cons, List.mem_cons, place_cons, List.mem_cons, ih]

theorem apart_take {l r : List Block} {x : Block} (h : Apart (l ++ b :: r)) (hb : b.free = true)
    (hx : x.free = false) (y : Block) : Apart (l ++ x :: r) ∧ Apart (l ++ x :: y :: r) := by
  unfold Apart at *
  rw [List.isChain_append] at h ⊢
  rw [List.isChain_append]
  obtain ⟨hl, hbr, hlast⟩ := h
  have hr : r.IsChain fun b c => ¬ (b.free = true ∧ c.free = true) := hbr.tail
  have hxr : (x :: r).IsChain fun b c => ¬ (b.free = true ∧ c.free = true) := by
    cases r with
    | nil => exact .singleton x
    | cons c r => exact List.isChain_cons_cons.2 ⟨by simp [hx], hr⟩
  have hyr : (y :: r).IsChain fun b c => ¬ (b.free = true ∧ c.free = true) := by
    cases r with
    | nil => exact .singleton y
    | cons c r =>
      have hc := (List.isChain_cons_cons.1 hbr).1
      refine List.isChain_cons_cons.2 ⟨?_, hr⟩
      rintro ⟨-, hfree⟩
      exact hc ⟨hb, hfree⟩
  exact ⟨⟨hl, hxr, by simp [hx]⟩, hl, List.isChain_cons_cons.2 ⟨by simp [hx], hyr⟩, by simp [hx]⟩

/-- A row of free blocks with no two neighbours free is a single block. -/
theorem eq_singleton_of_apart (hne : bs ≠ []) (h : Apart bs)
    (hfree : ∀ b ∈ bs, b.free = true) : ∃ b, bs = [b] := by
  match bs, hne, h, hfree with
  | [b], _, _, _ => exact ⟨b, rfl⟩
  | b :: c :: rest, _, h, hfree =>
    exact absurd ⟨hfree b (by simp), hfree c (by simp)⟩ (List.isChain_cons_cons.1 h).1

end RadKernel.Heap
