import RadKernel.Heap.Invariant

/-!
# What a caller may rely on

`Sound` says it of the block list as the code walks it: the blocks tile the heap, free
blocks are apart, live allocations lie in busy blocks of their own, and freeing them all
leaves the one initial block. It holds as long as no request wraps around `size_t`; the
request below shows what one that does makes of the list.
-/

namespace RadKernel.Heap

open Tiling

/-- Each block starts where the one before it ends, and the last one ends at `stop`. -/
def TilesFrom (stop : Nat) : Nat → List (Nat × Nat × Bool) → Prop
  | a, [] => a = stop
  | a, (b, size, _) :: rest => b = a ∧ TilesFrom stop (a + 64 + size) rest

instance decidableTilesFrom (stop : Nat) :
    (a : Nat) → (blocks : List (Nat × Nat × Bool)) → Decidable (TilesFrom stop a blocks)
  | a, [] => inferInstanceAs (Decidable (a = stop))
  | a, (b, size, _) :: rest =>
    have := decidableTilesFrom stop (a + 64 + size) rest
    inferInstanceAs (Decidable (b = a ∧ TilesFrom stop (a + 64 + size) rest))

/-- The allocation and its header lie in the payload of the block. -/
def Lies (x : Nat × Nat) (block : Nat × Nat × Bool) : Prop :=
  block.1 + 80 ≤ x.1 ∧ x.1 + x.2 ≤ block.1 + 64 + block.2.1

/-- `free` for one pointer after the other. -/
def releaseAll (L : Layout) (h : Memory) : List Nat → Option Memory
  | [] => some h
  | p :: ps => (release L h p).bind fun h => releaseAll L h ps

structure Sound (L : Layout) (s : Session) : Prop where
  tiles : TilesFrom (L.base + L.bytes) L.base (blockList (heapInit L s.heap))
  apart : (blockList (heapInit L s.heap)).IsChain fun b c => ¬ (b.2.2 = true ∧ c.2.2 = true)
  live : ∀ x ∈ s.live, ∃ b ∈ blockList (heapInit L s.heap), b.2.2 = false ∧ Lies x b
  distinct : ∀ x ∈ s.live, ∀ y ∈ s.live, ∀ b ∈ blockList (heapInit L s.heap),
    Lies x b → Lies y b → x = y
  emptied : ∀ order : List Nat, order.Perm (s.live.map Prod.fst) →
    ∃ h, releaseAll L s.heap order = some h ∧
      blockList (heapInit L h) = [(L.base, L.bytes - 64, true)]

theorem tilesFrom_place (stop a : Nat) (bs : List Block) (h : finish Block.width a bs = stop) :
    TilesFrom stop a ((place Block.width a bs).map fun p => (p.1, p.2.size, p.2.free)) := by
  induction bs generalizing a with
  | nil => exact h
  | cons b bs ih =>
    refine ⟨rfl, ?_⟩
    have hwidth : a + b.width = a + 64 + b.size := by simp only [Block.width]; omega
    have := ih (a + b.width) h
    rw [hwidth] at this ⊢
    exact this

theorem isChain_place {a : Nat} {bs : List Block} (h : Apart bs) :
    ((place Block.width a bs).map fun p => (p.1, p.2.size, p.2.free)).IsChain
      fun b c => ¬ (b.2.2 = true ∧ c.2.2 = true) := by
  induction bs generalizing a with
  | nil => exact .nil
  | cons b bs ih =>
    cases bs with
    | nil => exact .singleton _
    | cons c bs =>
      obtain ⟨hbc, hrest⟩ := List.isChain_cons_cons.1 h
      exact List.isChain_cons_cons.2 ⟨hbc, ih hrest⟩

namespace Session

variable {L : Layout} {s : Session}

/-- With nothing live the heap is the initial block. -/
theorem Inv.blockList_of_empty (hs : s.Inv L) (hlive : s.live = []) :
    blockList (heapInit L s.heap) = [(L.base, L.bytes - 64, true)] := by
  obtain ⟨⟨bs, A⟩, -⟩ := hs
  have R := A.represents
  have hfree : ∀ b ∈ bs, b.free = true := by
    intro b hb
    obtain ⟨l, r, hbs⟩ := List.append_of_mem hb
    by_contra hbusy
    obtain ⟨x, hx, -⟩ := A.owned _ b (R.mem_split hbs) (by simpa using hbusy)
    simp [hlive] at hx
  obtain ⟨b, rfl⟩ := eq_singleton_of_apart R.nonempty A.apart hfree
  have hstop := R.stop
  have hsize : b.size = L.bytes - 64 := by
    simp only [finish_cons, finish_nil, Block.width] at hstop
    omega
  rw [R.blockList_eq]
  simp [hsize, hfree b (by simp)]

/-- Freeing the live allocations in any order empties the heap. -/
theorem Inv.releaseAll (hs : s.Inv L) (order : List Nat)
    (horder : order.Perm (s.live.map Prod.fst)) :
    ∃ h, Heap.releaseAll L s.heap order = some h ∧
      blockList (heapInit L h) = [(L.base, L.bytes - 64, true)] := by
  induction order generalizing s with
  | nil =>
    have hlive : s.live = [] := by simpa using horder.symm.eq_nil
    exact ⟨s.heap, rfl, hs.blockList_of_empty hlive⟩
  | cons p order ih =>
    obtain ⟨bs, A⟩ := hs.1
    have hp : p ∈ s.live.map Prod.fst := horder.mem_iff.1 (by simp)
    obtain ⟨x, hx, rfl⟩ := List.mem_map.1 hp
    obtain ⟨h', hrun, hinv⟩ := hs.release (.inr (A.known x hx))
    have hrest : order.Perm ((s.live.filter fun a => a.1 ≠ x.1).map Prod.fst) := by
      have hfilter : (s.live.filter fun a => a.1 ≠ x.1).map Prod.fst =
          (s.live.map Prod.fst).erase x.1 := by
        rw [A.nodup.erase_eq_filter, List.filter_map]
        congr 1
        apply List.filter_congr
        intro y _
        simp [bne, BEq.beq]
      rw [hfilter]
      exact (List.cons_perm_iff_perm_erase.1 horder).2
    obtain ⟨h, hall, hblocks⟩ := ih hinv hrest
    exact ⟨h, by simp only [Heap.releaseAll, hrun, Option.bind_some, hall], hblocks⟩

theorem Inv.sound (hs : s.Inv L) : Sound L s := by
  obtain ⟨⟨bs, A⟩, hfresh⟩ := hs
  have R := A.represents
  have hmem : ∀ b, b ∈ blockList (heapInit L s.heap) ↔
      ∃ a c, (a, c) ∈ place Block.width L.base bs ∧ b = (a, c.size, c.free) := by
    intro b
    rw [R.blockList_eq]
    simp [eq_comm]
  refine
    { tiles := ?_
      apart := ?_
      live := ?_
      distinct := ?_
      emptied := fun order horder => Inv.releaseAll ⟨⟨bs, A⟩, hfresh⟩ order horder }
  · rw [R.blockList_eq]
    exact tilesFrom_place _ _ _ R.stop
  · rw [R.blockList_eq]
    exact isChain_place A.apart
  · intro x hx
    obtain ⟨a, b, H⟩ := A.held x hx
    exact ⟨_, (hmem _).2 ⟨a, b, H.placed, rfl⟩, H.busy, H.low, H.high⟩
  · intro x hx y hy b hb hxb hyb
    obtain ⟨a, c, hac, rfl⟩ := (hmem b).1 hb
    obtain ⟨d, e, H⟩ := A.held x hx
    obtain ⟨f, g, K⟩ := A.held y hy
    simp only [Lies] at hxb hyb
    have hHigh := H.high
    have hKHigh := K.high
    have h1 := Accounts.same_block hac H.placed hxb.1 (by omega) H.low (by omega)
    have h2 := Accounts.same_block hac K.placed hyb.1 (by omega) K.low (by omega)
    exact A.distinct x hx y hy (by rw [H.block, K.block, ← h1.1, ← h2.1])

end Session

/-- The heap of the default build, at a page boundary. -/
def defaultLayout : Layout where
  base := 0x200000
  bytes := 64 * 1024 * 1024
  base_aligned := by omega
  base_pos := by omega
  header_fits := by omega
  bounded := by omega

end RadKernel.Heap
