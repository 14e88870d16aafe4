import RadKernel.Heap.Refine

/-!
# The heap over whole runs

Every live allocation holds a busy block of its own and every busy block is held, free
blocks are apart, and a pointer that is no longer live has lost its magic. One lemma per
call keeps this, so it holds after every run whose requests do not wrap around.
-/

namespace RadKernel.Heap

open Tiling List
open Represents (taken cut finish_cut)
open Block (width)

/-- The allocation of `n` bytes at `p` holds the block `b` at `a`. -/
structure Held (h : Memory) (base : Nat) (bs : List Block) (p n a : Nat) (b : Block) : Prop where
  placed : (a, b) ∈ place Block.width base bs
  busy : b.free = false
  low : a + 80 ≤ p
  high : p + n ≤ a + 64 + b.size
  block : h.mem (p - 16) = a
  magic : h.mem (p - 8) = allocationMagic

/-- The allocations `live` are those of the row `bs`; `returned` are all pointers handed
out so far. -/
structure Accounts (L : Layout) (h : Memory) (bs : List Block) (returned : List Nat)
    (live : List (Nat × Nat)) : Prop where
  represents : Represents L h bs
  apart : Apart bs
  held : ∀ x ∈ live, ∃ a b, Held h L.base bs x.1 x.2 a b
  distinct : ∀ x ∈ live, ∀ y ∈ live, h.mem (x.1 - 16) = h.mem (y.1 - 16) → x = y
  nodup : (live.map Prod.fst).Nodup
  owned : ∀ a b, (a, b) ∈ place Block.width L.base bs → b.free = false →
    ∃ x ∈ live, h.mem (x.1 - 16) = a
  known : ∀ x ∈ live, x.1 ∈ returned
  pointers : ∀ p ∈ returned, 16 ∣ p ∧ 16 ≤ p ∧ p < 2 ^ 64
  dead : ∀ p ∈ returned, p ∉ live.map Prod.fst → h.mem (p - 8) % 2 ^ 32 ≠ allocationMagic

/-- A multiple of 64 is not the magic, even when read as a 32-bit half. -/
theorem ne_magic_of_dvd {v : Nat} (h : 64 ∣ v) : v % 2 ^ 32 ≠ allocationMagic := by
  simp only [allocationMagic]
  omega

namespace Accounts

variable {L : Layout} {h : Memory} {bs l r : List Block} {returned : List Nat}
  {live : List (Nat × Nat)} {a p n : Nat} {b : Block}

/-- Blocks that hold a common address past their headers are one block. -/
theorem same_block {c : Nat} {d : Block} (hb : (a, b) ∈ place Block.width L.base bs)
    (hd : (c, d) ∈ place Block.width L.base bs) (h1 : a + 80 ≤ p) (h2 : p ≤ a + 64 + b.size)
    (h3 : c + 80 ≤ p) (h4 : p ≤ c + 64 + d.size) : a = c ∧ b = d := by
  have hwb : b.width = 64 + b.size := rfl
  have hwd : d.width = 64 + d.size := rfl
  rcases place_apart Block.width hb hd with heq | hlt | hgt
  · exact heq
  · omega
  · omega

theorem take (A : Accounts L h bs returned live)
    (hbs : bs = l ++ b :: r) (hfree : b.free = true) {total user : Nat} (hfit : total ≤ b.size)
    (hlo : finish width L.base l + 80 ≤ user)
    (hhi : user + n ≤ finish width L.base l + 64 + total) (huser : 16 ∣ user)
    (htotal : 64 ∣ total) :
    Accounts L (taken h (finish width L.base l) total user)
      (l ++ cut total b ++ r) (user :: returned) ((user, n) :: live) := by
  have R := A.represents
  have hm := R.mem_split hbs
  have hbounds := R.bounds hm
  have htop := L.bounded
  have hwb : b.width = 64 + b.size := rfl
  have hmem := R.taken_mem hbs hfit hlo (by omega)
  have hframe := @Represents.taken_frame L h bs l r b total user R hbs hfit hlo (by omega)
  have hmem16 : (taken h (finish width L.base l) total user).mem (user - 16) =
      finish width L.base l := by
    rw [hmem, if_neg (by omega), if_pos rfl]
  have hmem8 : (taken h (finish width L.base l) total user).mem (user - 8) =
      allocationMagic := by
    rw [hmem, if_pos rfl]
  -- a busy block keeps its place, and it is not the block that was taken
  have hkeep : ∀ c d, (c, d) ∈ place width L.base bs → d.free = false →
      (c, d) ∈ place width L.base (l ++ cut total b ++ r) ∧ (c + d.width ≤ finish width L.base l ∨
          finish width L.base l + b.width ≤ c) := by
    intro c d hcd hdf
    rw [hbs, place_append, place_cons, mem_append, mem_cons] at hcd
    rw [place_append, place_append, finish_append, finish_cut]
    rcases hcd with hcd | hcd | hcd
    · exact ⟨by simp [hcd], .inl (mem_place_bounds width hcd).2⟩
    · simp only [Prod.mk.injEq] at hcd
      rw [hcd.2, hfree] at hdf
      simp at hdf
    · exact ⟨by simp [hcd], .inr (mem_place_bounds width hcd).1⟩
  have hold : ∀ x ∈ live, (taken h (finish width L.base l) total user).mem (x.1 - 16) =
        h.mem (x.1 - 16) ∧
      (taken h (finish width L.base l) total user).mem (x.1 - 8) =
        h.mem (x.1 - 8) ∧ x.1 ≠ user := by
    intro x hx
    obtain ⟨c, d, H⟩ := A.held x hx
    have hwd : d.width = 64 + d.size := rfl
    have h1 := H.low
    have h2 := H.high
    rcases (hkeep c d H.placed H.busy).2 with hlt | hgt
    · exact ⟨hframe (by omega), hframe (by omega), by omega⟩
    · exact ⟨hframe (by omega), hframe (by omega), by omega⟩
  refine
    { represents := R.taken_represents hbs hfit hlo (by omega) htotal
      apart := ?_
      held := ?_
      distinct := ?_
      nodup := ?_
      owned := ?_
      known := ?_
      pointers := ?_
      dead := ?_ }
  · have hapart := A.apart
    rw [hbs] at hapart
    rw [cut]
    split_ifs
    · simpa using (apart_take hapart hfree rfl b).1
    · simpa using (apart_take hapart hfree rfl ⟨b.size - total - 64, true⟩).2
  · intro x hx
    rcases List.mem_cons.1 hx with rfl | hx
    · rw [cut]
      split_ifs with hlt
      · refine ⟨finish width L.base l, ⟨b.size, false⟩, ?_, rfl, hlo, by simp; omega, hmem16, hmem8⟩
        exact (mem_place width).2 ⟨l, r, by simp, rfl⟩
      · refine ⟨finish width L.base l, ⟨total, false⟩, ?_, rfl, hlo, hhi, hmem16, hmem8⟩
        exact (mem_place width).2 ⟨l, ⟨b.size - total - 64, true⟩ :: r, by simp, rfl⟩
    · obtain ⟨c, d, H⟩ := A.held x hx
      exact ⟨c, d, (hkeep c d H.placed H.busy).1, H.busy, H.low, H.high,
        (hold x hx).1.trans H.block, (hold x hx).2.1.trans H.magic⟩
  · -- the new header points at a block that no live allocation held
    have hnew : ∀ x ∈ live, h.mem (x.1 - 16) ≠ finish width L.base l := by
      intro x hx heq
      obtain ⟨c, d, H⟩ := A.held x hx
      have hwd : d.width = 64 + d.size := rfl
      have hblock := H.block
      rcases (hkeep c d H.placed H.busy).2 with hlt | hgt <;> omega
    intro x hx y hy hxy
    rcases List.mem_cons.1 hx with rfl | hx <;> rcases List.mem_cons.1 hy with rfl | hy
    · rfl
    · rw [hmem16, (hold y hy).1] at hxy
      exact absurd hxy.symm (hnew y hy)
    · rw [hmem16, (hold x hx).1] at hxy
      exact absurd hxy (hnew x hx)
    · rw [(hold x hx).1, (hold y hy).1] at hxy
      exact A.distinct x hx y hy hxy
  · rw [map_cons, nodup_cons]
    refine ⟨?_, A.nodup⟩
    intro hin
    obtain ⟨x, hx, hxu⟩ := List.mem_map.1 hin
    exact (hold x hx).2.2 hxu
  · intro c d hcd hdf
    rw [place_append, place_append, finish_append, finish_cut, mem_append, mem_append] at hcd
    have hcases : (c, d) ∈ place width L.base bs ∨ c = finish width L.base l := by
      rw [hbs, place_append, place_cons]
      rcases hcd with (hcd | hcd) | hcd
      · exact .inl (by simp [hcd])
      · refine .inr ?_
        rw [cut] at hcd
        split_ifs at hcd
        · simp_all
        · simp only [place_cons, place_nil, mem_cons, Prod.mk.injEq, not_mem_nil, or_false] at hcd
          rcases hcd with ⟨rfl, -⟩ | ⟨-, rfl⟩
          · rfl
          · simp at hdf
      · exact .inl (by simp [hcd])
    rcases hcases with hcd | rfl
    · obtain ⟨x, hx, hxa⟩ := A.owned c d hcd hdf
      exact ⟨x, mem_cons_of_mem _ hx, (hold x hx).1.trans hxa⟩
    · exact ⟨(user, n), by simp, hmem16⟩
  · intro x hx
    rcases List.mem_cons.1 hx with rfl | hx
    · simp
    · exact mem_cons_of_mem _ (A.known x hx)
  · intro p hp
    rcases List.mem_cons.1 hp with rfl | hp
    · exact ⟨huser, by omega, by omega⟩
    · exact A.pointers p hp
  · intro p hp hdead
    rw [map_cons, mem_cons, not_or] at hdead
    have hp' : p ∈ returned := by
      rcases List.mem_cons.1 hp with rfl | hp
      · exact absurd rfl hdead.1
      · exact hp
    have hptr := A.pointers p hp'
    have hmagic := A.dead p hp' hdead.2
    rcases R.taken_words hbs hfit hlo (by omega) huser htotal (p - 8) with heq | heq | heq | heq
    · rwa [heq]
    · have := hdead.1
      omega
    · omega
    · exact ne_magic_of_dvd heq

/-- The heap in which `free` has marked the block at `a` and wiped the magic of `p`, before
it coalesces. -/
def marked (h : Memory) (p a : Nat) : Memory := (h.storeLow (p - 16 + 8) 0).setFree a 1

theorem marked_mem (H : Held h L.base bs p n a b) (w : Nat) :
    (marked h p a).mem w =
      if w = a + 16 then h.mem w / 2 ^ 32 * 2 ^ 32 + 1
      else if w = p - 8 then 0 else h.mem w := by
  have hlow := H.low
  have h8 : p - 16 + 8 = p - 8 := by omega
  have hmagic : h.mem (p - 8) / 2 ^ 32 * 2 ^ 32 = 0 := by
    rw [H.magic, allocationMagic]
    norm_num
  simp only [marked, Memory.setFree, Memory.storeLow, Memory.store, h8, Function.update_apply,
    hmagic, Nat.zero_mod, Nat.add_zero, Nat.one_mod_eq_one.2 (by norm_num : 2 ^ 32 ≠ 1)]
  rw [if_neg (by omega : a + 16 ≠ p - 8)]
  split_ifs with h1 h2
  · rw [h1]
  · rfl
  · rfl

section
variable (A : Accounts L h bs returned live)
include A

theorem marked_represents (hbs : bs = l ++ b :: r)
    (H : Held h L.base bs p n (finish width L.base l) b) :
    Represents L (marked h p (finish width L.base l)) (l ++ ⟨b.size, true⟩ :: r) := by
  have R := A.represents
  have hm := R.mem_split hbs
  have hmem := marked_mem H
  have hlow := H.low
  have hhigh := H.high
  have hwb : b.width = 64 + b.size := rfl
  have hold : finish width (finish width L.base l) [b] = finish width L.base l + b.width := rfl
  have := R.replace (marked h p (finish width L.base l)) [b]
    [⟨b.size, true⟩] (by simpa using hbs) (by simp) rfl rfl
    (fun w hw => by
      rw [hmem, if_neg (by omega), if_neg (by omega)])
    (fun c d hcd => by
      simp only [place_cons, place_nil, mem_singleton, Prod.mk.injEq] at hcd
      obtain ⟨rfl, rfl⟩ := hcd
      have hsize := R.size hm
      have hnext := R.next hm
      refine ⟨?_, ?_, ?_, R.aligned hm⟩
      · rw [Memory.size, hmem, if_neg (by omega), if_neg (by omega)]
        exact hsize
      · rw [Memory.free, hmem, if_pos rfl, Nat.mul_add_mod_self_right,
          Nat.one_mod_eq_one.2 (by norm_num)]
        rfl
      · rw [Memory.next, hmem, if_neg (by omega), if_neg (by omega)]
        exact hnext)
  simpa using this

/-- `free` of a live pointer returns and ends that allocation. -/
theorem give {x : Nat × Nat} (hx : x ∈ live) :
    ∃ h' bs', release L h x.1 = some h' ∧
      Accounts L h' bs' returned (live.filter fun y => y.1 ≠ x.1) := by
  have R := A.represents
  obtain ⟨a, b, H⟩ := A.held x hx
  obtain ⟨l, r, hbs, rfl⟩ := (mem_place Block.width).1 H.placed
  have hptr := A.pointers x.1 (A.known x hx)
  have hbounds := R.bounds H.placed
  have hlow := H.low
  have hhigh := H.high
  have haligned := R.aligned H.placed
  have hfree0 : h.free (finish Block.width L.base l) = 0 := by
    have := R.free H.placed
    rw [H.busy] at this
    simpa using this
  have RM := A.marked_represents hbs H
  have hmem := marked_mem H
  obtain ⟨h', hrun, hrep, hframe, hwords⟩ :=
    RM.coalesceFrom_spec [] (l ++ ⟨b.size, true⟩ :: r) rfl walkFuel RM.length_lt
  have hrelease : release L h x.1 = some h' := by
    rw [release, if_neg (by omega), wordSub_eq (by omega) (by omega)]
    have h8 : x.1 - 16 + 8 = x.1 - 8 := by omega
    have hmagic : h.headerMagic (x.1 - 16) = allocationMagic := by
      rw [Memory.headerMagic, h8, H.magic]
      exact Nat.mod_eq_of_lt (by decide)
    have hblock : h.headerBlock (x.1 - 16) = finish Block.width L.base l := H.block
    simp only [hmagic, hblock, ne_eq, not_true_eq_false, if_false, hfree0]
    rw [if_neg (by omega)]
    have hhead : (marked h x.1 (finish Block.width L.base l)).head = link L L.base := by
      rw [RM.head]
      have := RM.link_split (l := []) (b := (l ++ ⟨b.size, true⟩ :: r).head (by simp))
        (r := (l ++ ⟨b.size, true⟩ :: r).tail) (by simp)
      simpa using this.symm
    change coalesceFrom walkFuel (marked h x.1 (finish Block.width L.base l)).head
      (marked h x.1 (finish Block.width L.base l)) = some h'
    rw [hhead]
    simpa using hrun
  -- busy blocks other than the freed one stay, and so do the headers inside them
  have hbusy : ∀ c d, d.free = false →
      ((c, d) ∈ place Block.width L.base (merge (l ++ ⟨b.size, true⟩ :: r)) ↔
        (c, d) ∈ place Block.width L.base bs ∧ c ≠ finish Block.width L.base l) := by
    intro c d hdf
    rw [mem_place_merge hdf, hbs, place_append, place_append, place_cons, place_cons]
    simp only [mem_append, mem_cons, Prod.mk.injEq, Block.width_mk]
    constructor
    · rintro (hcd | ⟨-, rfl⟩ | hcd)
      · have := mem_place_bounds Block.width hcd
        simp only [Block.width] at this
        exact ⟨.inl hcd, by omega⟩
      · simp at hdf
      · have := mem_place_bounds Block.width hcd
        exact ⟨.inr (.inr hcd), by omega⟩
    · rintro ⟨hcd | ⟨rfl, rfl⟩ | hcd, hne⟩
      · exact .inl hcd
      · exact absurd rfl hne
      · exact .inr (.inr hcd)
  have hother : ∀ y ∈ live, y.1 ≠ x.1 → ∀ c d, Held h L.base bs y.1 y.2 c d →
      c ≠ finish Block.width L.base l ∧ h'.mem (y.1 - 16) = h.mem (y.1 - 16) ∧
        h'.mem (y.1 - 8) = h.mem (y.1 - 8) := by
    intro y hy hne c d K
    have hcne : c ≠ finish Block.width L.base l := by
      intro heq
      exact hne (congrArg Prod.fst (A.distinct y hy x hx (by rw [K.block, H.block, heq])))
    have hwd : d.width = 64 + d.size := rfl
    have hwb : b.width = 64 + b.size := rfl
    have hylow := K.low
    have hyhigh := K.high
    -- the header of `y` meets no block header
    have hclear : ∀ w, c + 64 ≤ w → w < c + 64 + d.size →
        ∀ e f, (e, f) ∈ place Block.width (finish Block.width L.base [])
          (l ++ ⟨b.size, true⟩ :: r) → w ≠ e ∧ w ≠ e + 8 := by
      intro w hw1 hw2 e f hef
      have hef' : ∃ g, (e, g) ∈ place Block.width L.base bs := by
        rw [finish_nil, place_append, place_cons] at hef
        rw [hbs, place_append, place_cons]
        simp only [mem_append, mem_cons, Prod.mk.injEq, Block.width_mk] at hef ⊢
        rcases hef with hef | ⟨rfl, -⟩ | hef
        · exact ⟨f, .inl hef⟩
        · exact ⟨b, .inr (.inl ⟨rfl, rfl⟩)⟩
        · exact ⟨f, .inr (.inr hef)⟩
      obtain ⟨g, hg⟩ := hef'
      rcases place_apart Block.width K.placed hg with ⟨rfl, -⟩ | hlt | hgt
      · omega
      · omega
      · omega
    have hapart : c + d.width ≤ finish Block.width L.base l ∨
        finish Block.width L.base l + b.width ≤ c := by
      rcases place_apart Block.width K.placed H.placed with ⟨heq, -⟩ | hlt | hgt
      · exact absurd heq hcne
      · exact .inl hlt
      · exact .inr hgt
    refine ⟨hcne, ?_, ?_⟩
    · rw [hframe _ (hclear _ (by omega) (by omega)), hmem, if_neg (by omega), if_neg (by omega)]
    · rw [hframe _ (hclear _ (by omega) (by omega)), hmem, if_neg (by omega), if_neg (by omega)]
  have hmemlive : ∀ y, y ∈ live.filter (fun y => y.1 ≠ x.1) ↔ y ∈ live ∧ y.1 ≠ x.1 := by
    intro y
    simp
  refine ⟨h', _, hrelease,
    { represents := hrep
      apart := apart_merge _
      held := ?_
      distinct := ?_
      nodup := A.nodup.sublist (List.filter_sublist.map _)
      owned := ?_
      known := fun y hy => A.known y ((hmemlive y).1 hy).1
      pointers := A.pointers
      dead := ?_ }⟩
  · intro y hy
    obtain ⟨hy, hne⟩ := (hmemlive y).1 hy
    obtain ⟨c, d, K⟩ := A.held y hy
    obtain ⟨hcne, h16, h8⟩ := hother y hy hne c d K
    exact ⟨c, d, (hbusy c d K.busy).2 ⟨K.placed, hcne⟩, K.busy, K.low, K.high,
      h16.trans K.block, h8.trans K.magic⟩
  · intro y hy z hz hyz
    obtain ⟨hy, hyne⟩ := (hmemlive y).1 hy
    obtain ⟨hz, hzne⟩ := (hmemlive z).1 hz
    obtain ⟨c, d, K⟩ := A.held y hy
    obtain ⟨e, f, M⟩ := A.held z hz
    rw [(hother y hy hyne c d K).2.1, (hother z hz hzne e f M).2.1] at hyz
    exact A.distinct y hy z hz hyz
  · intro c d hcd hdf
    obtain ⟨hcd, hcne⟩ := (hbusy c d hdf).1 hcd
    obtain ⟨y, hy, hya⟩ := A.owned c d hcd hdf
    have hne : y.1 ≠ x.1 := by
      intro heq
      rw [heq, H.block] at hya
      exact hcne hya.symm
    obtain ⟨e, f, K⟩ := A.held y hy
    exact ⟨y, (hmemlive y).2 ⟨hy, hne⟩, (hother y hy hne e f K).2.1.trans hya⟩
  · intro q hq hdead
    have hqptr := A.pointers q hq
    rcases hwords (q - 8) with heq | heq | heq
    · rw [heq, hmem, if_neg (by omega)]
      split_ifs with hqx
      · simp [allocationMagic]
      · refine A.dead q hq fun hin => hdead ?_
        obtain ⟨y, hy, rfl⟩ := List.mem_map.1 hin
        exact List.mem_map.2 ⟨y, (hmemlive y).2 ⟨hy, by omega⟩, rfl⟩
    · omega
    · exact ne_magic_of_dvd heq

/-- `free` of a pointer that is not live changes nothing. -/
theorem give_dead (hp : p ∈ returned) (hdead : p ∉ live.map Prod.fst) : release L h p = some h := by
  have hptr := A.pointers p hp
  have hmagic := A.dead p hp hdead
  have h8 : p - 16 + 8 = p - 8 := by omega
  rw [release, if_neg (by omega), wordSub_eq (by omega) (by omega)]
  simp only [Memory.headerMagic, h8]
  rw [if_pos hmagic]

end

/-- `allocate_aligned` returns: null with no effect beyond initialising the heap, or a
pointer to a new allocation. -/
theorem allocate {h₀ : Memory} (A : Accounts L (heapInit L h₀) bs returned live)
    {size alignment : Nat}
    (hno : Rejected alignment ∨ max 1 size + max 16 alignment + 78 < 2 ^ 64) :
    (∃ h', allocateAligned L h₀ size alignment = some (0, h') ∧ (h' = h₀ ∨ h' = heapInit L h₀)) ∨
      ∃ p h' bs', p ≠ 0 ∧ allocateAligned L h₀ size alignment = some (p, h') ∧
        Accounts L h' bs' (p :: returned) ((p, size) :: live) := by
  have R := A.represents
  generalize hn : (if size = 0 then 1 else size) = n
  generalize hg : (if alignment < 16 then 16 else alignment) = g
  have hn' : 1 ≤ n ∧ size ≤ n ∧ n ≤ max 1 size := by subst hn; split_ifs <;> omega
  have hg' : 16 ≤ g ∧ g = max 16 alignment := by subst hg; split_ifs <;> omega
  rw [allocateAligned]
  simp only [hn, hg]
  by_cases hbad : g &&& (g - 1) ≠ 0 ∨ 4096 < g
  · rw [if_pos hbad]
    exact .inl ⟨h₀, rfl, .inl rfl⟩
  have hno := hno.resolve_left (by rwa [Rejected, ← hg'.2])
  rw [if_neg hbad]
  rw [not_or, not_not, Nat.not_lt] at hbad
  obtain ⟨k, rfl⟩ := (Nat.and_sub_one_eq_zero_iff_isPowerOfTwo (by omega)).1 hbad.1
  have hk : k ≤ 12 := (Nat.pow_le_pow_iff_right (by omega : 1 < 2)).1 (by simpa using hbad.2)
  have hk4 : 4 ≤ k := (Nat.pow_le_pow_iff_right (by omega : 1 < 2)).1 (by simpa using hg'.1)
  have htotal := requestTotal_spec n hg'.1 (by omega)
  generalize requestTotal n (2 ^ k) = total at htotal ⊢
  have hhead : (heapInit L h₀).head = link L L.base := by
    have hne := R.nonempty
    have := R.link_split (l := []) (b := bs.head hne) (r := bs.tail) (by simp)
    rw [R.head]
    simpa using this.symm
  have hfind := R.findFit_spec total [] bs rfl walkFuel R.length_lt
  rw [finish_nil, ← hhead] at hfind
  rcases hfind with hnone | ⟨l, b, r, hbs, hfree, hfit, hsome⟩
  · rw [hnone]
    exact .inl ⟨_, rfl, .inr rfl⟩
  · rw [hsome, nil_append]
    have hbounds := R.bounds (R.mem_split hbs)
    have htop := L.bounded
    have huser := alignUp_spec (v := finish width L.base l + 80) (k := k) (by omega) (by omega)
    have hw : word (finish width L.base l + 64 + 16) = finish width L.base l + 80 :=
      word_eq (by omega)
    have h16 : 16 ∣ alignUp (finish width L.base l + 80) (2 ^ k) :=
      (pow_dvd_pow 2 hk4 : 2 ^ 4 ∣ 2 ^ k).trans huser.1
    refine .inr ⟨alignUp (finish width L.base l + 80) (2 ^ k), _, _, by omega, ?_,
      A.take hbs hfree hfit (by omega) (by omega) h16 htotal.1⟩
    simp only [hw]
    rfl

end Accounts

/-! ## Sessions -/

variable {h : Memory}

theorem heapInit_of_head {L : Layout} (hh : h.head ≠ 0) : heapInit L h = h :=
  if_pos hh

/-- The empty heap is one free block. -/
theorem heapInit_represents (L : Layout) (hh : h.head = 0) :
    Represents L (heapInit L h) [⟨L.bytes - 64, true⟩] := by
  have hfits := L.header_fits
  have hplace : ∀ a b, (a, b) ∈ place Block.width L.base [⟨L.bytes - 64, true⟩] →
      a = L.base ∧ b = ⟨L.bytes - 64, true⟩ := by
    intro a b hab
    simpa using hab
  have hmem : ∀ w, (heapInit L h).mem w =
      if w = L.base + 16 then h.mem w / 2 ^ 32 * 2 ^ 32 + 1
      else if w = L.base + 8 then 0
      else if w = L.base then L.bytes - 64 else h.mem w := by
    intro w
    rw [heapInit, if_neg (by simp [hh])]
    simp only [Memory.setFree, Memory.storeLow, Memory.setNext, Memory.setSize, Memory.store,
      Function.update_apply, Nat.one_mod_eq_one.2 (by norm_num : 2 ^ 32 ≠ 1)]
    rw [if_neg (by omega : L.base + 16 ≠ L.base + 8), if_neg (by omega : L.base + 16 ≠ L.base)]
    split_ifs with h1
    · rw [h1]
    · rfl
    · rfl
    · rfl
  refine
    { head := ?_
      nonempty := by simp
      stop := ?_
      size := fun hm => ?_
      free := fun hm => ?_
      next := fun hm => ?_
      aligned := fun hm => ?_ }
  · rw [heapInit, if_neg (by simp [hh])]
    rfl
  · rw [finish_cons, finish_nil, Block.width_mk]
    omega
  · obtain ⟨rfl, rfl⟩ := hplace _ _ hm
    rw [Memory.size, hmem, if_neg (by omega), if_neg (by omega), if_pos rfl]
  · obtain ⟨rfl, rfl⟩ := hplace _ _ hm
    rw [Memory.free, hmem, if_pos rfl, Nat.mul_add_mod_self_right,
      Nat.one_mod_eq_one.2 (by norm_num)]
    rfl
  · obtain ⟨rfl, rfl⟩ := hplace _ _ hm
    rw [Memory.next, hmem, if_neg (by omega), if_pos rfl, Block.width_mk, link, if_pos (by omega)]
  · obtain ⟨rfl, rfl⟩ := hplace _ _ hm
    exact L.base_aligned

/-- The invariant of a session: its accounts are in order once the heap is initialised,
and nothing was handed out before that. -/
def Session.Inv (L : Layout) (s : Session) : Prop :=
  (∃ bs, Accounts L (heapInit L s.heap) bs s.returned s.live) ∧
    (s.heap.head = 0 → s.returned = [])

theorem Session.boot_inv (L : Layout) : Session.boot.Inv L := by
  refine ⟨⟨[⟨L.bytes - 64, true⟩], ?_⟩, fun _ => rfl⟩
  exact
    { represents := heapInit_represents L rfl
      apart := .singleton _
      held := by simp [Session.boot]
      distinct := by simp [Session.boot]
      nodup := by simp [Session.boot]
      owned := by
        intro a b hab hb
        simp only [place_cons, place_nil, mem_singleton, Prod.mk.injEq] at hab
        rw [hab.2] at hb
        simp at hb
      known := by simp [Session.boot]
      pointers := by simp [Session.boot]
      dead := by simp [Session.boot] }

namespace Session

variable {L : Layout} {s : Session}

theorem Inv.allocateAligned (hs : s.Inv L) (size alignment : Nat)
    (hno : Rejected alignment ∨ max 1 size + max 16 alignment + 78 < 2 ^ 64) :
    ∃ t, (Heap.allocateAligned L s.heap size alignment).map (s.handOut size) = some t ∧
      t.Inv L := by
  obtain ⟨⟨bs, A⟩, hfresh⟩ := hs
  have hbase := L.base_pos
  rcases A.allocate hno with ⟨h', hrun, hh'⟩ | ⟨p, h', bs', hp, hrun, A'⟩
  · refine ⟨{ s with heap := h' }, by simp [hrun, handOut], ?_⟩
    rcases hh' with rfl | rfl
    · exact ⟨⟨bs, A⟩, hfresh⟩
    · have hhead := A.represents.head
      refine ⟨⟨bs, ?_⟩, fun h0 => ?_⟩
      · rw [heapInit_of_head (h := heapInit L s.heap) (by omega)]
        exact A
      · rw [hhead] at h0
        omega
  · refine ⟨⟨h', p :: s.returned, (p, size) :: s.live⟩, by simp [hrun, handOut, hp], ?_⟩
    have hhead := A'.represents.head
    refine ⟨⟨bs', ?_⟩, fun h0 => ?_⟩
    · rw [heapInit_of_head (h := h') (by omega)]
      exact A'
    · rw [hhead] at h0
      omega

theorem Inv.release (hs : s.Inv L) {p : Nat} (hp : p = 0 ∨ p ∈ s.returned) :
    ∃ h', Heap.release L s.heap p = some h' ∧
      Inv L { s with heap := h', live := s.live.filter fun a => a.1 ≠ p } := by
  obtain ⟨⟨bs, A⟩, hfresh⟩ := hs
  have hkeep : p ∉ s.live.map Prod.fst → s.live.filter (fun a => a.1 ≠ p) = s.live := by
    intro hdead
    rw [filter_eq_self]
    intro a ha
    simp only [ne_eq, decide_eq_true_eq]
    rintro rfl
    exact hdead (mem_map_of_mem ha)
  rcases hp with rfl | hp
  · have hdead : (0 : Nat) ∉ s.live.map Prod.fst := by
      intro hin
      obtain ⟨x, hx, h0⟩ := List.mem_map.1 hin
      have := A.pointers x.1 (A.known x hx)
      omega
    refine ⟨s.heap, by simp [Heap.release], ?_⟩
    rw [hkeep hdead]
    exact ⟨⟨bs, A⟩, hfresh⟩
  · have hhead : s.heap.head ≠ 0 := by
      intro h0
      simp [hfresh h0] at hp
    rw [heapInit_of_head hhead] at A
    by_cases hlive : p ∈ s.live.map Prod.fst
    · obtain ⟨x, hx, rfl⟩ := List.mem_map.1 hlive
      obtain ⟨h', bs', hrun, A'⟩ := A.give hx
      have hhead' := A'.represents.head
      have hbase := L.base_pos
      refine ⟨h', hrun, ⟨bs', ?_⟩, fun h0 => ?_⟩
      · rw [heapInit_of_head (by simp only; omega)]
        exact A'
      · simp only at h0
        omega
    · refine ⟨s.heap, A.give_dead hp hlive, ?_⟩
      rw [hkeep hlive]
      refine ⟨⟨bs, ?_⟩, hfresh⟩
      rw [heapInit_of_head hhead]
      exact A

/-- One call keeps the invariant, and it returns. -/
theorem Inv.step (hs : s.Inv L) {c : Call} (hp : Permitted s c) (hno : NoWrap c) :
    ∃ t, s.step L c = some t ∧ t.Inv L := by
  cases c with
  | allocateAligned size alignment => exact hs.allocateAligned _ _ hno
  | malloc size =>
    refine hs.allocateAligned _ 16 (.inr ?_)
    simp only [NoWrap] at hno
    omega
  | free p =>
    obtain ⟨h', hrun, hinv⟩ := hs.release hp
    exact ⟨_, by simp only [Session.step, hrun, Option.map_some], hinv⟩

/-- Every run without wrapping requests keeps the invariant. -/
theorem inv_of_run {calls : List Call} (hrun : Run L NoWrap calls s) : s.Inv L := by
  induction hrun with
  | boot => exact boot_inv L
  | call _ hp hno hstep ih =>
    obtain ⟨t, ht, hinv⟩ := ih.step hp hno
    rw [hstep, Option.some.injEq] at ht
    rwa [ht]

end Session

end RadKernel.Heap
