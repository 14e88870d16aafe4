import RadKernel.Heap.Model
import RadKernel.Heap.Blocks
import Mathlib.Tactic.Ring
import Mathlib.Data.Nat.Bits

/-!
# The memory of the heap represents a row of blocks

`Represents L h bs` says that the headers found in memory are those of the row `bs`.
Searching, splitting and coalescing are computed on the row, and everything else in
memory is framed.
-/

namespace RadKernel.Heap

open Tiling
open Block (width)
open Memory (setFree storeLow setNext setSize setHeader)

/-! ## Rounding -/

variable {v k : Nat}

/-- Masking the low `k` bits off rounds down to a multiple of `2 ^ k`. -/
theorem and_mask (hv : v < 2 ^ 64) (hk : k ≤ 64) : v &&& (2 ^ 64 - 2 ^ k) = v / 2 ^ k * 2 ^ k := by
  have hmask : 2 ^ 64 - 2 ^ k = 2 ^ k * (2 ^ (64 - k) - 1) := by
    rw [Nat.mul_sub, ← Nat.pow_add]
    simp [Nat.add_sub_cancel' hk]
  apply Nat.eq_of_testBit_eq
  intro i
  rw [hmask, Nat.testBit_and, Nat.testBit_two_pow_mul, Nat.testBit_two_pow_sub_one,
    Nat.mul_comm, Nat.testBit_two_pow_mul, Nat.testBit_div_two_pow]
  by_cases hi : k ≤ i
  · have hki : k + (i - k) = i := by omega
    by_cases h64 : i < 64
    · have : i - k < 64 - k := by omega
      simp [hi, this, Nat.add_comm (i - k) k, hki]
    · have hz : v.testBit i = false :=
        Nat.testBit_lt_two_pow (lt_of_lt_of_le hv (Nat.pow_le_pow_right (by omega) (by omega)))
      simp [hz, Nat.add_comm (i - k) k, hki]
  · simp [hi]

/-- What `alignUp` gives as long as nothing wraps. -/
theorem alignUp_spec (hk : k ≤ 64) (h : v + 2 ^ k ≤ 2 ^ 64) :
    2 ^ k ∣ alignUp v (2 ^ k) ∧ v ≤ alignUp v (2 ^ k) ∧ alignUp v (2 ^ k) < v + 2 ^ k := by
  have hpos : 0 < 2 ^ k := Nat.two_pow_pos k
  have hlt : v + 2 ^ k - 1 < 2 ^ 64 := by omega
  have heq : alignUp v (2 ^ k) = (v + 2 ^ k - 1) / 2 ^ k * 2 ^ k := by
    rw [alignUp, word, Nat.mod_eq_of_lt hlt, and_mask hlt hk]
  rw [heq]
  have hdm := Nat.div_add_mod' (v + 2 ^ k - 1) (2 ^ k)
  have hmod := Nat.mod_lt (v + 2 ^ k - 1) hpos
  exact ⟨Nat.dvd_mul_left _ _, by omega, by omega⟩

theorem word_eq {n : Nat} (h : n < 2 ^ 64) : word n = n := Nat.mod_eq_of_lt h

theorem wordSub_eq {a b : Nat} (hb : b ≤ a) (ha : a < 2 ^ 64) : wordSub a b = a - b := by
  have hb' : b < 2 ^ 64 := by omega
  rw [wordSub, word_eq hb', word]
  have : a + (2 ^ 64 - b) = (a - b) + 2 ^ 64 := by omega
  rw [this, Nat.add_mod_right, Nat.mod_eq_of_lt (by omega)]

/-- A request whose overhead does not wrap: the total is a multiple of 64 with room for
the header, the alignment and the bytes asked for. -/
theorem requestTotal_spec (size : Nat) {alignment : Nat} (ha : 16 ≤ alignment)
    (h : size + alignment + 78 < 2 ^ 64) :
    64 ∣ requestTotal size alignment ∧ size + alignment + 15 ≤ requestTotal size alignment ∧
      requestTotal size alignment < size + alignment + 79 := by
  have h1 : word (word (size + alignment - 1) + 16) = size + alignment + 15 := by
    rw [word_eq (n := size + alignment - 1) (by omega), word_eq (by omega)]
    omega
  rw [requestTotal, h1]
  have := alignUp_spec (v := size + alignment + 15) (k := 6) (by omega) (by norm_num; omega)
  omega

/-! ## Memory and rows of blocks -/

theorem Layout.base_ge (L : Layout) : 64 ≤ L.base := Nat.le_of_dvd L.base_pos L.base_aligned

/-- The `next` pointer of a block that ends at `a`. -/
def link (L : Layout) (a : Nat) : Nat := if a = L.base + L.bytes then 0 else a

structure Represents (L : Layout) (h : Memory) (bs : List Block) : Prop where
  head : h.head = L.base
  nonempty : bs ≠ []
  stop : finish Block.width L.base bs = L.base + L.bytes
  size : ∀ {a b}, (a, b) ∈ place Block.width L.base bs → h.size a = b.size
  free : ∀ {a b}, (a, b) ∈ place Block.width L.base bs → (h.free a != 0) = b.free
  next : ∀ {a b}, (a, b) ∈ place Block.width L.base bs → h.next a = link L (a + b.width)
  aligned : ∀ {a b}, (a, b) ∈ place Block.width L.base bs → 64 ∣ a

namespace Represents

variable {L : Layout} {h : Memory} {bs l r : List Block} {a : Nat} {b c : Block}

theorem bounds (R : Represents L h bs) (hm : (a, b) ∈ place width L.base bs) :
    L.base ≤ a ∧ a + 64 + b.size ≤ L.base + L.bytes := by
  have := mem_place_bounds width hm
  rw [R.stop] at this
  simp only [width] at this
  omega

theorem length_lt (R : Represents L h bs) : bs.length < walkFuel := by
  have h1 := length_le_finish width (fun b => by simp [width]) L.base bs
  have h2 := L.bounded
  rw [R.stop] at h1
  simp only [walkFuel]
  omega

theorem mem_split (_ : Represents L h bs) (hbs : bs = l ++ b :: r) :
    (finish width L.base l, b) ∈ place width L.base bs :=
  (mem_place width).2 ⟨l, r, hbs, rfl⟩

section
variable (R : Represents L h bs)
include R

section
variable (hbs : bs = l ++ b :: r)
include hbs

theorem link_split : link L (finish width L.base l) = finish width L.base l := by
  have := R.bounds (R.mem_split hbs)
  rw [link, if_neg (by omega)]

theorem split_ne_zero : finish width L.base l ≠ 0 := by
  have := R.bounds (R.mem_split hbs)
  have := L.base_pos
  omega

theorem next_split : h.next (finish width L.base l) = link L (finish width L.base (l ++ [b])) := by
  rw [R.next (R.mem_split hbs), finish_append]
  rfl

end

theorem link_end : link L (finish width L.base bs) = 0 := by
  rw [R.stop, link, if_pos rfl]

/-- Reading the list from a block on gives the rest of the row. -/
theorem blocksFrom_eq (l r : List Block) (hbs : bs = l ++ r) (fuel : Nat) (hf : r.length < fuel) :
    blocksFrom fuel (link L (finish Block.width L.base l)) h =
      (place Block.width (finish Block.width L.base l) r).map
        fun p => (p.1, p.2.size, p.2.free) := by
  induction r generalizing l fuel with
  | nil =>
    obtain ⟨fuel, rfl⟩ : ∃ n, fuel = n + 1 := ⟨fuel - 1, by simp at hf; omega⟩
    rw [List.append_nil] at hbs
    subst hbs
    rw [R.link_end]
    simp [blocksFrom]
  | cons b r ih =>
    obtain ⟨fuel, rfl⟩ : ∃ n, fuel = n + 1 := ⟨fuel - 1, by simp at hf; omega⟩
    have hrest := ih (l ++ [b]) (by simpa using hbs) fuel (by simpa using hf)
    have hm := R.mem_split hbs
    rw [R.link_split hbs, blocksFrom, if_neg (R.split_ne_zero hbs), R.next_split hbs, hrest,
      finish_append, R.size hm, R.free hm]
    simp

theorem blockList_eq :
    blockList h = (place width L.base bs).map fun p => (p.1, p.2.size, p.2.free) := by
  have := R.blocksFrom_eq [] bs rfl walkFuel R.length_lt
  rw [finish_nil] at this
  rw [blockList, R.head, ← this]
  cases bs with
  | nil => exact absurd rfl R.nonempty
  | cons b r =>
    have := R.link_split (l := []) rfl
    rw [finish_nil] at this
    rw [this]

/-! ## The search loop -/

/-- The search stops at a free block of at least `total` bytes, or at the end. -/
theorem findFit_spec (total : Nat) (l r : List Block) (hbs : bs = l ++ r)
    (fuel : Nat) (hf : r.length < fuel) :
    findFit fuel (link L (finish Block.width L.base l)) h total = some none ∨
      ∃ m b r', r = m ++ b :: r' ∧ b.free = true ∧ total ≤ b.size ∧
        findFit fuel (link L (finish Block.width L.base l)) h total =
          some (some (finish Block.width L.base (l ++ m))) := by
  induction r generalizing l fuel with
  | nil =>
    obtain ⟨fuel, rfl⟩ : ∃ n, fuel = n + 1 := ⟨fuel - 1, by simp at hf; omega⟩
    rw [List.append_nil] at hbs
    subst hbs
    rw [R.link_end]
    exact .inl (by simp [findFit])
  | cons b r ih =>
    obtain ⟨fuel, rfl⟩ : ∃ n, fuel = n + 1 := ⟨fuel - 1, by simp at hf; omega⟩
    have hm := R.mem_split hbs
    have hfree := R.free hm
    rw [R.link_split hbs, findFit, if_neg (R.split_ne_zero hbs), R.size hm]
    by_cases hfit : h.free (finish Block.width L.base l) = 0 ∨ b.size < total
    · rw [if_pos hfit, R.next_split hbs]
      rcases ih (l ++ [b]) (by simpa using hbs) fuel (by simpa using hf) with
        hnone | ⟨m, c, r', rfl, hc, hsize, hfound⟩
      · exact .inl hnone
      · exact .inr ⟨b :: m, c, r', rfl, hc, hsize, by simpa using hfound⟩
    · rw [if_neg hfit]
      rw [not_or, Nat.not_lt] at hfit
      have hb : b.free = true := by rw [← hfree]; simpa using hfit.1
      exact .inr ⟨[], b, r, rfl, hb, hfit.2, by simp⟩

/-- Exchange the blocks in the middle of the row for others of the same total width, with
their headers in place and nothing else changed. -/
theorem replace (h' : Memory) {l r : List Block} (old mid : List Block)
    (hbs : bs = l ++ old ++ r) (hne : mid ≠ []) (hhead : h'.head = h.head)
    (hwidth : finish width (finish width L.base l) mid =
      finish width (finish width L.base l) old)
    (hframe : ∀ w, w < finish width L.base l ∨
      finish width (finish width L.base l) old ≤ w → h'.mem w = h.mem w)
    (hmid : ∀ a b, (a, b) ∈ place width (finish width L.base l) mid →
      h'.size a = b.size ∧ (h'.free a != 0) = b.free ∧ h'.next a = link L (a + b.width) ∧ 64 ∣ a) :
    Represents L h' (l ++ mid ++ r) := by
  -- a block outside the exchanged part was there before, with its header untouched
  have houter : ∀ a b, (a, b) ∈ place width L.base l ∨
      (a, b) ∈ place width (finish width (finish width L.base l) old) r →
      (a, b) ∈ place width L.base bs ∧ h'.mem a = h.mem a ∧
        h'.mem (a + 8) = h.mem (a + 8) ∧ h'.mem (a + 16) = h.mem (a + 16) := by
    intro a b hab
    have hw : b.width = 64 + b.size := rfl
    refine ⟨?_, ?_⟩
    · rw [hbs, place_append, place_append, finish_append]
      rcases hab with hab | hab <;> simp [hab]
    · rcases hab with hab | hab
      · have := mem_place_bounds width hab
        exact ⟨hframe _ (by omega), hframe _ (by omega), hframe _ (by omega)⟩
      · have := mem_place_bounds width hab
        exact ⟨hframe _ (by omega), hframe _ (by omega), hframe _ (by omega)⟩
  have hcases : ∀ a b, (a, b) ∈ place width L.base (l ++ mid ++ r) →
      h'.size a = b.size ∧ (h'.free a != 0) = b.free ∧ h'.next a = link L (a + b.width) ∧
        64 ∣ a := by
    intro a b hab
    rw [place_append, place_append, finish_append, hwidth, List.mem_append, List.mem_append] at hab
    rcases hab with (hab | hab) | hab
    · obtain ⟨hm, h0, h8, h16⟩ := houter a b (.inl hab)
      have hfree := R.free hm
      rw [Memory.free, ← h16] at hfree
      exact ⟨h0.trans (R.size hm), hfree, h8.trans (R.next hm), R.aligned hm⟩
    · exact hmid a b hab
    · obtain ⟨hm, h0, h8, h16⟩ := houter a b (.inr hab)
      have hfree := R.free hm
      rw [Memory.free, ← h16] at hfree
      exact ⟨h0.trans (R.size hm), hfree, h8.trans (R.next hm), R.aligned hm⟩
  exact
    { head := hhead.trans R.head
      nonempty := by simp [hne]
      stop := by rw [finish_append, finish_append, hwidth, ← R.stop, hbs, finish_append,
        finish_append]
      size := fun hm => (hcases _ _ hm).1
      free := fun hm => (hcases _ _ hm).2.1
      next := fun hm => (hcases _ _ hm).2.2.1
      aligned := fun hm => (hcases _ _ hm).2.2.2 }

end

/-! ## Splitting -/

/-- What `split_block` and the free flag make of the block that was found. -/
def cut (total : Nat) (b : Block) : List Block :=
  if b.size < total + 128 then [⟨b.size, false⟩]
  else [⟨total, false⟩, ⟨b.size - total - 64, true⟩]

variable {total : Nat}

theorem finish_cut (a : Nat) : finish width a (cut total b) = a + b.width := by
  unfold cut
  split
  · simp [width]
  · simp [width]
    omega

/-- The heap after `allocate_aligned` took the block at `a` and wrote the header of the
pointer `user`. -/
def taken (h : Memory) (a total user : Nat) : Memory :=
  ((splitBlock h a total).setFree a 0).setHeader (wordSub user 16) a

theorem splitBlock_mem (R : Represents L h bs)
    (hbs : bs = l ++ b :: r) (hfit : total ≤ b.size) (w : Nat) :
    (splitBlock h (finish width L.base l) total).mem w =
      if b.size < total + 128 then h.mem w
      else
        if w = finish width L.base l + 8 then finish width L.base l + 64 + total
        else if w = finish width L.base l then total
        else if w = finish width L.base l + 64 + total + 16 then
          h.mem w / 2 ^ 32 * 2 ^ 32 + 1
        else if w = finish width L.base l + 64 + total + 8 then
          h.mem (finish width L.base l + 8)
        else if w = finish width L.base l + 64 + total then b.size - total - 64
        else h.mem w := by
  have hm := R.mem_split hbs
  have hb := R.bounds hm
  have hs := R.size hm
  have hbound := L.bounded
  have hge := L.base_ge
  have hnz := R.split_ne_zero hbs
  generalize finish width L.base l = a at *
  have hw1 : word (total + 64 + 64) = total + 128 := by rw [word_eq (by omega)]
  rw [splitBlock, hs, hw1]
  by_cases hlt : b.size < total + 128
  · simp [hlt]
  · have hw2 : word (a + 64 + total) = a + 64 + total := word_eq (by omega)
    have hw3 : wordSub (wordSub b.size total) 64 = b.size - total - 64 := by
      rw [wordSub_eq (b := total) (by omega) (by omega), wordSub_eq (by omega) (by omega)]
    rw [if_neg (by simp [hnz, hlt]), if_neg hlt, hw2, hw3]
    have h2 : a + 8 ≠ a + 64 + total := by omega
    have h3 : a + 64 + total + 16 ≠ a + 64 + total + 8 := by omega
    have h4 : a + 64 + total + 16 ≠ a + 64 + total := by omega
    simp only [setNext, setSize, setFree, storeLow, Memory.store,
      Memory.next, Function.update_apply, if_neg h3, if_neg h4, if_neg h2]
    split_ifs with _ _ hw
    · rfl
    · rfl
    · rw [hw, Nat.one_mod_eq_one.2 (by norm_num)]
    · rfl
    · rfl
    · rfl

theorem link_aligned (R : Represents L h bs)
    (hm : (a, b) ∈ place width L.base bs) : 64 ∣ link L (a + b.width) := by
  obtain ⟨l, r, hbs, rfl⟩ := (mem_place width).1 hm
  have hend : finish width L.base l + b.width = finish width L.base (l ++ [b]) := by
    rw [finish_append]
    rfl
  rw [hend]
  cases r with
  | nil => rw [← hbs, R.link_end]; exact dvd_zero _
  | cons c r =>
    have hbs' : bs = (l ++ [b]) ++ c :: r := by simpa using hbs
    rw [R.link_split hbs']
    exact R.aligned (R.mem_split hbs')

section Taken

variable {l r : List Block} {b : Block} {total user : Nat}

section
variable (R : Represents L h bs) (hbs : bs = l ++ b :: r) (hfit : total ≤ b.size)
  (hlo : finish width L.base l + 80 ≤ user)
  (hhi : user ≤ finish width L.base l + 64 + total)
include R hbs hfit hlo hhi

theorem taken_mem (w : Nat) :
    (taken h (finish width L.base l) total user).mem w =
      if w = user - 8 then allocationMagic
      else if w = user - 16 then finish width L.base l
      else if w = finish width L.base l + 16 then h.mem w / 2 ^ 32 * 2 ^ 32
      else (splitBlock h (finish width L.base l) total).mem w := by
  have hb := R.bounds (R.mem_split hbs)
  have hbound := L.bounded
  have hfree : (splitBlock h (finish width L.base l) total).mem
      (finish width L.base l + 16) = h.mem (finish width L.base l + 16) := by
    rw [R.splitBlock_mem hbs hfit]
    split_ifs <;> omega
  rw [taken, wordSub_eq (by omega) (by omega)]
  have h8 : user - 16 + 8 = user - 8 := by omega
  simp only [setHeader, setFree, storeLow, Memory.store, h8,
    Function.update_apply, hfree, Nat.zero_mod, Nat.add_zero]
  split_ifs with _ _ hw
  · rfl
  · rfl
  · rw [hw]
  · rfl

theorem taken_frame {w : Nat}
    (hw : w < finish width L.base l ∨ finish width L.base l + b.width ≤ w) :
    (taken h (finish width L.base l) total user).mem w = h.mem w := by
  have hwidth : b.width = 64 + b.size := rfl
  rw [R.taken_mem hbs hfit hlo hhi, R.splitBlock_mem hbs hfit]
  split_ifs <;> omega

/-- A word that taking a block changes is the magic of the new header, lies on a 16-byte
boundary or now holds a multiple of 64. -/
theorem taken_words (huser : 16 ∣ user) (htotal : 64 ∣ total) (w : Nat) :
    (taken h (finish width L.base l) total user).mem w = h.mem w ∨ w = user - 8 ∨
      16 ∣ w ∨ 64 ∣ (taken h (finish width L.base l) total user).mem w := by
  have hm := R.mem_split hbs
  have ha := R.aligned hm
  have hlink : 64 ∣ h.mem (finish width L.base l + 8) := by
    have := R.next hm
    rw [Memory.next] at this
    rw [this]
    exact R.link_aligned hm
  rw [R.taken_mem hbs hfit hlo hhi, R.splitBlock_mem hbs hfit]
  split_ifs <;> omega

theorem taken_represents (htotal : 64 ∣ total) :
    Represents L (taken h (finish width L.base l) total user) (l ++ cut total b ++ r) := by
  have hm := R.mem_split hbs
  have ha := R.aligned hm
  have hb := R.bounds hm
  have hwidth : b.width = 64 + b.size := rfl
  have hold : finish width (finish width L.base l) [b] = finish width L.base l + b.width := rfl
  refine R.replace _ [b] _ (by simpa using hbs) ?_ ?_ ?_ ?_ ?_
  · unfold cut
    split <;> simp
  · simp only [taken, setHeader, setFree, storeLow, Memory.store]
    unfold splitBlock
    split <;> rfl
  · rw [finish_cut, hold]
  · intro w hw
    exact R.taken_frame hbs hfit hlo hhi hw
  · intro a c hac
    have hmem := R.taken_mem hbs hfit hlo hhi
    have hsplit := R.splitBlock_mem hbs hfit
    have hnext := R.next hm
    have hsize := R.size hm
    rw [Memory.next] at hnext
    rw [Memory.size] at hsize
    have hflag : (taken h (finish width L.base l) total user).free
        (finish width L.base l) = 0 := by
      rw [Memory.free, hmem, if_neg (by omega), if_neg (by omega), if_pos rfl, Nat.mul_mod_left]
    by_cases hlt : b.size < total + 128
    · rw [cut, if_pos hlt] at hac
      simp only [place_cons, place_nil, List.mem_singleton, Prod.mk.injEq] at hac
      obtain ⟨rfl, rfl⟩ := hac
      refine ⟨?_, by rw [hflag]; rfl, ?_, ha⟩
      · rw [Memory.size, hmem, if_neg (by omega), if_neg (by omega), if_neg (by omega), hsplit,
          if_pos hlt, hsize]
      · rw [Memory.next, hmem, if_neg (by omega), if_neg (by omega), if_neg (by omega), hsplit,
          if_pos hlt, hnext]
        rfl
    · rw [cut, if_neg hlt] at hac
      simp only [place_cons, place_nil, List.mem_cons, Prod.mk.injEq, List.not_mem_nil,
        or_false, Block.width_mk] at hac
      rcases hac with ⟨rfl, rfl⟩ | ⟨rfl, rfl⟩
      · refine ⟨?_, by rw [hflag]; rfl, ?_, ha⟩
        · rw [Memory.size, hmem, if_neg (by omega), if_neg (by omega), if_neg (by omega), hsplit,
            if_neg hlt, if_neg (by omega), if_pos rfl]
        · rw [Memory.next, hmem, if_neg (by omega), if_neg (by omega), if_neg (by omega), hsplit,
            if_neg hlt, if_pos rfl, Block.width_mk, link, if_neg (by omega), Nat.add_assoc]
      · refine ⟨?_, ?_, ?_, by omega⟩
        · rw [Memory.size, hmem, if_neg (by omega), if_neg (by omega), if_neg (by omega), hsplit,
            if_neg hlt, if_neg (by omega), if_neg (by omega), if_neg (by omega),
            if_neg (by omega), if_pos (by omega)]
        · rw [Memory.free, hmem, if_neg (by omega), if_neg (by omega), if_neg (by omega), hsplit,
            if_neg hlt, if_neg (by omega), if_neg (by omega), if_pos (by omega),
            Nat.mul_add_mod_self_right, Nat.one_mod_eq_one.2 (by norm_num)]
          rfl
        · have hend : finish width L.base l + (64 + total) + (64 + (b.size - total - 64)) =
              finish width L.base l + b.width := by omega
          rw [Memory.next, hmem, if_neg (by omega), if_neg (by omega), if_neg (by omega), hsplit,
            if_neg hlt, if_neg (by omega), if_neg (by omega), if_neg (by omega),
            if_pos (by omega), Block.width_mk, hend, hnext]

end

end Taken

/-! ## Coalescing -/

/-- One joining step of `coalesce_heap`. -/
def joined (h : Memory) (a : Nat) : Memory :=
  (h.setSize a (word (h.size a + (64 + h.size (h.next a))))).setNext a
    ((h.setSize a (word (h.size a + (64 + h.size (h.next a))))).next
      ((h.setSize a (word (h.size a + (64 + h.size (h.next a))))).next a))

section
variable (R : Represents L h bs) (hbs : bs = l ++ b :: c :: r)
include R hbs

theorem joined_mem (w : Nat) :
    (joined h (finish width L.base l)).mem w =
      if w = finish width L.base l + 8 then
        link L (finish width L.base l + b.width + c.width)
      else if w = finish width L.base l then b.size + (64 + c.size)
      else h.mem w := by
  have hbs' : bs = (l ++ [b]) ++ c :: r := by simpa using hbs
  have hmb := R.mem_split hbs
  have hmc := R.mem_split hbs'
  have hnext := R.next_split hbs
  rw [R.link_split hbs'] at hnext
  have hfin : finish width L.base (l ++ [b]) = finish width L.base l + b.width := by
    rw [finish_append]
    rfl
  rw [hfin] at hmc hnext
  have hwb : b.width = 64 + b.size := rfl
  have hbound := R.bounds hmc
  have htop := L.bounded
  have hsum : word (b.size + (64 + c.size)) = b.size + (64 + c.size) := word_eq (by omega)
  have hnc := R.next hmc
  rw [Memory.next] at hnext hnc
  simp only [joined, setNext, setSize, Memory.store, Memory.next,
    Function.update_apply, hnext, R.size hmb, R.size hmc, hsum]
  rw [if_neg (by omega : finish width L.base l + 8 ≠ finish width L.base l)]
  rw [if_neg (by omega : finish width L.base l + b.width + 8 ≠ finish width L.base l), hnc]

theorem joined_represents (hb : b.free = true) :
    Represents L (joined h (finish width L.base l))
      (l ++ ⟨b.size + (64 + c.size), true⟩ :: r) := by
  have hm := R.mem_split hbs
  have hwb : b.width = 64 + b.size := rfl
  have hwc : c.width = 64 + c.size := rfl
  have hold : finish width (finish width L.base l) [b, c] =
      finish width L.base l + b.width + c.width := rfl
  have hmem := R.joined_mem hbs
  have := R.replace (joined h (finish width L.base l)) [b, c]
    [⟨b.size + (64 + c.size), true⟩] (by simpa using hbs) (by simp) rfl
    (by rw [hold, finish_cons, finish_nil, Block.width_mk]; omega)
    (fun w hw => by
      rw [hmem, if_neg (by omega), if_neg (by omega)])
    (fun a d had => by
      simp only [place_cons, place_nil, List.mem_singleton, Prod.mk.injEq] at had
      obtain ⟨rfl, rfl⟩ := had
      have hfree := R.free hm
      rw [Memory.free] at hfree
      refine ⟨?_, ?_, ?_, R.aligned hm⟩
      · rw [Memory.size, hmem, if_neg (by omega), if_pos rfl]
      · rw [Memory.free, hmem, if_neg (by omega), if_neg (by omega), hfree, hb]
      · have hjoin : finish width L.base l + b.width + c.width =
            finish width L.base l + (64 + (b.size + (64 + c.size))) := by omega
        rw [Memory.next, hmem, if_pos rfl, hjoin]
        rfl)
  simpa using this

end

/-- `coalesce_heap` from a block on: it returns, merges the rest of the row and writes only
size and next words of its blocks. -/
theorem coalesceFrom_spec (R : Represents L h bs) (l r : List Block) (hbs : bs = l ++ r)
    (fuel : Nat) (hf : r.length < fuel) :
    ∃ h', coalesceFrom fuel (link L (finish width L.base l)) h = some h' ∧
      Represents L h' (l ++ merge r) ∧
      (∀ w, (∀ a b, (a, b) ∈ place width (finish width L.base l) r →
        w ≠ a ∧ w ≠ a + 8) → h'.mem w = h.mem w) ∧
      (∀ w, h'.mem w = h.mem w ∨ 16 ∣ w ∨ 64 ∣ h'.mem w) := by
  induction fuel generalizing h bs l r with
  | zero => simp at hf
  | succ fuel ih =>
    match r, hbs, hf with
    | [], hbs, _ =>
      rw [List.append_nil] at hbs
      subst hbs
      refine ⟨h, ?_, by simpa [merge] using R, fun _ _ => rfl, fun _ => .inl rfl⟩
      rw [R.link_end]
      simp [coalesceFrom]
    | [b], hbs, _ =>
      refine ⟨h, ?_, by simpa [merge, ← hbs] using R, fun _ _ => rfl, fun _ => .inl rfl⟩
      have hend : h.next (finish width L.base l) = 0 := by
        rw [R.next_split hbs, ← hbs, R.link_end]
      rw [R.link_split hbs, coalesceFrom, if_pos (.inr hend)]
    | b :: c :: r, hbs, hf =>
      have hbs' : bs = (l ++ [b]) ++ c :: r := by simpa using hbs
      have hmb := R.mem_split hbs
      have hmc := R.mem_split hbs'
      have hnext := R.next_split hbs
      rw [R.link_split hbs'] at hnext
      have hfb := R.free hmb
      have hfc := R.free hmc
      have hgo : ¬ (finish width L.base l = 0 ∨
          h.next (finish width L.base l) = 0) := by
        rw [hnext]
        exact not_or.2 ⟨R.split_ne_zero hbs, R.split_ne_zero hbs'⟩
      rw [R.link_split hbs, coalesceFrom, if_neg hgo]
      by_cases hfree : b.free = true ∧ c.free = true
      · -- join the two blocks and stay at the same one
        have hjoin : h.free (finish width L.base l) ≠ 0 ∧
            h.free (h.next (finish width L.base l)) ≠ 0 := by
          rw [hnext]
          rw [hfree.1] at hfb
          rw [hfree.2] at hfc
          exact ⟨by simpa using hfb, by simpa using hfc⟩
        rw [if_pos hjoin]
        have RJ := R.joined_represents hbs hfree.1
        obtain ⟨h', hrun, hrep, hframe, hwords⟩ :=
          ih RJ l (⟨b.size + (64 + c.size), true⟩ :: r) rfl (by simp at hf ⊢; omega)
        rw [RJ.link_split rfl] at hrun
        have hmem := R.joined_mem hbs
        have hlink := RJ.link_aligned (RJ.mem_split rfl)
        have hwidth : finish width L.base l + b.width + c.width =
            finish width L.base l + (64 + (b.size + (64 + c.size))) := by
          simp only [width]
          omega
        rw [Block.width_mk, ← hwidth] at hlink
        refine ⟨h', hrun, ?_, ?_, ?_⟩
        · have hmerge : merge (b :: c :: r) = merge (⟨b.size + (64 + c.size), true⟩ :: r) := by
            rw [merge]
            simp [hfree]
          rw [hmerge]
          exact hrep
        · intro w hw
          have hhere := hw (finish width L.base l) b (by simp)
          rw [hframe, hmem, if_neg hhere.2, if_neg hhere.1]
          intro a d had
          simp only [place_cons, List.mem_cons, Prod.mk.injEq] at had
          rcases had with ⟨rfl, -⟩ | had
          · exact hhere
          · refine hw a d ?_
            rw [Block.width_mk, ← hwidth] at had
            simp [had]
        · intro w
          rcases hwords w with heq | hrest
          · rw [heq, hmem]
            split_ifs with h8 h0
            · exact .inr (.inr hlink)
            · have := R.aligned hmb
              exact .inr (.inl (by omega))
            · exact .inl rfl
          · exact .inr hrest
      · have hskip : ¬ (h.free (finish width L.base l) ≠ 0 ∧
            h.free (h.next (finish width L.base l)) ≠ 0) := by
          rw [hnext]
          rintro ⟨h1, h2⟩
          exact hfree ⟨by rw [← hfb]; simpa using h1, by rw [← hfc]; simpa using h2⟩
        rw [if_neg hskip, hnext]
        obtain ⟨h', hrun, hrep, hframe, hwords⟩ :=
          ih R (l ++ [b]) (c :: r) hbs' (by simp at hf ⊢; omega)
        rw [R.link_split hbs'] at hrun
        refine ⟨h', hrun, ?_, ?_, hwords⟩
        · rw [merge]
          simp only [Bool.and_eq_true, if_neg hfree]
          simpa using hrep
        · intro w hw
          refine hframe w fun a d had => hw a d ?_
          rw [finish_append] at had
          simp only [place_cons, List.mem_cons] at had ⊢
          exact .inr had

end Represents

end RadKernel.Heap
