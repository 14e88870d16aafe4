import Mathlib.Data.Finset.Card

/-!
# Shared objects that live in one of their slots

A table of slots in which several slots may share one object. The object lives in one of
the slots that share it, its owner, and the owner counts the slots that share it. `own i`
is the owner of slot `i`, or `none` when the slot is free.

Counts need not be exact: `slack o` is how far the count of owner `o` is above the number
of its members. A table without slack loses its object exactly when the last member
leaves.
-/

namespace RadKernel.Sharing

open Function

variable {N : Nat} {own : Nat → Option Nat} {refs slack : Nat → Int} {i j o p : Nat}

/-- The slots whose owner is `o`. -/
def members (N : Nat) (own : Nat → Option Nat) (o : Nat) : Finset Nat :=
  (Finset.range N).filter fun i => own i = some o

/-- Owners own themselves and count their members, up to the slack. -/
structure Valid (N : Nat) (own : Nat → Option Nat) (refs slack : Nat → Int) : Prop where
  inRange : ∀ i o, own i = some o → i < N
  rooted : ∀ i o, own i = some o → own o = some o
  counted : ∀ o, own o = some o → refs o = (members N own o).card + slack o

/-- The table after the owner `i` handed its object to `p`. -/
def handOver (own : Nat → Option Nat) (i p : Nat) : Nat → Option Nat := fun j =>
  if j = i then none else if own j = some i then some p else own j

theorem mem_members : i ∈ members N own o ↔ i < N ∧ own i = some o := by
  simp [members]

theorem card_members_fresh (hi : i < N) (hfree : own i = none) (hroot : ∀ j, own j ≠ some i) :
    (members N (update own i (some i)) i).card = 1 := by
  have : members N (update own i (some i)) i = {i} := by
    ext j
    by_cases hj : j = i
    · subst hj
      simp [mem_members, hi]
    · simp [mem_members, hj, hroot j]
  simp [this]

theorem members_update_of_ne {v : Option Nat} (hbefore : own i ≠ some o) (hafter : v ≠ some o) :
    members N (update own i v) o = members N own o := by
  ext j
  by_cases hj : j = i
  · subst hj
    simp [mem_members, hbefore, hafter]
  · simp [mem_members, hj]

theorem members_join (hi : i < N) (hfree : own i = none) :
    members N (update own i (some o)) o = insert i (members N own o) := by
  ext j
  by_cases hj : j = i
  · subst hj
    simp [mem_members, hi]
  · simp [mem_members, hj]

theorem members_leave : members N (update own i none) o = (members N own o).erase i := by
  ext j
  by_cases hj : j = i
  · subst hj
    simp [mem_members]
  · simp [mem_members, hj]

theorem members_handOver (hnone : ∀ j, own j ≠ some p) :
    members N (handOver own i p) p = (members N own i).erase i := by
  ext j
  by_cases hj : j = i
  · subst hj
    simp [mem_members, handOver]
  · by_cases ho : own j = some i
    · simp [mem_members, handOver, hj, ho]
    · simp [mem_members, handOver, hj, ho, hnone j]

theorem members_handOver_of_ne (hoi : o ≠ i) (hop : o ≠ p) (hroot : own i = some i) :
    members N (handOver own i p) o = members N own o := by
  ext j
  by_cases hj : j = i
  · subst hj
    simp [mem_members, handOver, hroot, Ne.symm hoi]
  · by_cases ho : own j = some i
    · simp [mem_members, handOver, hj, ho, Ne.symm hoi, Ne.symm hop]
    · simp [mem_members, handOver, hj, ho]

namespace Valid

section
variable (h : Valid N own refs slack)
include h

theorem not_owner (hi : own i ≠ some i) (j : Nat) :
    own j ≠ some i := fun hj => hi (h.rooted j i hj)

theorem mem_self (ho : own o = some o) : o ∈ members N own o :=
  mem_members.2 ⟨h.inRange o o ho, ho⟩

theorem card_pos (hi : own i = some o) : 1 ≤ (members N own o).card :=
  Finset.card_pos.2 ⟨i, mem_members.2 ⟨h.inRange i o hi, hi⟩⟩

/-- An owner that counts at most itself has no other member. -/
theorem alone (ho : own o = some o) (hrefs : refs o ≤ 1)
    (hslack : 0 ≤ slack o) (hj : own j = some o) : j = o := by
  by_contra hne
  have hsub : ({j, o} : Finset Nat) ⊆ members N own o := by
    intro x hx
    rcases Finset.mem_insert.1 hx with rfl | hx
    · exact mem_members.2 ⟨h.inRange _ _ hj, hj⟩
    · rw [Finset.mem_singleton.1 hx]
      exact h.mem_self ho
  have hcard := Finset.card_le_card hsub
  rw [Finset.card_pair hne] at hcard
  have := h.counted o ho
  omega

/-- A slot that shares with another counts for less than its owner. -/
theorem two_le (hi : own i = some o) (hne : i ≠ o) (hslack : 0 ≤ slack o) : 2 ≤ refs o := by
  by_contra hlt
  exact hne (h.alone (h.rooted i o hi) (by omega) hslack hi)

/-- A free slot becomes the owner of a new object. -/
theorem fresh (hi : i < N) (hfree : own i = none) :
    Valid N (update own i (some i)) (update refs i 1)
      (update slack i 0) where
  inRange j o hj := by
    by_cases hji : j = i
    · exact hji ▸ hi
    · exact h.inRange j o (by simpa [hji] using hj)
  rooted j o hj := by
    by_cases hji : j = i
    · subst hji
      have : o = j := by simpa using hj.symm
      simp [this]
    · have hown : own j = some o := by simpa [hji] using hj
      have hoi : o ≠ i := fun e => h.not_owner (by simp [hfree]) j (e ▸ hown)
      simpa [hoi] using h.rooted j o hown
  counted o ho := by
    by_cases hoi : o = i
    · subst hoi
      rw [card_members_fresh hi hfree (h.not_owner (by simp [hfree]))]
      simp
    · have hown : own o = some o := by simpa [hoi] using ho
      rw [members_update_of_ne (by simp [hfree]) (by simp [Ne.symm hoi])]
      simpa [hoi] using h.counted o hown

/-- A free slot joins the members of `o`, which has counted it beforehand. What the new
member holds in its own count does not matter. -/
theorem join (hi : i < N) (hfree : own i = none) (ho : own o = some o) (x : Int) :
    Valid N (update own i (some o)) (update refs i x)
      (update slack o (slack o - 1)) where
  inRange j q hj := by
    by_cases hji : j = i
    · exact hji ▸ hi
    · exact h.inRange j q (by simpa [hji] using hj)
  rooted j q hj := by
    have hoi : o ≠ i := fun e => by simp [e, hfree] at ho
    by_cases hji : j = i
    · subst hji
      have : q = o := by simpa using hj.symm
      simpa [this, hoi] using ho
    · have hown : own j = some q := by simpa [hji] using hj
      have hqi : q ≠ i := fun e => h.not_owner (by simp [hfree]) j (e ▸ hown)
      simpa [hqi] using h.rooted j q hown
  counted q hq := by
    have hoi : o ≠ i := fun e => by simp [e, hfree] at ho
    have hqi : q ≠ i := by
      rintro rfl
      exact hoi (by simpa using hq)
    have hown : own q = some q := by simpa [hqi] using hq
    have hcount := h.counted q hown
    by_cases hqo : q = o
    · subst hqo
      have hnot : i ∉ members N own q := by simp [mem_members, hfree]
      rw [members_join hi hfree, Finset.card_insert_of_notMem hnot]
      simp [hqi]
      omega
    · rw [members_update_of_ne (by simp [hfree]) (by simp [Ne.symm hqo])]
      simpa [hqi, hqo] using hcount

/-- A member other than the owner leaves, and the owner counts it off. -/
theorem leave (hi : own i = some o) (hne : i ≠ o) (x : Int) :
    Valid N (update own i none)
      (update (update refs o (refs o - 1)) i x) slack where
  inRange j q hj := by
    by_cases hji : j = i
    · simp [hji] at hj
    · exact h.inRange j q (by simpa [hji] using hj)
  rooted j q hj := by
    by_cases hji : j = i
    · simp [hji] at hj
    · have hown : own j = some q := by simpa [hji] using hj
      have hqi : q ≠ i := fun e => h.not_owner (by simp [hi, Ne.symm hne]) j (e ▸ hown)
      simpa [hqi] using h.rooted j q hown
  counted q hq := by
    have hqi : q ≠ i := by
      rintro rfl
      simp at hq
    have hown : own q = some q := by simpa [hqi] using hq
    have hcount := h.counted q hown
    by_cases hqo : q = o
    · subst hqo
      have hmem : i ∈ members N own q := mem_members.2 ⟨h.inRange i q hi, hi⟩
      have hpos := h.card_pos hi
      rw [members_leave, Finset.card_erase_of_mem hmem]
      simp [hqi]
      omega
    · rw [members_update_of_ne (by simp [hi, Ne.symm hqo]) (by simp)]
      simpa [hqi, hqo] using hcount

/-- The owner `i` leaves and hands its object, its count and its slack to the member `p`. -/
theorem handOver (hi : own i = some i) (hp : own p = some i) (hne : p ≠ i) (x : Int) :
    Valid N (handOver own i p)
      (update (update refs p (refs i - 1)) i x)
      (update slack p (slack i)) where
  inRange j q hj := by
    by_cases hji : j = i
    · simp [Sharing.handOver, hji] at hj
    · by_cases ho : own j = some i
      · exact h.inRange j i ho
      · exact h.inRange j q (by simpa [Sharing.handOver, hji, ho] using hj)
  rooted j q hj := by
    by_cases hji : j = i
    · simp [Sharing.handOver, hji] at hj
    · by_cases ho : own j = some i
      · have : q = p := by simpa [Sharing.handOver, hji, ho] using hj.symm
        simp [Sharing.handOver, this, hne, hp]
      · have hown : own j = some q := by simpa [Sharing.handOver, hji, ho] using hj
        have hqi : q ≠ i := fun e => ho (e ▸ hown)
        have hq := h.rooted j q hown
        simp [Sharing.handOver, hqi, hq]
  counted q hq := by
    have hqi : q ≠ i := by
      rintro rfl
      simp [Sharing.handOver] at hq
    by_cases hqp : q = p
    · subst hqp
      have hnone : ∀ j, own j ≠ some q := h.not_owner (by simp [hp, Ne.symm hne])
      rw [members_handOver hnone, Finset.card_erase_of_mem (h.mem_self hi)]
      have hcount := h.counted i hi
      have hpos := h.card_pos hi
      simp [hqi]
      omega
    · have hown : own q = some q := by
        by_cases ho : own q = some i
        · have : p = q := by simpa [Sharing.handOver, hqi, ho] using hq
          exact absurd this.symm hqp
        · simpa [Sharing.handOver, hqi, ho] using hq
      rw [members_handOver_of_ne hqi hqp hi]
      simpa [hqi, hqp] using h.counted q hown

/-- The last member of an object leaves. -/
theorem last (hi : own i = some i) (halone : ∀ j, own j = some i → j = i) (x : Int) :
    Valid N (update own i none) (update refs i x) slack where
  inRange j q hj := by
    by_cases hji : j = i
    · simp [hji] at hj
    · exact h.inRange j q (by simpa [hji] using hj)
  rooted j q hj := by
    by_cases hji : j = i
    · simp [hji] at hj
    · have hown : own j = some q := by simpa [hji] using hj
      have hqi : q ≠ i := fun e => hji (halone j (e ▸ hown))
      simpa [hqi] using h.rooted j q hown
  counted q hq := by
    have hqi : q ≠ i := by
      rintro rfl
      simp at hq
    have hown : own q = some q := by simpa [hqi] using hq
    rw [members_update_of_ne (by simp [hi, Ne.symm hqi]) (by simp)]
    simpa [hqi] using h.counted q hown

/-- A count that moves without its members is slack. -/
theorem shift (o : Nat) (x : Int) :
    Valid N own (update refs o (refs o + x)) (update slack o (slack o + x)) where
  inRange := h.inRange
  rooted := h.rooted
  counted q hq := by
    have hcount := h.counted q hq
    by_cases hqo : q = o
    · subst hqo
      simp
      omega
    · simpa [hqo] using hcount

end

end Valid

end RadKernel.Sharing
