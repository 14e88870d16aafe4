import RadKernel.Ext4.Refs

/-!
# Block ownership

The blocks named by the inodes of a volume are marked in use and named once. The operations
work on copies of inodes and write them back later, so the invariant speaks of the inode
table and of the copies at hand: `Work` holds of the copy an operation changes and of one
more copy that it keeps meanwhile.

An inode with index nodes is never changed by the code, and none is ever made. `SameIndex`
compares an area with the one the image started with; it is what keeps a data block of one
copy from being an index node of another.
-/

namespace RadKernel.Ext4

open Kernel Ownership Prog Function

variable {g : Geometry} {init : Nat → Area} {S : Nat → Prop} {d d' : Disk} {n m b x : Nat}
  {I J I' : Inode}

/-- The references of a slot of the inode table. -/
def slotRefs (d : Disk) (n : Nat) (p : List Nat) (b : Nat) : Prop :=
  areaRefs d.blocks (d.inodes n).area p b

def OwnedOn (g : Geometry) (d : Disk) (S : Nat → Prop) : Prop :=
  Exclusive (Marked g d) (slotRefs d) S

/-- A copy that could be written back. -/
def HeldCopy (g : Geometry) (d : Disk) (n : Nat) (I : Inode) : Prop :=
  Held (Marked g d) (slotRefs d) n (areaRefs d.blocks I.area)

/-- An inode number in use. -/
def Allocated (g : Geometry) (d : Disk) (n : Nat) : Prop :=
  0 < n ∧ n ≤ g.totalInodes ∧ inodeBit g d n = true

/-- Every block an allocated inode names is marked, and is named by one inode at one
position. -/
def Owned (g : Geometry) (d : Disk) : Prop := OwnedOn g d (Allocated g d)

/-- Areas with index nodes stay what they were in the image. -/
def SameIndex (first area : Area) : Prop := area.IsIndex ∨ first.IsIndex → area = first

structure Sound (g : Geometry) (init : Nat → Area) (S : Nat → Prop) (d : Disk) : Prop where
  owned : OwnedOn g d S
  index : ∀ n, SameIndex (init n) (d.inodes n).area
  free : ∀ n, 0 < n → inodeBit g d n = false → ¬(init n).IsIndex
  root : inodeBit g d ext4RootInode = true ∨ g.firstIno ≤ ext4RootInode

/-- An operation works on the copy `I` of inode `n` and keeps the copy `J` of inode `m`.
`S` holds the slots whose references on disk are still good: all of them, or all but `n`
after blocks of `n` were freed. -/
structure Work (g : Geometry) (init : Nat → Area) (S : Nat → Prop) (n : Nat) (I : Inode)
    (m : Nat) (J : Inode) (d : Disk) : Prop where
  sound : Sound g init S d
  cover : ∀ k, k ≠ n → S k
  coverOther : ∀ k, k ≠ m → S k
  copy : HeldCopy g d n I
  copyIndex : SameIndex (init n) I.area
  other : HeldCopy g d m J
  otherIndex : SameIndex (init m) J.area
  apart : n ≠ m → ∀ p q b, areaRefs d.blocks I.area p b → ¬areaRefs d.blocks J.area q b

/-- The areas an operation relies on: of its two copies and of the good slots. -/
def AtHand (S : Nat → Prop) (I J : Inode) (d : Disk) (area : Area) : Prop :=
  area = I.area ∨ area = J.area ∨ ∃ k, S k ∧ area = (d.inodes k).area

variable {area first : Area} {p : List Nat} {f : Nat → UInt8} {group i mode : Nat}
  {blocks : Nat → Nat → UInt8}

theorem SameIndex.not_isIndex (h : SameIndex first area)
    (harea : ¬area.IsIndex) : ¬first.IsIndex := by
  intro hfirst
  exact harea (h (.inr hfirst) ▸ hfirst)

theorem sameIndex_of_not (harea : ¬area.IsIndex) (hfirst : ¬first.IsIndex) :
    SameIndex first area := fun h => absurd h (not_or.2 ⟨harea, hfirst⟩)

/-! ## Starting -/

theorem Sound.heldSlot (h : Sound g init (fun _ => True) d) (n : Nat) :
    HeldCopy g d n (d.inodes n) := Exclusive.held h.owned n

theorem Work.single (h : Sound g init S d) (hcover : ∀ k, k ≠ n → S k) (hcopy : HeldCopy g d n I)
    (hindex : SameIndex (init n) I.area) : Work g init S n I n I d where
  sound := h
  cover := hcover
  coverOther := hcover
  copy := hcopy
  copyIndex := hindex
  other := hcopy
  otherIndex := hindex
  apart hne := absurd rfl hne

theorem Work.slot (h : Sound g init (fun _ => True) d) (n : Nat) :
    Work g init (fun _ => True) n (d.inodes n) n (d.inodes n) d :=
  .single h (fun _ _ => trivial) (h.heldSlot n) (h.index n)

/-- Two inodes just read: either may be worked on. -/
theorem Work.slots (h : Sound g init (fun _ => True) d) (n m : Nat) :
    Work g init (fun _ => True) n (d.inodes n) m (d.inodes m) d where
  sound := h
  cover _ _ := trivial
  coverOther _ _ := trivial
  copy := h.heldSlot n
  copyIndex := h.index n
  other := h.heldSlot m
  otherIndex := h.index m
  apart hne _ _ _ hp hq := hne (h.owned.unique trivial trivial hp hq).1

theorem Work.swap (h : Work g init (fun _ => True) n I m J d) :
    Work g init (fun _ => True) m J n I d where
  sound := h.sound
  cover := h.coverOther
  coverOther := h.cover
  copy := h.other
  copyIndex := h.otherIndex
  other := h.copy
  otherIndex := h.copyIndex
  apart hne p q b hp hq := h.apart (Ne.symm hne) q p b hq hp

/-- The references depend on the block area only. -/
theorem Work.setCopy (h : Work g init S n I m J d) (harea : I'.area = I.area) :
    Work g init S n I' m J d where
  sound := h.sound
  cover := h.cover
  coverOther := h.coverOther
  copy := by
    unfold HeldCopy
    rw [harea]
    exact h.copy
  copyIndex := harea ▸ h.copyIndex
  other := h.other
  otherIndex := h.otherIndex
  apart := by
    rw [harea]
    exact h.apart

/-- The slot of the copy may be left out of account. -/
theorem Work.weaken (h : Work g init S n I m J d) : Work g init (fun k => k ≠ n) n I n I d :=
  .single
    { owned := h.sound.owned.mono (fun k _ _ hk hr => ⟨h.cover k hk, hr⟩) fun _ _ _ _ _ hm => hm
      index := h.sound.index
      free := h.sound.free
      root := h.sound.root }
    (fun _ hk => hk) h.copy h.copyIndex

theorem Work.restrict (h : Work g init (fun _ => True) n I m J d) (hcover : ∀ k, k ≠ n → S k)
    (hother : ∀ k, k ≠ m → S k) : Work g init S n I m J d where
  sound :=
    { owned := h.sound.owned.mono (fun _ _ _ _ hr => ⟨trivial, hr⟩) fun _ _ _ _ _ hm => hm
      index := h.sound.index
      free := h.sound.free
      root := h.sound.root }
  cover := hcover
  coverOther := hother
  copy := h.copy
  copyIndex := h.copyIndex
  other := h.other
  otherIndex := h.otherIndex
  apart := h.apart

/-! ## Changing the volume under the copies -/

/-- The volume may lose references and gain marks; a mark may go when nobody at hand needs
it. -/
theorem Work.mono (h : Work g init S n I m J d) (hinodes : d'.inodes = d.inodes)
    (hbits : d'.inodeBitmap = d.inodeBitmap)
    (hrefs : ∀ area, AtHand S I J d area → ∀ p b, areaRefs d'.blocks area p b →
      areaRefs d.blocks area p b ∧ (Marked g d b → Marked g d' b)) :
    Work g init S n I m J d' where
  sound :=
    { owned := by
        refine h.sound.owned.mono (fun k p b hk hr => ?_) fun k p b hk hr => ?_
        · rw [slotRefs, hinodes] at hr
          exact ⟨hk, (hrefs _ (.inr (.inr ⟨k, hk, rfl⟩)) p b hr).1⟩
        · rw [slotRefs, hinodes] at hr
          exact (hrefs _ (.inr (.inr ⟨k, hk, rfl⟩)) p b hr).2
      index := fun k => hinodes ▸ h.sound.index k
      free := by
        unfold inodeBit
        rw [hbits]
        exact h.sound.free
      root := by
        unfold inodeBit
        rw [hbits]
        exact h.sound.root }
  cover := h.cover
  coverOther := h.coverOther
  copy := by
    refine h.copy.mono (fun p b hr => (hrefs _ (.inl rfl) p b hr).1) (fun k p b hk hr => ?_)
      fun p b hr => (hrefs _ (.inl rfl) p b hr).2
    rw [slotRefs, hinodes] at hr
    exact (hrefs _ (.inr (.inr ⟨k, h.cover k hk, rfl⟩)) p b hr).1
  copyIndex := h.copyIndex
  other := by
    refine h.other.mono (fun p b hr => (hrefs _ (.inr (.inl rfl)) p b hr).1) (fun k p b hk hr => ?_)
      fun p b hr => (hrefs _ (.inr (.inl rfl)) p b hr).2
    rw [slotRefs, hinodes] at hr
    exact (hrefs _ (.inr (.inr ⟨k, h.coverOther k hk, rfl⟩)) p b hr).1
  otherIndex := h.otherIndex
  apart hne p q b hp hq := h.apart hne p q b (hrefs _ (.inl rfl) p b hp).1
    (hrefs _ (.inr (.inl rfl)) q b hq).1

theorem Work.marked (h : Work g init S n I m J d)
    (harea : AtHand S I J d area) (hr : areaRefs d.blocks area p b) : Marked g d b := by
  rcases harea with rfl | rfl | ⟨k, hk, rfl⟩
  · exact h.copy.isMarked hr
  · exact h.other.isMarked hr
  · exact h.sound.owned.isMarked hk hr

theorem areaRefs_of_update (hx : ∀ p, ¬AreaRef d.blocks area true p x)
    (hr : areaRefs (update d.blocks x f) area p b) : areaRefs d.blocks area p b := by
  obtain ⟨k, hk⟩ := hr
  exact ⟨k, hk.of_update hx⟩

section
variable (h : Work g init S n I m J d) (hfree : findFreeBlock g d = some (group, i))
include h hfree

theorem Work.take : Work g init S n I m J (takeBlock g group i d) := by
  refine h.mono rfl rfl fun area harea p b hr => ?_
  refine ⟨areaRefs_of_update (fun q hq => ?_) hr, fun hm => (marked_takeBlock hfree).2 (.inr hm)⟩
  exact not_marked_free hfree (h.marked harea ⟨true, hq⟩)

theorem Work.untake :
    Work g init S n I m J (release g (g.blockNumber group i) (takeBlock g group i d)) := by
  have hlt := (findFreeBlock_some hfree).1
  refine h.mono ?_ ?_ fun area harea p b hr => ?_
  · rw [release_inodes]
    rfl
  · rw [release_inodeBitmap]
    rfl
  rw [release_blocks] at hr
  have hold : areaRefs d.blocks area p b := areaRefs_of_update
    (fun q hq => not_marked_free hfree (h.marked harea ⟨true, hq⟩)) hr
  refine ⟨hold, fun hm => ⟨hm.1, ?_⟩⟩
  have hne : b ≠ g.blockNumber group i := by
    rintro rfl
    exact not_marked_free hfree hm
  rw [blockBit_release hlt hm.1, blockBit_takeBlock hfree hm.1]
  simp [hne, hm.2]

end

/-- Areas of one inode agree on their index nodes, so a data block of one is no index node
of the other. -/
theorem SameIndex.not_index_ref {area' : Area}
    {q : List Nat} (h : SameIndex first area) (h' : SameIndex first area')
    (hunique : ∀ p q, areaRefs blocks area p x → areaRefs blocks area q x → p = q)
    (hp : AreaRef blocks area false p x) : ¬AreaRef blocks area' true q x := by
  intro hq
  by_cases hfirst : first.IsIndex
  · rw [h' (.inr hfirst), ← h (.inr hfirst)] at hq
    have := hunique p q ⟨_, hp⟩ ⟨_, hq⟩
    subst this
    cases hp.kind_eq hq
  · have hnot : ¬area'.IsIndex := fun hi => hfirst (h' (.inl hi) ▸ hi)
    cases not_isIndex_ref hnot hq

section
variable (h : Work g init S n I m J d)
include h

theorem Work.write
    (hx : AreaRef d.blocks I.area false p x) : Work g init S n I m J (d.setBlock x f) := by
  have hself : ∀ area, SameIndex (init n) area → ∀ q, ¬AreaRef d.blocks area true q x :=
    fun area harea q => h.copyIndex.not_index_ref harea (fun p q hp hq => h.copy.unique hp hq) hx
  refine h.mono rfl rfl fun area harea p' b hr => ⟨areaRefs_of_update (fun q hq => ?_) hr, id⟩
  rcases harea with rfl | rfl | ⟨k, hk, rfl⟩
  · exact hself _ h.copyIndex q hq
  · by_cases hnm : n = m
    · subst hnm
      exact hself _ h.otherIndex q hq
    · exact h.apart hnm p q x ⟨_, hx⟩ ⟨_, hq⟩
  · by_cases hkn : k = n
    · subst hkn
      exact hself _ (h.sound.index k) q hq
    · exact h.copy.apart hkn ⟨_, hx⟩ ⟨_, hq⟩

/-! ## Changing the copy -/

theorem Work.free_not_mem
    (hfree : findFreeBlock g d = some (group, i)) : g.blockNumber group i ∉ I.area.leaf := by
  intro hmem
  have hnot : ¬I.area.IsIndex := by
    -- an area with index nodes has no leaf of its own
    intro hidx
    cases harea : I.area with
    | raw => simp [harea, Area.leaf] at hmem
    | extents node =>
      rw [harea] at hidx hmem
      simp [Area.leaf, hidx.2] at hmem
  obtain ⟨p, hp⟩ := exists_ofList hmem
  exact not_marked_free hfree (h.copy.isMarked ((areaRefs_iff_leaf hnot).2 hp))

theorem Work.add {logical : Nat} (hfree : findFreeBlock g d = some (group, i))
    (hset : setInodeBlock g I logical (g.blockNumber group i) = .ok I') :
    Work g init S n I' m J (takeBlock g group i d) := by
  have htake := h.take hfree
  have hlt := (findFreeBlock_some hfree).1
  have hnone : ∀ {area : Area} {p : List Nat}, AtHand S I J d area →
      ¬areaRefs d.blocks area p (g.blockNumber group i) := fun harea hr =>
    not_marked_free hfree (h.marked harea hr)
  have hkeep : ∀ {area : Area} {p : List Nat} {b : Nat}, AtHand S I J d area →
      areaRefs (takeBlock g group i d).blocks area p b → areaRefs d.blocks area p b :=
    fun harea hr => areaRefs_of_update (fun q hq => hnone harea ⟨true, hq⟩) hr
  have hmem := h.free_not_mem hfree
  obtain ⟨hnot, hnot', hperm⟩ := setInodeBlock_leaf hset (by have := g.totalBlocks_lt; omega) hmem
  have hleaf : ∀ {p c}, areaRefs (takeBlock g group i d).blocks I'.area p c →
      c = g.blockNumber group i ∨ c ∈ I.area.leaf := by
    intro p c hr
    have := hperm.mem_iff.1 (mem_of_ofList ((areaRefs_iff_leaf hnot').1 hr))
    simpa using this
  have hcopy : Held (Marked g (takeBlock g group i d)) (slotRefs (takeBlock g group i d)) n
      (ofList I.area.leaf) :=
    htake.copy.mono (fun p b hr => (areaRefs_iff_leaf hnot).2 hr) (fun _ _ _ _ hr => hr)
      fun _ _ _ hm => hm
  obtain ⟨hnodup, hmarked, hapart⟩ := held_ofList.1 hcopy
  have hheld : HeldCopy g (takeBlock g group i d) n I' := by
    suffices hlist : Held (Marked g (takeBlock g group i d)) (slotRefs (takeBlock g group i d)) n
        (ofList I'.area.leaf) from
      hlist.mono (fun p b hr => (areaRefs_iff_leaf hnot').1 hr) (fun _ _ _ _ hr => hr)
        fun _ _ _ hm => hm
    refine held_ofList.2 ⟨hperm.nodup_iff.2 (List.nodup_cons.2 ⟨hmem, hnodup⟩), ?_, ?_⟩
    · intro b hb
      rcases List.mem_cons.1 (hperm.mem_iff.1 hb) with rfl | hb
      · exact (marked_takeBlock hfree).2 (.inl rfl)
      · exact hmarked b hb
    · intro b hb k q hk hr
      rcases List.mem_cons.1 (hperm.mem_iff.1 hb) with rfl | hb
      · have hin : AtHand S I J d (d.inodes k).area := .inr (.inr ⟨k, h.cover k hk, rfl⟩)
        exact hnone hin (hkeep hin hr)
      · exact hapart b hb k q hk hr
  exact
    { sound := htake.sound
      cover := h.cover
      coverOther := h.coverOther
      copy := hheld
      copyIndex := sameIndex_of_not hnot' (h.copyIndex.not_isIndex hnot)
      other := htake.other
      otherIndex := h.otherIndex
      apart := by
        intro hne p q c hp hq
        have hq' := hkeep (.inr (.inl rfl)) hq
        rcases hleaf hp with rfl | hc
        · exact hnone (.inr (.inl rfl)) hq'
        · obtain ⟨p', hp'⟩ := exists_ofList hc
          exact h.apart hne p' q c ((areaRefs_iff_leaf hnot).2 hp') hq' }

/-- The copy is written back to its slot. -/
theorem Work.commit : Work g init (fun _ => True) n I m J (d.setInode n I) := by
  have hslot : (d.setInode n I).inodes n = I := update_self ..
  have hrest : ∀ k, k ≠ n → (d.setInode n I).inodes k = d.inodes k := fun k hk =>
    update_of_ne hk ..
  have hself : ∀ p b, slotRefs (d.setInode n I) n p b → areaRefs d.blocks I.area p b := by
    intro p b hr
    rwa [slotRefs, hslot] at hr
  have hothers : ∀ k p b, k ≠ n → slotRefs (d.setInode n I) k p b → slotRefs d k p b := by
    intro k p b hk hr
    rwa [slotRefs, hrest k hk] at hr
  exact
    { sound :=
        { owned := Exclusive.replace h.sound.owned h.cover h.copy hself hothers
          index := by
            intro k
            by_cases hk : k = n
            · subst hk
              rw [hslot]
              exact h.copyIndex
            · rw [hrest k hk]
              exact h.sound.index k
          free := h.sound.free
          root := h.sound.root }
      cover := fun _ _ => trivial
      coverOther := fun _ _ => trivial
      copy := Held.replace h.copy hself hothers fun hne => absurd rfl hne
      copyIndex := h.copyIndex
      other := Held.replace h.other hself hothers h.apart
      otherIndex := h.otherIndex
      apart := h.apart }

/-! ## Giving blocks and inodes back -/

theorem Work.freed_marked (hcan : I.area.CanFree) {firstFree : Nat}
    (hb : b ∈ I.area.freed firstFree) : Marked g d b := by
  obtain ⟨-, rest, hperm⟩ := cutInode_leaf (g := g) hcan firstFree
  have hmem : b ∈ I.area.leaf := hperm.mem_iff.2 (by simp [hb])
  obtain ⟨p, hp⟩ := exists_ofList hmem
  exact h.copy.isMarked ((areaRefs_iff_leaf hcan.not_isIndex).2 hp)

/-- The copy is cut: its slot on disk still names the blocks that were freed. -/
theorem Work.cut (hcan : I.area.CanFree) (firstFree : Nat) :
    Work g init (fun k => k ≠ n) n (cutInode g I firstFree) n (cutInode g I firstFree)
      (releaseAll g (I.area.freed firstFree) d) := by
  obtain ⟨hnot', rest, hperm⟩ := cutInode_leaf hcan firstFree
  have hnot := hcan.not_isIndex
  have hin : ∀ b ∈ I.area.freed firstFree, b < g.totalBlocks := fun b hb =>
    (h.freed_marked hcan hb).1
  have hleaf : ∀ b ∈ I.area.freed firstFree, b ∈ I.area.leaf := fun b hb =>
    hperm.mem_iff.2 (by simp [hb])
  have hcopy : Held (Marked g d) (slotRefs d) n (ofList I.area.leaf) :=
    h.copy.mono (fun p b hr => (areaRefs_iff_leaf hnot).2 hr) (fun _ _ _ _ hr => hr)
      fun _ _ _ hm => hm
  obtain ⟨hnodup, hmarked, hapart⟩ := held_ofList.1 hcopy
  rw [hperm.nodup_iff, List.nodup_append, List.nodup_append] at hnodup
  obtain ⟨hkept, -, hdisjoint⟩ := hnodup
  have hrefs : slotRefs (releaseAll g (I.area.freed firstFree) d) = slotRefs d := by
    funext k p b
    simp [slotRefs]
  have hsound : Sound g init (fun k => k ≠ n) (releaseAll g (I.area.freed firstFree) d) :=
    { owned := by
        refine h.sound.owned.mono (fun k p b hk hr => ⟨h.cover k hk, hrefs ▸ hr⟩) ?_
        intro k p b hk hr hm
        rw [hrefs] at hr
        exact (marked_releaseAll hin).2 ⟨hm, fun hb => hapart b (hleaf b hb) k p hk hr⟩
      index := by simpa using h.sound.index
      free := by simpa [inodeBit] using h.sound.free
      root := by simpa [inodeBit] using h.sound.root }
  have hheld : HeldCopy g (releaseAll g (I.area.freed firstFree) d) n (cutInode g I firstFree) := by
    unfold HeldCopy
    rw [hrefs]
    suffices hlist : Held (Marked g (releaseAll g (I.area.freed firstFree) d)) (slotRefs d) n
        (ofList (cutInode g I firstFree).area.leaf) from
      hlist.mono (fun p b hr => (areaRefs_iff_leaf hnot').1 hr) (fun _ _ _ _ hr => hr)
        fun _ _ _ hm => hm
    refine held_ofList.2 ⟨hkept, fun b hb => (marked_releaseAll hin).2 ⟨?_, fun hf => ?_⟩, ?_⟩
    · exact hmarked b (hperm.mem_iff.2 (by simp [hb]))
    · exact hdisjoint b hb b (by simp [hf]) rfl
    · exact fun b hb k q hk => hapart b (hperm.mem_iff.2 (by simp [hb])) k q hk
  exact .single hsound (fun _ hk => hk) hheld
    (sameIndex_of_not hnot' (h.copyIndex.not_isIndex hnot))

end

/-- Clearing a slot leaves its inode without references. -/
theorem Sound.clear {inode : Inode} (h : Sound g init S d) (hcover : ∀ k, k ≠ n → S k) (hn : 0 < n)
    (hfirst : g.firstIno ≤ n) (hnot : ¬(init n).IsIndex) :
    Sound g init (fun _ => True) (endInode g n inode d) := by
  have hrefs : ∀ k p b, slotRefs (endInode g n inode d) k p b → k ≠ n ∧ slotRefs d k p b := by
    intro k p b hr
    rw [slotRefs, endInode_blocks, endInode_inodes] at hr
    by_cases hk : k = n
    · subst hk
      rw [update_self] at hr
      exact absurd hr areaRefs_raw
    · rw [update_of_ne hk] at hr
      exact ⟨hk, hr⟩
  exact
    { owned := h.owned.mono (fun k p b _ hr => ⟨hcover k (hrefs k p b hr).1, (hrefs k p b hr).2⟩)
        fun _ _ _ _ _ hm => marked_endInode.2 hm
      index := by
        intro k
        rw [endInode_inodes]
        by_cases hk : k = n
        · subst hk
          rw [update_self]
          exact sameIndex_of_not (fun hi => hi) hnot
        · rw [update_of_ne hk]
          exact h.index k
      free := by
        intro k hk hbit
        rw [inodeBit_endInode hn hk] at hbit
        by_cases hkn : k = n
        · exact hkn ▸ hnot
        · exact h.free k hk (by simpa [hkn] using hbit)
      root := by
        rw [inodeBit_endInode hn (by decide)]
        by_cases hroot : ext4RootInode = n
        · exact .inr (hroot ▸ hfirst)
        · simpa [hroot] using h.root }

theorem newInode_area (mode : Nat) : (newInode mode).area = .raw [] ∨
    (newInode mode).area = .extents emptyNode := by
  unfold newInode
  by_cases hlink : mode &&& 0xf000 = ext4SIfLnk
  · exact .inl (by simp [hlink])
  · exact .inr (by simp [hlink, initExtentInode])

theorem newInode_not_isIndex (mode : Nat) : ¬(newInode mode).area.IsIndex := by
  rcases newInode_area mode with h | h <;> simp [h, Area.IsIndex, emptyNode]

theorem newInode_refs : ¬areaRefs blocks (newInode mode).area p b := by
  intro hr
  have hmem := mem_of_ofList ((areaRefs_iff_leaf (newInode_not_isIndex mode)).1 hr)
  rcases newInode_area mode with h | h <;>
    simp [h, Area.leaf, emptyNode, leafBlocks] at hmem

/-- The copy may be replaced by one that names nothing. -/
theorem Work.blank (h : Work g init S n I m J d) (hinit : ¬(init n).IsIndex)
    (hnot : ¬I'.area.IsIndex) (hnone : ∀ p b, ¬areaRefs d.blocks I'.area p b) :
    Work g init S n I' m J d where
  sound := h.sound
  cover := h.cover
  coverOther := h.coverOther
  copy := ⟨fun p b hr => absurd hr (hnone p b), fun p _ b hr => absurd hr (hnone p b),
    fun _ p _ b _ hr => absurd hr (hnone p b)⟩
  copyIndex := sameIndex_of_not hnot hinit
  other := h.other
  otherIndex := h.otherIndex
  apart _ p _ b hr := absurd hr (hnone p b)

/-- A new inode names nothing; the copy `J` of another inode, read before, stays good. -/
theorem Work.create (h : Sound g init (fun _ => True) d)
    (hfree : findFreeInode g d = some (group, i)) (m : Nat) :
    Work g init (fun _ => True) (g.inodeNumber group i) (newInode mode) m (d.inodes m)
      (startInode g mode group i d) := by
  obtain ⟨hpos, hle, -, -, -, hbit, -⟩ := findFreeInode_some hfree
  have hself : ∀ p b, slotRefs (startInode g mode group i d) (g.inodeNumber group i) p b →
      areaRefs d.blocks (newInode mode).area p b := by
    intro p b hr
    simpa [slotRefs, startInode, takeInode, Disk.setInode] using hr
  have hrest : ∀ k p b, k ≠ g.inodeNumber group i →
      slotRefs (startInode g mode group i d) k p b → slotRefs d k p b := by
    intro k p b hk hr
    simpa [slotRefs, startInode, takeInode, Disk.setInode, update_of_ne hk] using hr
  have hblank : Held (Marked g d) (slotRefs d) (g.inodeNumber group i)
      (areaRefs d.blocks (newInode mode).area) :=
    ⟨fun _ _ hr => absurd hr newInode_refs, fun _ _ _ hr => absurd hr newInode_refs,
      fun _ _ _ _ _ hr => absurd hr newInode_refs⟩
  have hindex := sameIndex_of_not (newInode_not_isIndex mode) (h.free _ hpos hbit)
  have hsound : Sound g init (fun _ => True) (startInode g mode group i d) :=
    { owned := Exclusive.replace h.owned (fun _ _ => trivial) hblank hself hrest
      index := by
        intro k
        by_cases hk : k = g.inodeNumber group i
        · subst hk
          simpa [startInode, Disk.setInode] using hindex
        · simpa [startInode, takeInode, Disk.setInode, update_of_ne hk] using h.index k
      free := by
        intro k hk hclear
        rw [inodeBit_startInode hfree hk] at hclear
        exact h.free k hk (Bool.or_eq_false_iff.1 hclear).2
      root := by
        rw [inodeBit_startInode hfree (by decide)]
        exact h.root.imp_left fun hr => by simp [hr] }
  exact
    { sound := hsound
      cover := fun _ _ => trivial
      coverOther := fun _ _ => trivial
      copy := Held.replace hblank hself hrest fun hne => absurd rfl hne
      copyIndex := hindex
      other := Held.replace (h.heldSlot m) hself hrest fun _ _ _ _ hr => absurd hr newInode_refs
      otherIndex := h.index m
      apart := fun _ _ _ _ hr => absurd hr newInode_refs }

end RadKernel.Ext4
