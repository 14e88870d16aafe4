import RadKernel.Ext4.FileBytes

/-!
# What a program on a copy leaves alone

A program on a copy of an inode changes the slot of that inode, the blocks that the copy names, and
blocks that were free. Everything else on the volume stays as it is: the other inodes, their blocks
and the bytes in them.
-/

namespace RadKernel.Ext4

open Kernel Ownership Prog

variable {g : Geometry} {init : Nat → Area} {S : Nat → Prop} {d d' : Disk} {n m k l b : Nat}
  {I J I' : Inode} {s s' t : Inode × Disk}

/-- From `s` to `s'` nothing but inode `n`, the blocks of its copy and free blocks changes. -/
structure Local (g : Geometry) (n : Nat) (s s' : Inode × Disk) : Prop where
  inodes : ∀ k, k ≠ n → s'.2.inodes k = s.2.inodes k
  bits : s'.2.inodeBitmap = s.2.inodeBitmap
  blocks : ∀ b, Marked g s.2 b → (∀ p, ¬areaRefs s.2.blocks s.1.area p b) →
    Marked g s'.2 b ∧ s'.2.blocks b = s.2.blocks b ∧ ∀ p, ¬areaRefs s'.2.blocks s'.1.area p b
  zero : ZeroTaken g s.2 → (∀ p, ¬areaRefs s.2.blocks s.1.area p 0) →
    ZeroTaken g s'.2 ∧ ∀ p, ¬areaRefs s'.2.blocks s'.1.area p 0
  mode : s'.1.mode = s.1.mode
  links : s'.1.linksCount = s.1.linksCount

namespace Local

theorem refl (g : Geometry) (n : Nat) (s : Inode × Disk) : Local g n s s where
  inodes _ _ := rfl
  bits := rfl
  blocks _ hm hp := ⟨hm, rfl, hp⟩
  zero hz hp := ⟨hz, hp⟩
  mode := rfl
  links := rfl

theorem trans (h : Local g n s s') (h' : Local g n s' t) : Local g n s t where
  inodes k hk := (h'.inodes k hk).trans (h.inodes k hk)
  bits := h'.bits.trans h.bits
  blocks b hm hp := by
    obtain ⟨hm₁, hb₁, hp₁⟩ := h.blocks b hm hp
    obtain ⟨hm₂, hb₂, hp₂⟩ := h'.blocks b hm₁ hp₁
    exact ⟨hm₂, hb₂.trans hb₁, hp₂⟩
  zero hz hp := by
    obtain ⟨hz₁, hp₁⟩ := h.zero hz hp
    exact h'.zero hz₁ hp₁
  mode := h'.mode.trans h.mode
  links := h'.links.trans h.links

theorem setCopy (g : Geometry) (n : Nat) (d : Disk) (harea : I'.area = I.area)
    (hmode : I'.mode = I.mode) (hlinks : I'.linksCount = I.linksCount) :
    Local g n (I, d) (I', d) where
  inodes _ _ := rfl
  bits := rfl
  blocks _ hm hp := ⟨hm, rfl, harea ▸ hp⟩
  zero hz hp := ⟨hz, harea ▸ hp⟩
  mode := hmode
  links := hlinks

theorem store (g : Geometry) (n : Nat) (I : Inode) (d : Disk) :
    Local g n (I, d) (I, d.setInode n I) where
  inodes _ hk := Function.update_of_ne hk ..
  bits := rfl
  blocks _ hm hp := ⟨hm, rfl, hp⟩
  zero hz hp := ⟨hz, hp⟩
  mode := rfl
  links := rfl

end Local

/-! ## The steps -/

theorem setInodeBlock_same (h : setInodeBlock g I l b = .ok I') :
    I'.mode = I.mode ∧ I'.linksCount = I.linksCount := by
  unfold setInodeBlock at h
  split at h
  · cases h
  · dsimp only at h
    split at h
    · cases h
    · split at h
      · cases h
        exact ⟨rfl, rfl⟩
      · split at h
        · cases h
        · cases h
          exact ⟨rfl, rfl⟩

variable {group i : Nat} {p : List Nat} {r : Except Status Nat} {α : Type} {x : CopyM α}

/-- Taking a block out of the pool changes it alone. -/
theorem takeBlock_keeps (hfree : findFreeBlock g d = some (group, i)) (hm : Marked g d b) :
    Marked g (takeBlock g group i d) b ∧ (takeBlock g group i d).blocks b = d.blocks b ∧
      b ≠ g.blockNumber group i := by
  have hne : b ≠ g.blockNumber group i := by
    rintro rfl
    exact not_marked_free hfree hm
  exact ⟨(marked_takeBlock hfree).2 (.inr hm), Function.update_of_ne hne .., hne⟩

theorem takeBlock_refs (hw : Work g init S n I m J d) (hfree : findFreeBlock g d = some (group, i))
    (hr : areaRefs (takeBlock g group i d).blocks I.area p b) : areaRefs d.blocks I.area p b :=
  areaRefs_of_update (fun _ hq => not_marked_free hfree (hw.copy.isMarked ⟨true, hq⟩)) hr

theorem release_take (hfree : findFreeBlock g d = some (group, i)) (hc : b < g.totalBlocks) :
    blockBit g (release g (g.blockNumber group i) (takeBlock g group i d)) b = blockBit g d b := by
  have hlt := (findFreeBlock_some hfree).1
  rw [blockBit_release hlt hc, blockBit_takeBlock hfree hc]
  by_cases hb : b = g.blockNumber group i
  · subst hb
    simp [blockBit_free hfree]
  · simp [hb]

theorem ensureInodeBlock_local (hw : Work g init S n I m J d)
    (hx : ensureInodeBlock g l (I, d) = some (r, I', d')) : Local g n (I, d) (I', d') := by
  cases ensureInodeBlock_step hx with
  | unreadable => exact .refl g n _
  | found => exact .refl g n _
  | full => exact .refl g n _
  | @refused group i status hfile hfree hset =>
    have hrefs : ∀ {b p}, areaRefs (release g (g.blockNumber group i)
        (takeBlock g group i d)).blocks I.area p b → areaRefs d.blocks I.area p b := fun hr => by
      rw [release_blocks] at hr
      exact takeBlock_refs hw hfree hr
    refine ⟨fun k _ => ?_, ?_, fun b hm hp => ?_, fun hz hp => ⟨?_, fun p hr => hp p (hrefs hr)⟩,
      rfl, rfl⟩
    · rw [release_inodes]
      rfl
    · rw [release_inodeBitmap]
      rfl
    · refine ⟨⟨hm.1, (release_take hfree hm.1).trans hm.2⟩, ?_, fun p hr => hp p (hrefs hr)⟩
      rw [release_blocks]
      exact (takeBlock_keeps hfree hm).2.1
    · have hlt := (findFreeBlock_some hfree).1
      refine hz.imp_right fun hbit => ?_
      exact (release_take hfree (Nat.zero_lt_of_lt hlt)).trans hbit
  | @added group i I' hfile hfree hset =>
    have hlt := (findFreeBlock_some hfree).1
    obtain ⟨hmode, hlinks⟩ := setInodeBlock_same hset
    obtain ⟨hnot, hnot', hperm⟩ := setInodeBlock_leaf hset (by have := g.totalBlocks_lt; omega)
      (hw.free_not_mem hfree)
    have hrefs : ∀ {b p}, areaRefs (takeBlock g group i d).blocks I'.area p b →
        b = g.blockNumber group i ∨ ∃ q, areaRefs d.blocks I.area q b := fun hr => by
      rcases List.mem_cons.1 (hperm.mem_iff.1 (mem_of_ofList ((areaRefs_iff_leaf hnot').1 hr)))
        with hb | hb
      · exact .inl hb
      · obtain ⟨q, hq⟩ := exists_ofList hb
        exact .inr ⟨q, (areaRefs_iff_leaf hnot).2 hq⟩
    refine ⟨fun k _ => rfl, rfl, fun b hm hp => ?_, fun hz hp => ⟨?_, fun p hr => ?_⟩, hmode, hlinks⟩
    · obtain ⟨hm', hb, hne⟩ := takeBlock_keeps hfree hm
      refine ⟨hm', hb, fun p hr => ?_⟩
      rcases hrefs hr with hb | ⟨q, hq⟩
      · exact hne hb
      · exact hp q hq
    · exact takeBlock_zeroTaken hz hfree
    · rcases hrefs hr with hb | ⟨q, hq⟩
      · exact hz.ne hfree hb.symm
      · exact hp q hq

theorem setBlock_local (hw : Work g init S n I m J d)
    (hp : AreaRef d.blocks I.area false p b) (f : Nat → UInt8) :
    Local g n (I, d) (I, d.setBlock b f) := by
  have hrefs : ∀ {c q}, areaRefs (d.setBlock b f).blocks I.area q c → areaRefs d.blocks I.area q c :=
    fun hr => areaRefs_of_update (fun q hq =>
      hw.copyIndex.not_index_ref hw.copyIndex (fun p q hp hq => hw.copy.unique hp hq) hp hq) hr
  refine ⟨fun _ _ => rfl, rfl, fun c hm hc => ⟨hm, ?_, fun q hr => hc q (hrefs hr)⟩,
    fun hz h0 => ⟨hz, fun q hr => h0 q (hrefs hr)⟩, rfl, rfl⟩
  have hne : c ≠ b := by
    rintro rfl
    exact hc p ⟨false, hp⟩
  exact Function.update_of_ne hne ..

/-- The programs on a copy change nothing but it and its blocks. -/
theorem local_stable (s : Inode × Disk) :
    Stable g n fun t => Working g init (fun _ => True) n m J t ∧ Local g n s t :=
  stable_of_work (fun hw h hx => h.trans (ensureInodeBlock_local hw hx))
    (fun f hw h hp => h.trans (setBlock_local hw hp f))
    (fun h harea hmode hlinks => h.trans (.setCopy g n _ harea hmode hlinks))
    fun h => h.trans (.store g n _ _)

theorem local_of_run {r : Except Status α}
    (hstable : ∀ {K : Inode × Disk → Prop}, Stable g n K → Triple K x (fun _ => K) fun _ => K)
    (hw : Work g init (fun _ => True) n I m J d) (hx : x (I, d) = some (r, I', d')) :
    Work g init (fun _ => True) n I' m J d' ∧ Local g n (I, d) (I', d') :=
  working_of_run (local_stable (I, d)) hstable hw (.refl g n _) hx

theorem freeInodeBlocks_local {firstFree : Nat} {a : Unit} (hw : Work g init S n I m J d)
    (hx : freeInodeBlocks g firstFree (I, d) = some (.ok a, I', d')) :
    Local g n (I, d) (I', d') := by
  by_cases hcan : I.area.CanFree
  · have hin : ∀ b ∈ I.area.freed firstFree, b < g.totalBlocks := fun b hb =>
      (hw.freed_marked hcan hb).1
    rw [freeInodeBlocks_apply hcan hin] at hx
    cases hx
    obtain ⟨hnot', rest, hperm⟩ := cutInode_leaf hcan firstFree
    have hleaf : ∀ {p c}, areaRefs d.blocks (cutInode g I firstFree).area p c →
        ∃ q, areaRefs d.blocks I.area q c := fun hr => by
      have hmem := mem_of_ofList ((areaRefs_iff_leaf hnot').1 hr)
      obtain ⟨q, hq⟩ := exists_ofList (hperm.mem_iff.2 (List.mem_append_left _ hmem))
      exact ⟨q, (areaRefs_iff_leaf hcan.not_isIndex).2 hq⟩
    have hfreed : ∀ {c}, c ∈ I.area.freed firstFree → ∃ q, areaRefs d.blocks I.area q c := by
      intro c hc
      have hmem : c ∈ I.area.leaf := hperm.mem_iff.2 (by simp [hc])
      obtain ⟨q, hq⟩ := exists_ofList hmem
      exact ⟨q, (areaRefs_iff_leaf hcan.not_isIndex).2 hq⟩
    have hsame : (cutInode g I firstFree).mode = I.mode ∧
        (cutInode g I firstFree).linksCount = I.linksCount := by
      unfold cutInode
      split <;> exact ⟨rfl, rfl⟩
    refine ⟨fun k _ => by rw [releaseAll_inodes], releaseAll_inodeBitmap _, fun b hm hp => ?_,
      fun hz hp => ⟨?_, fun p hr => ?_⟩, hsame.1, hsame.2⟩
    · refine ⟨(marked_releaseAll hin).2 ⟨hm, fun hb => ?_⟩, by rw [releaseAll_blocks],
        fun p hr => ?_⟩
      · obtain ⟨q, hq⟩ := hfreed hb
        exact hp q hq
      · rw [releaseAll_blocks] at hr
        obtain ⟨q, hq⟩ := hleaf hr
        exact hp q hq
    · by_cases hnone : I.area.freed firstFree = []
      · rwa [hnone]
      · obtain ⟨c, hc⟩ := List.exists_mem_of_ne_nil _ hnone
        refine hz.imp_right fun hbit => ?_
        rw [blockBit_releaseAll hin (Nat.zero_lt_of_lt (hin c hc)), hbit]
        have h0 : 0 ∉ I.area.freed firstFree := fun hmem => by
          obtain ⟨q, hq⟩ := hfreed hmem
          exact hp q hq
        simp [h0]
    · rw [releaseAll_blocks] at hr
      obtain ⟨q, hq⟩ := hleaf hr
      exact hp q hq
  · rw [freeInodeBlocks_unsupported hcan] at hx
    cases hx

/-! ## What the other inodes see -/

section Same

variable {blocks blocks' : Nat → Nat → UInt8} {node : Node} {area : Area} {index : Bool}
  {p : List Nat}

theorem RefAt.of_same (hr : RefAt blocks' node index p b)
    (h : ∀ q x, RefAt blocks node true q x → blocks' x = blocks x) :
    RefAt blocks node index p b := by
  induction hr with
  | data hmagic hdepth hb => exact .data hmagic hdepth hb
  | index hmagic hdepth hr => exact .index hmagic hdepth hr
  | child hmagic hdepth hr _ ih =>
    have hleaf := h _ _ (.index hmagic hdepth hr)
    rw [hleaf] at ih
    exact .child hmagic hdepth hr (ih fun q x hq => h _ x (.child hmagic hdepth hr hq))

theorem RefAt.to_same (hr : RefAt blocks node index p b)
    (h : ∀ q x, RefAt blocks node true q x → blocks' x = blocks x) :
    RefAt blocks' node index p b := by
  induction hr with
  | data hmagic hdepth hb => exact .data hmagic hdepth hb
  | index hmagic hdepth hr => exact .index hmagic hdepth hr
  | child hmagic hdepth hr _ ih =>
    have hleaf := h _ _ (.index hmagic hdepth hr)
    refine .child hmagic hdepth hr ?_
    rw [hleaf]
    exact ih fun q x hq => h _ x (.child hmagic hdepth hr hq)

theorem areaRefs_iff_of_same (h : ∀ q x, areaRefs blocks area q x → blocks' x = blocks x) :
    areaRefs blocks' area p b ↔ areaRefs blocks area p b := by
  have hindex : ∀ {node : Node}, area = .extents node → ∀ q x, RefAt blocks node true q x →
      blocks' x = blocks x := fun harea q x hq => h q x ⟨true, _, harea, hq⟩
  constructor
  · rintro ⟨index, node, harea, hr⟩
    exact ⟨index, node, harea, hr.of_same (hindex harea)⟩
  · rintro ⟨index, node, harea, hr⟩
    exact ⟨index, node, harea, hr.to_same (hindex harea)⟩

end Same

/-- From `d` to `d'` nothing happens to inodes other than `n` and to their blocks. -/
structure Leaves (g : Geometry) (n : Nat) (d d' : Disk) : Prop where
  inode : ∀ k, k ≠ n → d'.inodes k = d.inodes k
  bit : ∀ k, 0 < k → k ≠ n → inodeBit g d' k = inodeBit g d k
  block : ∀ k, k ≠ n → ∀ p b, slotRefs d k p b → d'.blocks b = d.blocks b

/-- What a program on a copy does is seen by no other inode. -/
theorem Local.leaves (h : Local g n (I, d) (I', d')) (hw : Work g init (fun _ => True) n I m J d) :
    Leaves g n d d' where
  inode := h.inodes
  bit k _ _ := by
    unfold inodeBit
    rw [h.bits]
  block k hk p b hr := (h.blocks b (hw.sound.owned.isMarked trivial hr)
    fun _ hp => hw.copy.apart hk hp hr).2.1

theorem leaves_setInode (g : Geometry) (n : Nat) (d : Disk) (I : Inode) :
    Leaves g n d (d.setInode n I) where
  inode _ hk := Function.update_of_ne hk ..
  bit _ _ _ := rfl
  block _ _ _ _ _ := rfl

theorem leaves_startInode {mode : Nat} (hfree : findFreeInode g d = some (group, i)) :
    Leaves g (g.inodeNumber group i) d (startInode g mode group i d) where
  inode _ hk := Function.update_of_ne hk ..
  bit k hk hne := by simp [inodeBit_startInode hfree hk, hne]
  block _ _ _ _ _ := rfl

theorem leaves_endInode (hn : 0 < n) : Leaves g n d (endInode g n I d) where
  inode k hk := by rw [endInode_inodes, Function.update_of_ne hk]
  bit k hk hne := by simp [inodeBit_endInode hn hk, hne]
  block _ _ _ _ _ := by rw [endInode_blocks]

namespace Leaves

theorem refl (g : Geometry) (n : Nat) (d : Disk) : Leaves g n d d :=
  ⟨fun _ _ => rfl, fun _ _ _ => rfl, fun _ _ _ _ _ => rfl⟩

theorem trans {d₁ d₂ : Disk} (h : Leaves g n d d₁) (h' : Leaves g n d₁ d₂) : Leaves g n d d₂ where
  inode k hk := (h'.inode k hk).trans (h.inode k hk)
  bit k hpos hk := (h'.bit k hpos hk).trans (h.bit k hpos hk)
  block k hk p b hr := by
    have hr' : slotRefs d₁ k p b := by
      unfold slotRefs
      rw [h.inode k hk]
      exact (areaRefs_iff_of_same fun q x hq => h.block k hk q x hq).2 hr
    exact (h'.block k hk p b hr').trans (h.block k hk p b hr)

section
variable (h : Leaves g n d d') (hk : k ≠ n)
include h hk

theorem slotRefs_iff : slotRefs d' k p b ↔ slotRefs d k p b := by
  unfold slotRefs
  rw [h.inode k hk]
  exact areaRefs_iff_of_same fun q x hq => h.block k hk q x hq

theorem file : fileBlockNumber (d'.inodes k) l d' = fileBlockNumber (d.inodes k) l d := by
  rw [h.inode k hk]
  exact fileBlockNumber_congr fun p x hx => h.block k hk p x ⟨true, hx⟩

/-- The blocks that another inode maps hold what they held. -/
theorem bytes (hfile : fileBlockNumber (d.inodes k) l d = some (.ok b)) (hb : b ≠ 0) :
    d'.blocks b = d.blocks b := by
  obtain ⟨p, hp⟩ := fileBlockNumber_ref hfile hb
  exact h.block k hk p b ⟨false, hp⟩

theorem allocated : Allocated g d' k ↔ Allocated g d k := by
  refine and_congr_right fun hpos => ?_
  rw [h.bit k hpos hk]

end

end Leaves

/-! ## Marks -/

/-- The blocks of the copy have the marks that came since `s`, and its new blocks were free. -/
structure Took (g : Geometry) (s s' : Inode × Disk) : Prop where
  marked : ∀ b, Marked g s'.2 b ↔ Marked g s.2 b ∨ b ∈ s'.1.area.leaf
  fresh : ∀ b ∈ s'.1.area.leaf, b ∈ s.1.area.leaf ∨ ¬Marked g s.2 b

theorem Work.leaf_marked (h : Work g init S n I m J d) (hb : b ∈ I.area.leaf) : Marked g d b := by
  have hnot : ¬I.area.IsIndex := by
    intro hidx
    cases harea : I.area with
    | raw => simp [harea, Area.leaf] at hb
    | extents node =>
      rw [harea] at hidx hb
      simp [Area.leaf, hidx.2] at hb
  obtain ⟨p, hp⟩ := exists_ofList hb
  exact h.copy.isMarked ((areaRefs_iff_leaf hnot).2 hp)

theorem Took.refl (hw : Work g init S n I m J d) : Took g (I, d) (I, d) where
  marked _ := ⟨.inl, fun h => h.elim id hw.leaf_marked⟩
  fresh _ := .inl

theorem Took.ensure (h : Took g s (I, d)) (hw : Work g init S n I m J d)
    (hx : ensureInodeBlock g l (I, d) = some (r, I', d')) : Took g s (I', d') := by
  cases ensureInodeBlock_step hx with
  | unreadable => exact h
  | found => exact h
  | full => exact h
  | @refused group i status hfile hfree hset =>
    refine ⟨fun b => ?_, h.fresh⟩
    rw [← h.marked b]
    exact and_congr_right fun hlt => by rw [release_take hfree hlt]
  | @added group i I' hfile hfree hset =>
    have hlt := (findFreeBlock_some hfree).1
    obtain ⟨-, -, hperm⟩ := setInodeBlock_leaf hset (by have := g.totalBlocks_lt; omega)
      (hw.free_not_mem hfree)
    have hmem : ∀ {c}, c ∈ I'.area.leaf ↔ c = g.blockNumber group i ∨ c ∈ I.area.leaf := fun {c} =>
      hperm.mem_iff.trans List.mem_cons
    refine ⟨fun b => ?_, fun b hb => ?_⟩
    · rw [marked_takeBlock hfree, hmem, h.marked b]
      tauto
    · rcases hmem.1 hb with rfl | hb
      · exact .inr fun hm => not_marked_free hfree ((h.marked _).2 (.inl hm))
      · exact h.fresh b hb

/-- The programs on a copy mark its new blocks, and only those. -/
theorem took_stable (s : Inode × Disk) :
    Stable g n fun t => Working g init (fun _ => True) n m J t ∧ Took g s t :=
  stable_of_work (fun hw h hx => h.ensure hw hx) (fun _ _ h _ => ⟨h.marked, h.fresh⟩)
    (fun h harea _ _ => ⟨by simpa only [harea] using h.marked, by simpa only [harea] using h.fresh⟩)
    fun h => ⟨h.marked, h.fresh⟩

theorem took_of_run {r : Except Status α}
    (hstable : ∀ {K : Inode × Disk → Prop}, Stable g n K → Triple K x (fun _ => K) fun _ => K)
    (hw : Work g init (fun _ => True) n I m J d) (hx : x (I, d) = some (r, I', d')) :
    Took g (I, d) (I', d') :=
  (working_of_run (took_stable (I, d)) hstable hw (.refl hw) hx).2

end RadKernel.Ext4
