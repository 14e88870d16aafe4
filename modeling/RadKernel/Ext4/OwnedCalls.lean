import RadKernel.Ext4.Owned
import RadKernel.Ext4.Primitives

/-!
# Every operation keeps the ownership of blocks

Hoare triples for the functions of `fs/ext4.cpp` over the invariants of `Ext4.Owned`: first
the functions on a copy of an inode, then the operations on paths.
-/

namespace RadKernel.Ext4

open Kernel Ownership Prog
open Work (setCopy weaken slot slots swap blank)
open Triple (bind_query of_forall bind_read)

variable {g : Geometry} {init : Nat → Area} {S : Nat → Prop} {d d' : Disk} {n m : Nat}
  {I J : Inode} {α β : Type}

/-- `Work` as an assertion about a program on a copy. -/
def Working (g : Geometry) (init : Nat → Area) (S : Nat → Prop) (n m : Nat) (J : Inode)
    (s : Inode × Disk) : Prop := Work g init S n s.1 m J s.2

/-- `Sound` of all slots. -/
abbrev Good (g : Geometry) (init : Nat → Area) (d : Disk) : Prop := Sound g init (fun _ => True) d

/-! ## Functions on a copy -/

variable {logical fileType : Nat} {E : Status → Inode × Disk → Prop} {P : Inode × Disk → Prop}
  {x : CopyM α} {Q : α → Inode × Disk → Prop} {E' : Status → Disk → Prop}
  {oldPath newPath : List UInt8}

theorem ensureInodeBlock_work :
    Triple (Working g init S n m J) (ensureInodeBlock g logical)
      (fun b s => Working g init S n m J s ∧ ∃ p, AreaRef s.2.blocks s.1.area false p b)
      fun _ => Working g init S n m J := by
  rintro ⟨I, d⟩ h r ⟨I', d'⟩ hx
  cases ensureInodeBlock_step hx with
  | unreadable => exact h
  | found hfile hb => exact ⟨h, fileBlockNumber_ref hfile hb⟩
  | full => exact h
  | refused hfile hfree hset => exact Work.untake h hfree
  | @added group i I' hfile hfree hset =>
    refine ⟨Work.add h hfree hset, ?_⟩
    have hlt := (findFreeBlock_some hfree).1
    obtain ⟨-, hnot, hperm⟩ := setInodeBlock_leaf hset (by have := g.totalBlocks_lt; omega)
      (Work.free_not_mem h hfree)
    obtain ⟨p, hp⟩ := exists_ofList (hperm.mem_iff.2 List.mem_cons_self)
    have hrefs : areaRefs (takeBlock g group i d).blocks I'.area p (g.blockNumber group i) :=
      (areaRefs_iff_leaf hnot).2 hp
    obtain ⟨k, hk⟩ := hrefs
    cases not_isIndex_ref hnot hk
    exact ⟨p, hk⟩

theorem writeBlockPart_work {x off len : Nat} {src : Nat → UInt8} :
    Triple (fun s => Working g init S n m J s ∧ ∃ p, AreaRef s.2.blocks s.1.area false p x)
      (runDisk (writeBlockPart x off len src)) (fun _ => Working g init S n m J) E := by
  rintro ⟨I, d⟩ ⟨h, p, hp⟩ r s' hx
  cases hx
  exact Work.write h hp

theorem modifyCopy_work {f : Inode → Inode} (hf : ∀ I, (f I).area = I.area) :
    Triple (Working g init S n m J) (modifyCopy f)
      (fun _ => Working g init S n m J) E :=
  Triple.modify fun s h => setCopy h (hf s.1)

theorem writeCopy_work :
    Triple (Working g init S n m J) (writeCopy n) (fun _ => Working g init (fun _ => True) n m J)
      fun _ s => n = 0 ∧ Working g init S n m J s := by
  rintro ⟨I, d⟩ h r s' hx
  unfold writeCopy at hx
  simp only [bind_apply, read_apply, runDisk_apply, writeInode] at hx
  split at hx
  case isTrue hn =>
    cases hx
    exact ⟨hn, h⟩
  case isFalse hn =>
    cases hx
    exact Work.commit h

theorem working_stable : Stable g n (Working g init S n m J) where
  ensure := ensureInodeBlock_work
  write _ h hp := Work.write h hp
  copy h harea _ _ := setCopy h harea
  store h := Work.restrict (Work.commit h) h.cover h.coverOther

/-- What the four steps keep of a copy whose blocks are its own. -/
theorem stable_of_work
    (hensure : ∀ {l I d r I' d'}, Work g init (fun _ => True) n I m J d → P (I, d) →
      ensureInodeBlock g l (I, d) = some (r, I', d') → P (I', d'))
    (hwrite : ∀ {I d p b} (f : Nat → UInt8), Work g init (fun _ => True) n I m J d → P (I, d) →
      AreaRef d.blocks I.area false p b → P (I, d.setBlock b f))
    (hcopy : ∀ {I I' : Inode} {d}, P (I, d) → I'.area = I.area → I'.mode = I.mode →
      I'.linksCount = I.linksCount → P (I', d))
    (hstore : ∀ {I d}, P (I, d) → P (I, d.setInode n I)) :
    Stable g n fun s => Working g init (fun _ => True) n m J s ∧ P s where
  ensure := by
    rintro l ⟨I, d⟩ ⟨hw, hp⟩ r ⟨I', d'⟩ hx
    have hp' := hensure hw hp hx
    cases r with
    | ok b =>
      obtain ⟨hw', href⟩ := ensureInodeBlock_work.ok hw hx
      exact ⟨⟨hw', hp'⟩, href⟩
    | error e => exact ⟨ensureInodeBlock_work.error hw hx, hp'⟩
  write f h href := ⟨Work.write h.1 href, hwrite f h.1 h.2 href⟩
  copy h harea hmode hlinks := ⟨Work.setCopy h.1 harea, hcopy h.2 harea hmode hlinks⟩
  store h := ⟨Work.commit h.1, hstore h.2⟩

/-- A program on a copy that only takes the four steps. -/
theorem working_of_run {r : Except Status α} {I' : Inode}
    (hP : Stable g n fun s => Working g init (fun _ => True) n m J s ∧ P s)
    (hstable : ∀ {K : Inode × Disk → Prop}, Stable g n K → Triple K x (fun _ => K) fun _ => K)
    (hw : Work g init (fun _ => True) n I m J d) (hp : P (I, d))
    (hx : x (I, d) = some (r, I', d')) : Work g init (fun _ => True) n I' m J d' ∧ P (I', d') :=
  (hstable hP).keeps (s := (I, d)) ⟨hw, hp⟩ hx

variable {size flags : Nat} {name path target : List UInt8}

theorem writeInodeDataGrow_work {offset : Nat} {data : Nat → UInt8} :
    Triple (Working g init (fun _ => True) n m J) (writeInodeDataGrow g n offset size data)
      (fun _ => Working g init (fun _ => True) n m J)
      fun _ => Working g init (fun _ => True) n m J :=
  working_stable.writeInodeDataGrow

/-- The copy can be written back; its slot on disk may name blocks that were freed. -/
def Cut (g : Geometry) (init : Nat → Area) (n : Nat) (s : Inode × Disk) : Prop :=
  ∃ J, Working g init (fun k => k ≠ n) n n J s

/-- After `free_inode_blocks`: an inode without an extent tree has lost nothing. -/
def Freed (g : Geometry) (init : Nat → Area) (n : Nat) (s : Inode × Disk) : Prop :=
  Cut g init n s ∧ s.1.area.CanFree ∧ ((∃ bytes, s.1.area = .raw bytes) → Good g init s.2)

theorem freeInodeBlocks_work {firstFree : Nat} :
    Triple (Working g init (fun _ => True) n m J) (freeInodeBlocks g firstFree)
      (fun _ => Freed g init n) fun _ => Working g init (fun _ => True) n m J := by
  rintro ⟨I, d⟩ h r s' hx
  by_cases hcan : I.area.CanFree
  · rw [freeInodeBlocks_apply hcan fun b hb => (Work.freed_marked h hcan hb).1] at hx
    cases hx
    refine ⟨⟨_, Work.cut h hcan firstFree⟩, ?_⟩
    unfold cutInode
    cases harea : I.area with
    | raw bytes => exact ⟨by simp [harea, Area.CanFree], fun _ => h.sound⟩
    | extents node =>
      rw [harea] at hcan
      exact ⟨hcan, fun ⟨_, hraw⟩ => by cases hraw⟩
  · rw [freeInodeBlocks_unsupported hcan] at hx
    cases hx
    exact h

/-- Looking up a block fails only without an extent tree once blocks could be freed. -/
theorem fileBlockNumber_of_canFree (h : I.area.CanFree) {status : Status}
    (hfile : fileBlockNumber I logical d = some (.error status)) : ∃ bytes, I.area = .raw bytes := by
  unfold fileBlockNumber at hfile
  cases harea : I.area with
  | raw bytes => exact ⟨bytes, rfl⟩
  | extents node =>
    rw [harea] at hfile h
    simp [nodeFuel, extentBlockNumberFromNode, h.1, h.2] at hfile

theorem clearTail_work :
    Triple (Freed g init n) (clearTail g size) (fun _ => Cut g init n)
      fun _ s => Good g init s.2 := by
  refine Triple.ite (fun _ => ?_) fun _ => Triple.pure fun _ h => h.1
  refine bind_read fun s h => ?_
  refine Triple.bind (Q := fun b t => Cut g init n t ∧
      (b ≠ 0 → ∃ p, AreaRef t.2.blocks t.1.area false p b))
    (Triple.query (fun t b ht hq => ?_) fun t e ht hq => ?_) fun b => ?_
  · subst ht
    exact ⟨h.1, fun hb => fileBlockNumber_ref hq hb⟩
  · subst ht
    exact h.2.2 (fileBlockNumber_of_canFree h.2.1 hq)
  · refine Triple.ite (fun hb => ?_) fun _ => Triple.pure fun _ h => h.1
    refine of_forall fun t ht => ?_
    obtain ⟨⟨J, hJ⟩, href⟩ := ht
    refine writeBlockPart_work.mono (fun t' ht' => ?_) (fun _ t' ht' => ⟨J, ht'⟩)
      fun e t' ht' => ht'
    subst ht'
    exact ⟨hJ, href hb⟩

theorem changeBlocks_work :
    Triple (Working g init (fun _ => True) n m J) (changeBlocks g n size)
      (fun _ => Cut g init n) fun _ s => Good g init s.2 := by
  refine bind_read fun s h => ?_
  refine Triple.ite (fun _ => ?_) fun _ => Triple.ite (fun _ => ?_) fun _ => ?_
  · refine Triple.bind ?_ fun _ => clearTail_work
    exact freeInodeBlocks_work.mono (fun t ht => ht ▸ h) (fun _ _ h => h) fun _ _ h => h.sound
  · exact working_stable.growLoop.mono (fun t ht => ht ▸ h) (fun _ _ h => ⟨_, weaken h⟩)
      fun _ _ h => h.sound
  · exact Triple.pure fun t ht => ⟨_, weaken (ht ▸ h)⟩

/-- A truncated inode is on disk when the call returns, unless nothing was freed. -/
theorem truncateInode_work (hn : n ≠ 0) :
    Triple (Working g init (fun _ => True) n m J) (truncateInode g n size)
      (fun _ s => Good g init s.2 ∧ SameIndex (init n) s.1.area) fun _ s => Good g init s.2 := by
  refine Triple.bind changeBlocks_work fun _ => ?_
  refine Triple.of_forall fun t ⟨J', hJ'⟩ => ?_
  refine Triple.bind (Q := fun _ => Working g init (fun k => k ≠ n) n n J') ?_ fun _ => ?_
  · refine (modifyCopy_work ?_).pre fun t' ht' => ht' ▸ hJ'
    exact fun I => rfl
  · exact writeCopy_work.post (fun _ _ h => ⟨h.sound, h.copyIndex⟩) fun _ _ h => absurd h.1 hn

theorem addDirent_work {child : Nat} :
    Triple (Working g init (fun _ => True) n m J) (addDirent g n child name fileType)
      (fun _ => Working g init (fun _ => True) n m J)
      fun _ => Working g init (fun _ => True) n m J :=
  working_stable.addDirent

theorem removeDirent_work :
    Triple (Working g init (fun _ => True) n m J) (removeDirent g n name)
      (fun _ => Working g init (fun _ => True) n m J)
      fun _ => Working g init (fun _ => True) n m J :=
  working_stable.removeDirent

/-! ## From copies to the volume -/

/-- What a program on a copy establishes, seen by the caller that gets its outcome. -/
def Outcome (Q : α → Inode × Disk → Prop) (E : Status → Inode × Disk → Prop)
    (out : Except Status α × Inode) (d : Disk) : Prop :=
  match out.1 with
  | .ok a => Q a (out.2, d)
  | .error status => E status (out.2, d)

theorem onCopy_triple (h : Triple P x Q E) :
    Triple (fun d => P (I, d)) (onCopy I x) (Outcome Q E) E' := by
  intro d hd r d' hx
  unfold onCopy at hx
  cases hxs : x (I, d) with
  | none => simp [hxs] at hx
  | some out =>
    obtain ⟨out, I', d''⟩ := out
    simp only [hxs, Option.map_some, Option.some.injEq, Prod.mk.injEq] at hx
    obtain ⟨rfl, rfl⟩ := hx
    cases out with
    | ok a => exact h.ok hd hxs
    | error e => exact h.error hd hxs

theorem passing_triple (h : Triple P x Q E) (hE : ∀ e I d, E e (I, d) → E' e d) :
    Triple (fun d => P (I, d)) (passing (onCopy I x)) (fun out d => Q out.1 (out.2, d)) E' := by
  refine Triple.bind (onCopy_triple h) fun out => ?_
  obtain ⟨out, I'⟩ := out
  cases out with
  | ok a => exact Triple.pure fun _ h => h
  | error e => exact Triple.fail fun d h => hE e I' d h

/-- After a failed outcome the cleanup runs and its own outcome is dropped. -/
theorem orUndo_triple {P : Disk → Prop} {out : Except Status α} {undo : DiskM β}
    {Q : α → Disk → Prop} {E : Status → Disk → Prop} (hok : ∀ a, out = .ok a → ∀ d, P d → Q a d)
    (herr : ∀ e, out = .error e → Triple P undo (fun _ => E e) fun _ => E e) :
    Triple P (orUndo out undo) Q E := by
  cases out with
  | ok a => exact Triple.pure (hok a rfl)
  | error e =>
    exact Triple.bind (Triple.attempt (herr e rfl)) fun _ =>
      Triple.fail fun _ h => h

theorem attempt_triple {P Q : Disk → Prop} {E : Status → Disk → Prop} {x : DiskM α}
    (h : Triple P x (fun _ => Q) fun _ => Q) : Triple P x.attempt (fun _ => Q) E :=
  Triple.attempt h

theorem split_triple {P : Disk → Prop} :
    Triple P (split path) (fun parts d => P d ∧ splitParent path = .ok parts) fun _ => P := by
  unfold split
  cases hsplit : splitParent path with
  | error e => exact Triple.fail fun _ h => h
  | ok parts => exact Triple.pure fun _ h => ⟨h, rfl⟩

theorem childExists_triple {P : Disk → Prop} {E : Status → Disk → Prop} :
    Triple P (childExists g n name) (fun _ => P) E := by
  refine Triple.bind (Triple.query (fun _ _ h _ => h) fun d e h hq => ?_) fun out => ?_
  · unfold Query.attempt at hq
    cases hchild : lookupChild g n name d <;> simp [hchild] at hq
  · cases out <;> exact Triple.pure fun _ h => h

/-! ## The operations -/

theorem lookupPath_ok (h : lookupPath g path d = some (.ok (n, I))) : n ≠ 0 ∧ I = d.inodes n := by
  unfold lookupPath at h
  split at h
  · cases h
  · obtain ⟨current, hcurrent, h⟩ := Query.bind_eq_ok.1 h
    obtain ⟨inode, hinode, h⟩ := Query.bind_eq_ok.1 h
    cases h
    unfold readInode at hinode
    split at hinode
    · cases hinode
    case isFalse hn =>
      cases hinode
      exact ⟨hn, rfl⟩

theorem readInode_apply (hn : n ≠ 0) : readInode n d = some (.ok (d.inodes n)) := by
  simp [readInode, hn, Query.bind_apply]

theorem readInode_ok (h : readInode n d = some (.ok I)) : n ≠ 0 ∧ I = d.inodes n := by
  unfold readInode at h
  split at h
  · cases h
  case isFalse hn =>
    cases h
    exact ⟨hn, rfl⟩

theorem freeInode_good (hn : n ≠ 0) (hnot : ¬(init n).IsIndex) :
    Triple (Good g init) (freeInode g n I) (fun _ => Good g init) fun _ => Good g init := by
  intro d h r d' hx
  by_cases hrange : n < g.firstIno ∨ g.totalInodes < n
  · rw [freeInode_reserved hrange] at hx
    cases hx
    exact h
  · rw [freeInode_apply (by omega) (by omega) (by omega)] at hx
    cases hx
    exact h.clear (fun _ _ => trivial) (by omega) (by omega) hnot

/-- Freeing an inode whose blocks are gone needs `free_inode` to accept it. -/
theorem freeInode_cut (hfirst : g.firstIno ≤ n) (hlast : n ≤ g.totalInodes) (hn : n ≠ 0)
    (hnot : ¬(init n).IsIndex) :
    Triple (Sound g init fun k => k ≠ n) (freeInode g n I) (fun _ => Good g init)
      fun _ => Good g init := by
  intro d h r d' hx
  rw [freeInode_apply (by omega) hfirst hlast] at hx
  cases hx
  exact h.clear (fun _ hk => hk) (by omega) hfirst hnot

theorem allocateInode_work {mode : Nat} (m : Nat) (J : Inode) :
    Triple (fun d => Good g init d ∧ J = d.inodes m) (allocateInode g mode)
      (fun out d => Work g init (fun _ => True) out.1 out.2 m J d ∧ out.1 ≠ 0 ∧
        g.firstIno ≤ out.1 ∧ out.1 ≤ g.totalInodes ∧ ¬out.2.area.IsIndex) fun _ => Good g init := by
  rintro d ⟨h, rfl⟩ r d' hx
  rw [allocateInode_apply] at hx
  cases hfree : findFreeInode g d with
  | none =>
    rw [hfree] at hx
    cases hx
    exact h
  | some found =>
    obtain ⟨hpos, hle, -, -, hfirst, hbit, -⟩ := findFreeInode_some hfree
    rw [hfree] at hx
    cases hx
    refine ⟨Work.create h hfree m, Nat.ne_of_gt hpos, ?_, hle, newInode_not_isIndex mode⟩
    rcases hfirst with hfirst | hroot
    · exact hfirst
    · rw [hroot] at hbit ⊢
      exact h.root.resolve_left (by simp [hbit])

theorem createFile_work :
    Triple (Good g init) (createFile g path)
      (fun out d => out.1 ≠ 0 ∧ Work g init (fun _ => True) out.1 out.2 out.1 out.2 d)
      fun _ => Good g init := by
  refine Triple.bind split_triple fun parts => ?_
  refine bind_query (fun d e h _ => h.1) fun found => ?_
  obtain ⟨m, parent⟩ := found
  refine Triple.ite (fun _ => Triple.fail fun _ h => h.1.1) fun _ => ?_
  refine Triple.bind childExists_triple fun _ => ?_
  refine Triple.ite (fun _ => Triple.fail fun _ h => h.1.1) fun _ => ?_
  refine Triple.bind ((allocateInode_work m parent).pre fun d h => ⟨h.1.1, (lookupPath_ok h.2).2⟩)
    fun out => ?_
  refine of_forall fun d0 h0 => ?_
  obtain ⟨hwork, hn, -, -, hnot⟩ := h0
  have hinit := hwork.copyIndex.not_isIndex hnot
  refine Triple.bind ((onCopy_triple addDirent_work).pre fun d hd => hd ▸ hwork.swap) fun out => ?_
  obtain ⟨out, parent'⟩ := out
  refine Triple.bind (orUndo_triple ?_ ?_) fun _ => Triple.pure fun d h => ⟨hn, h⟩
  · rintro a rfl d h
    exact .single h.sound (fun _ _ => trivial) h.other h.otherIndex
  · rintro e rfl
    exact (freeInode_good hn hinit).pre fun d h => h.sound

theorem findOrCreate_work :
    Triple (Good g init) (findOrCreate g path flags)
      (fun out d => out.1 ≠ 0 ∧ Work g init (fun _ => True) out.1 out.2 out.1 out.2 d)
      fun _ => Good g init := by
  refine bind_query (fun d e h _ => h) fun found => ?_
  cases found with
  | ok file =>
    refine Triple.pure fun d ⟨h, hfound⟩ => ?_
    obtain ⟨n, inode⟩ := file
    simp only [Query.attempt, Option.map_eq_some_iff, Except.ok.injEq] at hfound
    obtain ⟨_, hpath, rfl⟩ := hfound
    obtain ⟨hn, rfl⟩ := lookupPath_ok hpath
    exact ⟨hn, slot h n⟩
  | error status =>
    refine Triple.ite (fun _ => createFile_work.pre fun d h => h.1) fun _ => ?_
    exact Triple.fail fun d h => h.1

theorem openInode_work :
    Triple (Good g init) (openInode g path flags)
      (fun out d => Good g init d ∧ SameIndex (init out.1) out.2.area) fun _ => Good g init := by
  refine Triple.bind findOrCreate_work fun out => ?_
  refine Triple.ite (fun _ => Triple.fail fun d h => h.2.sound) fun _ => ?_
  refine Triple.ite (fun _ => ?_) fun _ => Triple.pure fun d h => ⟨h.2.sound, h.2.copyIndex⟩
  refine of_forall fun d0 h0 => ?_
  refine Triple.bind ((passing_triple (truncateInode_work h0.1)
    fun _ _ _ h => h).pre fun d hd => hd ▸ h0.2) fun out => ?_
  exact Triple.pure fun d h => h

theorem writeInode_work :
    Triple (fun d => Work g init S n I m J d) (writeInode n I)
      (fun _ d => Work g init (fun _ => True) n I m J d) fun _ d => Work g init S n I m J d := by
  exact Triple.ite (fun _ => Triple.fail fun _ h => h) fun _ => Triple.modify fun _ h => h.commit

/-- The inode that the last part of a path names in the directory before it. -/
def Names (g : Geometry) (d : Disk) (path : List UInt8) (n : Nat) : Prop :=
  ∃ parentPath name m parent, splitParent path = .ok (parentPath, name) ∧
    lookupPath g parentPath d = some (.ok (m, parent)) ∧
    lookupChild g m name d = some (.ok n)

/-- An inode number `free_inode` accepts. -/
def Freeable (g : Geometry) (n : Nat) : Prop := g.firstIno ≤ n ∧ n ≤ g.totalInodes

theorem dropInode_work (hn : n ≠ 0) (hfree : Freeable g n) :
    Triple (fun d => Work g init (fun _ => True) n I m J d) (dropInode g n I)
      (fun _ => Good g init) fun _ => Good g init := by
  refine Triple.bind (passing_triple freeInodeBlocks_work fun _ _ _ h => h.sound) fun out => ?_
  refine of_forall fun d0 h0 => ?_
  obtain ⟨⟨J', hcut⟩, hcan, -⟩ := h0
  have hinit := hcut.copyIndex.not_isIndex hcan.not_isIndex
  exact (freeInode_cut hfree.1 hfree.2 hn hinit).pre fun d hd => hd ▸ hcut.sound

theorem ext4Remove_work :
    Triple (fun d => Good g init d ∧
        ∀ n, Names g d path n → (d.inodes n).linksCount ≤ 1 → Freeable g n)
      (ext4Remove g path) (fun _ => Good g init) fun _ => Good g init := by
  refine Triple.bind (split_triple.post (fun _ _ h => h) fun _ _ h => h.1) fun parts => ?_
  refine bind_query (fun d e h _ => h.1.1) fun found => ?_
  obtain ⟨m, parent⟩ := found
  refine bind_query (fun d e h _ => h.1.1.1) fun n => ?_
  refine bind_query (fun d e h _ => h.1.1.1.1) fun inode => ?_
  refine Triple.ite (fun _ => Triple.fail fun d h => h.1.1.1.1.1) fun _ => ?_
  refine of_forall fun d0 h0 => ?_
  obtain ⟨⟨⟨⟨⟨hgood, hcond⟩, hsplit⟩, hparent⟩, hchild⟩, hread⟩ := h0
  obtain ⟨hm, rfl⟩ := lookupPath_ok hparent
  obtain ⟨hn, rfl⟩ := readInode_ok hread
  refine Triple.bind ((passing_triple (removeDirent_work (m := n) (J := d0.inodes n))
    fun _ _ _ h => h.sound).pre fun d hd => hd ▸ slots hgood m n) fun out => ?_
  obtain ⟨⟨⟩, parent'⟩ := out
  refine Triple.ite (fun hlinks => ?_) fun _ => ?_
  · have hle : (d0.inodes n).linksCount ≤ 1 := by
      have : (d0.inodes n).linksCount - 1 = 0 := hlinks
      omega
    refine (dropInode_work (m := m) (J := parent') hn
      (hcond n ⟨_, _, _, _, hsplit, hparent, hchild⟩ hle)).pre ?_
    exact fun d h => setCopy (swap h) rfl
  · refine (writeInode_work (m := m) (J := parent')).mono ?_
      (fun _ _ h => h.sound) fun _ _ h => h.sound
    exact fun d h => setCopy (swap h) rfl

theorem ext4Rmdir_work :
    Triple (fun d => Good g init d ∧
        ∀ n, Names g d path n → inodeIsDir (d.inodes n) = true → Freeable g n)
      (ext4Rmdir g path) (fun _ => Good g init) fun _ => Good g init := by
  refine Triple.ite (fun _ => Triple.fail fun _ h => h.1) fun _ => ?_
  refine Triple.bind (split_triple.post (fun _ _ h => h) fun _ _ h => h.1) fun parts => ?_
  refine bind_query (fun d e h _ => h.1.1) fun found => ?_
  obtain ⟨m, parent⟩ := found
  refine bind_query (fun d e h _ => h.1.1.1) fun n => ?_
  refine bind_query (fun d e h _ => h.1.1.1.1) fun dir => ?_
  refine Triple.ite (fun _ => Triple.fail fun d h => h.1.1.1.1.1) fun hdir => ?_
  refine bind_query (fun d e h _ => h.1.1.1.1.1) fun empty => ?_
  refine Triple.ite (fun _ => Triple.fail fun d h => h.1.1.1.1.1.1) fun _ => ?_
  refine of_forall fun d0 h0 => ?_
  obtain ⟨⟨⟨⟨⟨⟨hgood, hcond⟩, hsplit⟩, hparent⟩, hchild⟩, hread⟩, -⟩ := h0
  obtain ⟨hm, rfl⟩ := lookupPath_ok hparent
  obtain ⟨hn, rfl⟩ := readInode_ok hread
  refine Triple.bind ((passing_triple (removeDirent_work (m := n) (J := d0.inodes n))
    fun _ _ _ h => h.sound).pre fun d hd => hd ▸ slots hgood m n) fun out => ?_
  refine Triple.bind (Q := fun _ d => ∃ I, Work g init (fun _ => True) m I n (d0.inodes n) d)
    (attempt_triple ?_) fun _ => ?_
  · refine writeInode_work.mono (fun d h => setCopy h rfl) (fun _ _ h => ⟨_, h⟩) fun _ _ h => ⟨_, h⟩
  · refine of_forall fun d1 ⟨I, h1⟩ => ?_
    refine (dropInode_work hn (hcond n ⟨_, _, _, _, hsplit, hparent, hchild⟩ ?_)).pre
      fun d hd => hd ▸ h1.swap
    simpa using hdir

theorem ext4Rename_work :
    Triple (Good g init) (ext4Rename g oldPath newPath) (fun _ => Good g init)
      fun _ => Good g init := by
  refine Triple.bind split_triple fun oldParts => ?_
  refine Triple.bind (split_triple.post (fun _ _ h => h) fun _ _ h => h.1) fun newParts => ?_
  refine bind_query (fun d e h _ => h.1.1) fun found => ?_
  obtain ⟨m, oldParent⟩ := found
  refine bind_query (fun d e h _ => h.1.1.1) fun found => ?_
  obtain ⟨n, newParent⟩ := found
  refine bind_query (fun d e h _ => h.1.1.1.1) fun k => ?_
  refine Triple.bind childExists_triple fun _ => ?_
  refine Triple.ite (fun _ => Triple.fail fun d h => h.1.1.1.1.1) fun _ => ?_
  refine bind_query (fun d e h _ => h.1.1.1.1.1) fun inode => ?_
  refine Triple.ite (fun _ => Triple.fail fun d h => h.1.1.1.1.1.1) fun _ => ?_
  refine of_forall fun d0 h0 => ?_
  obtain ⟨⟨⟨⟨⟨⟨hgood, -⟩, -⟩, hold⟩, hnew⟩, -⟩, -⟩ := h0
  obtain ⟨-, rfl⟩ := lookupPath_ok hold
  obtain ⟨-, rfl⟩ := lookupPath_ok hnew
  refine Triple.bind ((passing_triple (addDirent_work (m := m) (J := d0.inodes m))
    fun _ _ _ h => h.sound).pre fun d hd => hd ▸ slots hgood n m) fun out => ?_
  refine Triple.bind ((passing_triple removeDirent_work
    fun _ _ _ h => h.sound).pre fun d h => swap h) fun _ => ?_
  exact Triple.pure fun _ h => h.sound

theorem ext4Truncate_work :
    Triple (Good g init) (ext4Truncate g path size) (fun _ => Good g init)
      fun _ => Good g init := by
  refine bind_query (fun d e h _ => h) fun found => ?_
  obtain ⟨n, inode⟩ := found
  refine Triple.ite (fun _ => Triple.fail fun d h => h.1) fun _ => ?_
  refine of_forall fun d0 ⟨hgood, hpath⟩ => ?_
  obtain ⟨hn, rfl⟩ := lookupPath_ok hpath
  refine Triple.bind ((passing_triple (truncateInode_work (m := n) (J := d0.inodes n) hn)
    fun _ _ _ h => h).pre fun d hd => hd ▸ slot hgood n) fun out => ?_
  exact Triple.pure fun d h => h.1

theorem ext4Link_work :
    Triple (Good g init) (ext4Link g oldPath newPath) (fun _ => Good g init)
      fun _ => Good g init := by
  refine bind_query (fun d e h _ => h) fun found => ?_
  obtain ⟨n, inode⟩ := found
  refine Triple.ite (fun _ => Triple.fail fun d h => h.1) fun _ => ?_
  refine Triple.bind (split_triple.post (fun _ _ h => h) fun _ _ h => h.1) fun parts => ?_
  refine bind_query (fun d e h _ => h.1.1) fun found => ?_
  obtain ⟨m, parent⟩ := found
  refine Triple.bind childExists_triple fun _ => ?_
  refine Triple.ite (fun _ => Triple.fail fun d h => h.1.1.1) fun _ => ?_
  refine of_forall fun d0 h0 => ?_
  obtain ⟨⟨⟨hgood, hold⟩, -⟩, hparent⟩ := h0
  obtain ⟨-, rfl⟩ := lookupPath_ok hold
  obtain ⟨-, rfl⟩ := lookupPath_ok hparent
  refine Triple.bind ((passing_triple (addDirent_work (m := n) (J := d0.inodes n))
    fun _ _ _ h => h.sound).pre fun d hd => hd ▸ slots hgood m n) fun out => ?_
  exact writeInode_work.mono
    (fun d h => setCopy (swap h) rfl) (fun _ _ h => h.sound) fun _ _ h => h.sound

theorem fillDir_work {parent : Nat} :
    Triple (Working g init (fun _ => True) n m J) (fillDir g n parent)
      (fun _ => Working g init (fun _ => True) n m J)
      fun _ => Working g init (fun _ => True) n m J :=
  working_stable.fillDir

/-- The copy that is kept is written to its slot, then entered in the directory at hand. -/
theorem enterInode_work :
    Triple (Working g init (fun _ => True) n m J) (enterInode g m J n name fileType)
      (fun _ => Working g init (fun _ => True) n m J)
      fun _ => Working g init (fun _ => True) n m J := by
  refine Triple.bind ?_ fun _ =>
    addDirent_work
  refine Triple.focus fun t ht => ?_
  refine writeInode_work.mono ?_ (fun _ _ h => Work.swap h) fun _ _ h => Work.swap h
  exact fun d hd => hd ▸ Work.swap ht

theorem ext4Mkdir_work :
    Triple (Good g init) (ext4Mkdir g path) (fun _ => Good g init) fun _ => Good g init := by
  refine Triple.bind split_triple fun parts => ?_
  refine bind_query (fun d e h _ => h.1) fun found => ?_
  obtain ⟨m, parent⟩ := found
  refine Triple.ite (fun _ => Triple.fail fun _ h => h.1.1) fun _ => ?_
  refine Triple.bind childExists_triple fun _ => ?_
  refine Triple.ite (fun _ => Triple.fail fun _ h => h.1.1) fun _ => ?_
  refine Triple.bind ((allocateInode_work m parent).pre fun d h => ⟨h.1.1, (lookupPath_ok h.2).2⟩)
    fun out => ?_
  obtain ⟨n, dir⟩ := out
  refine of_forall fun d0 h0 => ?_
  obtain ⟨hwork, hn, hfirst, hlast, hnot⟩ := h0
  have hinit := hwork.copyIndex.not_isIndex hnot
  refine Triple.bind ((onCopy_triple fillDir_work).pre fun d hd => hd ▸ hwork) fun out => ?_
  obtain ⟨filled, dir'⟩ := out
  refine Triple.bind (Q := fun _ d => Work g init (fun _ => True) n dir' m parent d)
    (orUndo_triple ?_ ?_) fun _ => ?_
  · rintro a rfl d h
    exact h
  · rintro e rfl
    exact (freeInode_good hn hinit).pre fun d h => h.sound
  refine Triple.bind ((onCopy_triple enterInode_work).pre fun d h => swap h) fun out => ?_
  obtain ⟨entered, parent'⟩ := out
  refine Triple.bind (Q := fun _ d => Work g init (fun _ => True) m parent' n dir' d)
    (orUndo_triple ?_ ?_) fun _ => ?_
  · rintro a rfl d h
    exact h
  · -- the slot on disk names the block until `free_inode` clears it
    rintro e rfl
    refine Triple.bind ((onCopy_triple freeInodeBlocks_work).pre fun d h => swap h) fun out => ?_
    obtain ⟨freed, dir''⟩ := out
    refine (freeInode_cut hfirst hlast hn hinit).pre fun d h => ?_
    cases freed with
    | ok a =>
      obtain ⟨⟨J', hcut⟩, -, -⟩ := h
      exact hcut.sound
    | error e => exact (weaken h).sound
  · refine Triple.bind (attempt_triple ?_) fun _ =>
      Triple.pure fun _ h => h
    exact writeInode_work.mono
      (fun d h => setCopy h rfl) (fun _ _ h => h.sound) fun _ _ h => h.sound

theorem storeTarget_work (hinit : ¬(init n).IsIndex) :
    Triple (Working g init (fun _ => True) n m J) (storeTarget g n target)
      (fun _ => Working g init (fun _ => True) n m J)
      fun _ => Working g init (fun _ => True) n m J := by
  refine Triple.ite (fun _ => ?_) fun _ => ?_
  · exact Triple.modify fun s h => blank h hinit (fun h => h) fun _ _ => areaRefs_raw
  refine Triple.bind (Q := fun _ => Working g init (fun _ => True) n m J) ?_ fun _ => ?_
  · have hnot : ¬(Area.extents emptyNode).IsIndex := by simp [Area.IsIndex, emptyNode]
    refine Triple.modify fun s h => blank h hinit hnot fun p b hr => ?_
    have hmem := mem_of_ofList ((areaRefs_iff_leaf hnot).1 hr)
    simp [Area.leaf, emptyNode, leafBlocks] at hmem
  refine Triple.bind writeInodeDataGrow_work fun done => ?_
  exact Triple.ite (fun _ => Triple.fail fun _ h => h) fun _ => Triple.pure fun _ h => h

theorem ext4Symlink_work {linkPath : List UInt8} :
    Triple (Good g init) (ext4Symlink g target linkPath) (fun _ => Good g init)
      fun _ => Good g init := by
  refine Triple.ite (fun _ => Triple.fail fun _ h => h) fun _ => ?_
  refine Triple.bind split_triple fun parts => ?_
  refine bind_query (fun d e h _ => h.1) fun found => ?_
  obtain ⟨m, parent⟩ := found
  refine Triple.bind childExists_triple fun _ => ?_
  refine Triple.ite (fun _ => Triple.fail fun _ h => h.1.1) fun _ => ?_
  refine Triple.bind ((allocateInode_work m parent).pre fun d h => ⟨h.1.1, (lookupPath_ok h.2).2⟩)
    fun out => ?_
  obtain ⟨n, inode⟩ := out
  refine of_forall fun d0 h0 => ?_
  obtain ⟨hwork, hn, -, -, hnot⟩ := h0
  have hinit := hwork.copyIndex.not_isIndex hnot
  refine Triple.bind ((onCopy_triple (storeTarget_work (m := m) (J := parent) hinit)).pre
    fun d hd => hd ▸ setCopy hwork rfl) fun out => ?_
  obtain ⟨stored, inode'⟩ := out
  refine Triple.bind (Q := fun _ d => Work g init (fun _ => True) n inode' m parent d)
    (orUndo_triple ?_ ?_) fun _ => ?_
  · rintro a rfl d h
    exact h
  · rintro e rfl
    exact (freeInode_good hn hinit).pre fun d h => h.sound
  refine Triple.bind ((onCopy_triple enterInode_work).pre fun d h => swap h) fun out => ?_
  obtain ⟨entered, parent'⟩ := out
  refine orUndo_triple ?_ ?_
  · rintro a rfl d h
    exact h.sound
  · rintro e rfl
    exact (freeInode_good hn hinit).pre fun d h => h.sound

end RadKernel.Ext4
