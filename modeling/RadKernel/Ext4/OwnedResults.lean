import RadKernel.Ext4.OwnedCalls

/-!
# Block ownership over whole runs

Every open file holds a copy of its inode, made when it was opened, and every write puts
that copy back on disk. As long as the blocks of the copy are still good when a file is
written to (`Meets`), blocks stay marked and are named once. A copy outlives the blocks of
its file when the file is truncated by path or removed meanwhile: writing nothing through
such a handle is enough to put freed blocks back into the inode.
-/

namespace RadKernel.Ext4

open Kernel Ownership Prog

variable {g : Geometry} {init : Nat → Area}

/-- Inodes that are not in use hold no extents, as `free_inode` leaves them, and the root is
in use (or is an inode that can be freed). -/
def CleanFree (g : Geometry) (d : Disk) : Prop :=
  (∀ n, ¬Allocated g d n → ¬(d.inodes n).area.IsIndex ∧ (d.inodes n).area.leaf = []) ∧
    (inodeBit g d ext4RootInode = true ∨ g.firstIno ≤ ext4RootInode)

/-- What keeps a call from breaking the ownership of blocks. A write finds the blocks of its
handle's copy of the inode marked, and named neither twice in the copy nor by another inode.
A call that frees an inode with its blocks frees one that `free_inode` accepts, which
excludes the reserved ones. -/
def Meets (g : Geometry) (s : Ext4State) : Call → Prop
  | .write h _ _ => (s.files h).used = true → (s.files h).flags &&& vfsWrite ≠ 0 →
      HeldCopy g s.disk (s.files h).inodeNumber (s.files h).inode
  | .remove path => ∀ n, Names g s.disk path n →
      (s.disk.inodes n).linksCount ≤ 1 → Freeable g n
  | .rmdir path => ∀ n, Names g s.disk path n →
      inodeIsDir (s.disk.inodes n) = true → Freeable g n
  | _ => True

/-- The invariant of a run: the volume is good and the handles' copies have the index nodes
of the image. -/
structure GoodState (g : Geometry) (init : Nat → Area) (s : Ext4State) : Prop where
  disk : Good g init s.disk
  files : ∀ h, (s.files h).used = true → SameIndex (init (s.files h).inodeNumber) (s.files h).inode.area

theorem good_of_image {d : Disk} (howned : Owned g d) (hclean : CleanFree g d) :
    Good g (fun n => (d.inodes n).area) d where
  owned := by
    refine howned.mono (fun n p b _ hr => ⟨?_, hr⟩) fun _ _ _ _ _ hm => hm
    by_contra hn
    obtain ⟨hnot, hleaf⟩ := hclean.1 n hn
    have hmem := mem_of_ofList ((areaRefs_iff_leaf hnot).1 hr)
    simp [hleaf] at hmem
  index n _ := rfl
  free n hn hbit := (hclean.1 n fun h => by simp [h.2.2] at hbit).1
  root := hclean.2

variable {α : Type} {x : DiskM α} {h : Fin maxOpenFiles} {s : Ext4State}

/-- An operation on the volume leaves the handles alone. -/
theorem withDisk_good {P : Disk → Prop}
    (h : Triple (fun d => Good g init d ∧ P d) x (fun _ => Good g init) fun _ => Good g init) :
    Triple (fun s => GoodState g init s ∧ P s.disk) (withDisk x) (fun _ => GoodState g init)
      fun _ => GoodState g init := by
  refine Triple.focus fun s hs => ?_
  refine h.mono (fun d hd => hd ▸ ⟨hs.1.disk, hs.2⟩) (fun _ d hd => ⟨hd, hs.1.files⟩)
    fun _ d hd => ⟨hd, hs.1.files⟩

theorem withDisk_good_of (h : Triple (Good g init) x (fun _ => Good g init) fun _ => Good g init) :
    Triple (GoodState g init) (withDisk x) (fun _ => GoodState g init)
      fun _ => GoodState g init :=
  (withDisk_good (P := fun _ => True) (h.pre fun _ h => h.1)).pre fun _ h => ⟨h, trivial⟩

/-- Replacing one handle by one with a copy of the right kind. -/
theorem setFile_good {file : Ext4File} {P : Ext4State → Prop}
    {E : Status → Ext4State → Prop} (hP : ∀ s, P s → GoodState g init s)
    (hfile : file.used = true → SameIndex (init file.inodeNumber) file.inode.area) :
    Triple P (setFile h file) (fun _ => GoodState g init) E := by
  refine Triple.modify fun s hs => ⟨(hP s hs).disk, fun k hk => ?_⟩
  by_cases hkh : k = h
  · subst hkh
    simp only [Function.update_self] at hk ⊢
    exact hfile hk
  · simp only [Function.update_of_ne hkh] at hk ⊢
    exact (hP s hs).files k hk

theorem ext4Open_good {path : List UInt8} {flags : Nat} :
    Triple (GoodState g init) (ext4Open g path flags) (fun _ => GoodState g init)
      fun _ => GoodState g init := by
  refine Triple.bind (Q := fun (out : Nat × Inode) s => GoodState g init s ∧
    SameIndex (init out.1) out.2.area) ?_ fun out => ?_
  · refine Triple.focus fun s hs => ?_
    refine openInode_work.mono (fun d hd => hd ▸ hs.disk)
      (fun out d hd => ⟨⟨hd.1, hs.files⟩, hd.2⟩) fun _ d hd => ⟨hd, hs.files⟩
  · obtain ⟨n, inode⟩ := out
    refine Triple.bind_read fun s hs => ?_
    split
    · exact Triple.fail fun t ht => ht ▸ hs.1
    · refine Triple.bind (setFile_good (fun t ht => ht ▸ hs.1) fun _ => hs.2) fun _ => ?_
      exact Triple.pure fun _ h => h

variable {size : Nat}

theorem ext4Read_good :
    Triple (GoodState g init) (ext4Read g h size) (fun _ => GoodState g init)
      fun _ => GoodState g init := by
  refine Triple.bind_read fun s hs => ?_
  refine Triple.ite (fun _ => Triple.fail fun t ht => ht ▸ hs) fun hused => ?_
  have hused : (s.files h).used = true := by simpa using hused
  refine Triple.bind (Q := fun _ => GoodState g init) ?_ fun out => ?_
  · refine Triple.focus fun t ht => ?_
    subst ht
    exact Triple.query (fun d a hd _ => hd ▸ hs) fun d e hd _ => hd ▸ hs
  · refine Triple.bind (setFile_good (fun t ht => ht) fun _ => hs.files h hused) fun _ => ?_
    exact Triple.pure fun _ h => h

theorem ext4Write_good {data : Nat → UInt8} :
    Triple (fun s => GoodState g init s ∧ Meets g s (.write h size data))
      (ext4Write g h size data) (fun _ => GoodState g init) fun _ => GoodState g init := by
  refine Triple.bind_read fun s hs => ?_
  refine Triple.ite (fun _ => Triple.fail fun t ht => ht ▸ hs.1) fun hused => ?_
  obtain ⟨hgood, hmeets⟩ := hs
  obtain ⟨hused, hflags⟩ : (s.files h).used = true ∧ (s.files h).flags &&& vfsWrite ≠ 0 := by
    simpa [not_or] using hused
  have hwork := Work.single hgood.disk (fun _ _ => trivial)
    (hmeets hused hflags) (hgood.files h hused)
  refine Triple.bind (Q := fun (out : Except Status Nat × Inode) t => GoodState g init t ∧
    SameIndex (init (s.files h).inodeNumber) out.2.area) ?_ fun out => ?_
  · refine Triple.focus fun t ht => ?_
    subst ht
    refine (onCopy_triple writeInodeDataGrow_work).mono (fun d hd => hd ▸ hwork)
      (fun out d hd => ?_) fun e d hd => hd
    obtain ⟨out, inode⟩ := out
    cases out with
    | ok done => exact ⟨⟨hd.sound, hgood.files⟩, hd.copyIndex⟩
    | error e => exact ⟨⟨hd.sound, hgood.files⟩, hd.copyIndex⟩
  · obtain ⟨out, inode⟩ := out
    refine Triple.of_forall fun t ht => ?_
    cases out with
    | ok done =>
      refine Triple.bind (setFile_good (fun t' ht' => ht' ▸ ht.1) fun _ => ht.2) fun _ => ?_
      exact Triple.pure fun _ h => h
    | error e =>
      refine Triple.bind (setFile_good (fun t' ht' => ht' ▸ ht.1) fun _ => ht.2) fun _ => ?_
      exact Triple.fail fun _ h => h

theorem ext4Seek_good {offset : Int} {origin : SeekOrigin} :
    Triple (GoodState g init) (ext4Seek h offset origin) (fun _ => GoodState g init)
      fun _ => GoodState g init := by
  refine Triple.bind_read fun s hs => ?_
  refine Triple.ite (fun _ => Triple.fail fun t ht => ht ▸ hs) fun hused => ?_
  have hused : (s.files h).used = true := by simpa using hused
  refine Triple.ite (fun _ => Triple.fail fun t ht => ht ▸ hs) fun _ => ?_
  exact setFile_good (fun t ht => ht ▸ hs) fun _ => hs.files h hused

theorem perform_good (c : Call) :
    Triple (fun s => GoodState g init s ∧ Meets g s c) (perform g c) (fun _ => GoodState g init)
      fun _ => GoodState g init := by
  cases c with
  | «open» path flags =>
    exact Triple.bind (ext4Open_good.pre fun _ h => h.1) fun _ => Triple.pure fun _ h => h
  | read h size =>
    exact Triple.bind (ext4Read_good.pre fun _ h => h.1) fun _ => Triple.pure fun _ h => h
  | write h size data => exact Triple.bind ext4Write_good fun _ => Triple.pure fun _ h => h
  | seek h offset origin => exact ext4Seek_good.pre fun _ h => h.1
  | close h => exact setFile_good (fun _ hs => hs.1) fun hused => by cases hused
  | truncate path size => exact (withDisk_good_of ext4Truncate_work).pre fun _ h => h.1
  | remove path => exact withDisk_good ext4Remove_work
  | mkdir path => exact (withDisk_good_of ext4Mkdir_work).pre fun _ h => h.1
  | rmdir path => exact withDisk_good ext4Rmdir_work
  | rename oldPath newPath => exact (withDisk_good_of ext4Rename_work).pre fun _ h => h.1
  | link oldPath newPath => exact (withDisk_good_of ext4Link_work).pre fun _ h => h.1
  | symlink target linkPath => exact (withDisk_good_of ext4Symlink_work).pre fun _ h => h.1

theorem good_of_reached {d : Disk} (howned : Owned g d) (hclean : CleanFree g d)
    (hrun : Reached g (Meets g) (mounted d) s) : GoodState g (fun n => (d.inodes n).area) s := by
  induction hrun with
  | start => exact ⟨good_of_image howned hclean, fun _ hused => by cases hused⟩
  | @call s s' c out before hp run ih =>
    cases out with
    | ok a => exact (perform_good c).ok ⟨ih, hp⟩ run
    | error e => exact (perform_good c).error ⟨ih, hp⟩ run

/-- From an image with owned blocks, a run whose calls all meet the condition keeps them
owned. -/
theorem owned_of_run {d : Disk} {s : Ext4State} (howned : Owned g d) (hclean : CleanFree g d)
    (hrun : Reached g (Meets g) (mounted d) s) : Owned g s.disk :=
  (good_of_reached howned hclean hrun).disk.owned.mono (fun _ _ _ _ hr => ⟨trivial, hr⟩)
    fun _ _ _ _ _ hm => hm

/-! ## A small volume -/

/-- One group of 64 blocks of 1024 bytes and 16 inodes. -/
def smallVolume : Geometry where
  blockSize := 1024
  blocksPerGroup := 64
  inodesPerGroup := 16
  totalBlocks := 64
  totalInodes := 16
  firstDataBlock := 1
  firstIno := 11
  blockSize_eq := .inl rfl
  blocksPerGroup_pos := by decide
  inodesPerGroup_pos := by decide
  totalBlocks_lt := by decide
  totalInodes_lt := by decide
  firstDataBlock_lt := by decide
  inodes_fill := by decide

/-- An inode of the given mode and size with one extent of one block. -/
def oneBlockInode (mode size links block : Nat) : Inode :=
  { mode, size, linksCount := links, area := .extents ⟨extentHeaderMagic, 4, 0, [⟨0, 1, 0, block⟩]⟩ }

/-- A volume with one file, `/a`, of one block. -/
def oneFile : Disk where
  freeBlocks := 32
  freeInodes := 4
  groups := fun _ => ⟨32, 4, 1⟩
  blockBitmap := fun _ i => i < 32
  inodeBitmap := fun _ i => i < 12
  inodes := fun n =>
    if n = 2 then oneBlockInode 0x41ed 1024 2 10
    else if n = 12 then oneBlockInode 0x81a4 5 1 20
    else {}
  blocks := fun b =>
    if b = 10 then insertEntry (dotBlock smallVolume 2 2) 12 12 [97] ext4FtRegular else fun _ => 0

/-- Calls one after the other, whatever they return. -/
def performAll (g : Geometry) : List Call → Ext4State → Option Ext4State
  | [], s => some s
  | c :: cs, s => (perform g c s).bind fun out => performAll g cs out.2

theorem reached_performAll {start s' : Ext4State} {P : Ext4State → Call → Prop} {cs : List Call}
    (hP : ∀ s c, P s c) (hs : Reached g P start s) (h : performAll g cs s = some s') :
    Reached g P start s' := by
  induction cs generalizing s with
  | nil =>
    cases h
    exact hs
  | cons c cs ih =>
    obtain ⟨⟨out, t⟩, hrun, hrest⟩ := Option.bind_eq_some_iff.1 h
    exact ih (.call hs (hP s c) hrun) hrest

theorem oneFile_slot (n : Nat) : (oneFile.inodes n).area = .raw [] ∨
    ¬(oneFile.inodes n).area.IsIndex ∧
      (n = 2 ∧ (oneFile.inodes n).area.leaf = [10] ∨ n = 12 ∧ (oneFile.inodes n).area.leaf = [20]) := by
  simp only [oneFile]
  split
  case isTrue hn => exact .inr ⟨by simp [oneBlockInode, Area.IsIndex], .inl ⟨hn, by decide⟩⟩
  case isFalse =>
    split
    case isTrue hn => exact .inr ⟨by simp [oneBlockInode, Area.IsIndex], .inr ⟨hn, by decide⟩⟩
    case isFalse => exact .inl rfl

theorem oneFile_refs {n b : Nat} {p : List Nat} (h : slotRefs oneFile n p b) :
    p = [0] ∧ (n = 2 ∧ b = 10 ∨ n = 12 ∧ b = 20) := by
  rcases oneFile_slot n with hraw | ⟨hnot, hleaf⟩
  · rw [slotRefs, hraw] at h
    exact absurd h areaRefs_raw
  · obtain ⟨j, rfl, hj⟩ := (areaRefs_iff_leaf hnot).1 h
    rcases hleaf with ⟨hn, hleaf⟩ | ⟨hn, hleaf⟩ <;>
    · rw [hleaf] at hj
      obtain ⟨hlt, hb⟩ := List.getElem?_eq_some_iff.1 hj
      have hj0 : j = 0 := by simpa using hlt
      simp_all

theorem oneFile_owned : Owned smallVolume oneFile where
  isMarked n p b _ hr := by
    rcases (oneFile_refs hr).2 with ⟨-, rfl⟩ | ⟨-, rfl⟩ <;> exact ⟨by decide, by decide⟩
  unique n m p q b _ _ hp hq := by
    obtain ⟨rfl, hp⟩ := oneFile_refs hp
    obtain ⟨rfl, hq⟩ := oneFile_refs hq
    exact ⟨by omega, rfl⟩

theorem oneFile_clean : CleanFree smallVolume oneFile := by
  refine ⟨fun n hn => ?_, .inl (by decide)⟩
  rcases oneFile_slot n with hraw | ⟨-, ⟨rfl, -⟩ | ⟨rfl, -⟩⟩
  · rw [hraw]
    exact ⟨fun h => h, rfl⟩
  · exact absurd ⟨by decide, by decide, by decide⟩ hn
  · exact absurd ⟨by decide, by decide, by decide⟩ hn

/-- The file is opened and grown by a second block. -/
theorem owned_after_write : ∃ s, Reached smallVolume (Meets smallVolume) (mounted oneFile) s ∧
    (s.disk.inodes 12).area.leaf = [20, 33] ∧ Owned smallVolume s.disk := by
  let opening : Call := .open [slash, 97] (vfsRead ||| vfsWrite)
  let writing : Call := .write ⟨0, by decide⟩ 2000 fun _ => 7
  have hboth : (performAll smallVolume [opening, writing] (mounted oneFile)).map
      (fun s => (s.disk.inodes 12).area.leaf) = some [20, 33] := by decide +kernel
  have hopen : (perform smallVolume opening (mounted oneFile)).map (fun out =>
      ((out.2.files ⟨0, by decide⟩).inodeNumber, (out.2.files ⟨0, by decide⟩).inode.area,
        (out.2.disk.inodes 12).area)) =
      some (12, (oneFile.inodes 12).area, (oneFile.inodes 12).area) := by decide +kernel
  obtain ⟨s, hs, hleaf⟩ := Option.map_eq_some_iff.1 hboth
  obtain ⟨⟨out₁, t⟩, hrun₁, hs⟩ := Option.bind_eq_some_iff.1 hs
  obtain ⟨⟨out₂, s'⟩, hrun₂, hs⟩ := Option.bind_eq_some_iff.1 hs
  obtain rfl : s' = s := Option.some.inj hs
  simp only [hrun₁, Option.map_some, Option.some.injEq, Prod.mk.injEq] at hopen
  obtain ⟨hn, hcopy, hslot⟩ := hopen
  have ht : Reached smallVolume (Meets smallVolume) (mounted oneFile) t :=
    .call (c := opening) .start trivial hrun₁
  have hheld : HeldCopy smallVolume t.disk 12 (t.disk.inodes 12) :=
    (good_of_reached oneFile_owned oneFile_clean ht).disk.heldSlot 12
  have hmeets : Meets smallVolume t writing := by
    intro _ _
    rw [hn, HeldCopy, hcopy, ← hslot]
    exact hheld
  have hrun := Reached.call ht hmeets hrun₂
  exact ⟨s', hrun, hleaf, owned_of_run oneFile_owned oneFile_clean hrun⟩

/-- `ext4_open("/a")`, `ext4_truncate("/a", 0)`, then a write of no bytes through the handle:
the write puts back the inode as it was before the truncation, with the freed block. -/
theorem not_owned_stale_write : ¬∀ (g : Geometry) (d : Disk) (s : Ext4State), Owned g d →
    Reached g (fun _ _ => True) (mounted d) s → Owned g s.disk := by
  intro hall
  let calls : List Call := [.open [slash, 97] (vfsRead ||| vfsWrite), .truncate [slash, 97] 0,
    .write ⟨0, by decide⟩ 0 fun _ => 0]
  have hrun : (performAll smallVolume calls (mounted oneFile)).map (fun s =>
      (blockBit smallVolume s.disk 20, inodeBit smallVolume s.disk 12, (s.disk.inodes 12).area)) =
      some (false, true, (oneFile.inodes 12).area) := by decide +kernel
  obtain ⟨s, hs, heq⟩ := Option.map_eq_some_iff.1 hrun
  simp only [Prod.mk.injEq] at heq
  obtain ⟨hclear, hinode, harea⟩ := heq
  have howned := hall smallVolume oneFile s oneFile_owned
    (reached_performAll (fun _ _ => trivial) .start hs)
  have href : slotRefs s.disk 12 [0] 20 := by
    rw [slotRefs, harea]
    exact (areaRefs_iff_leaf (by simp [oneFile, oneBlockInode, Area.IsIndex])).2 ⟨0, rfl, by decide⟩
  have hmarked := (howned.isMarked ⟨by decide, by decide, hinode⟩ href).2
  rw [hclear] at hmarked
  cases hmarked

end RadKernel.Ext4
