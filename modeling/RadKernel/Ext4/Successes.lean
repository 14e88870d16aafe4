import RadKernel.Ext4.OwnedCalls

/-!
# What a call that succeeds has done

The operations on names of `fs/ext4.cpp` one after the other: from a call that returned OK, the
lookups it made and the functions it ran.
-/

namespace RadKernel.Ext4

open Kernel Prog
open Prog (bind_eq_ok query_eq_ok)

variable {g : Geometry} {d d' : Disk} {n p : Nat} {I I' : Inode} {name path : List UInt8}
  {α β : Type}

theorem split_eq_ok {parts : List UInt8 × List UInt8} :
    split path d = some (.ok parts, d') ↔ splitParent path = .ok parts ∧ d = d' := by
  unfold split
  cases splitParent path with
  | error e => simp
  | ok a => simp

variable {x : CopyM α} {a : α}

theorem onCopy_eq_ok {r : Except Status α} :
    onCopy I x d = some (.ok (r, I'), d') ↔ x (I, d) = some (r, I', d') := by
  unfold onCopy
  cases x (I, d) with
  | none => simp
  | some out => simp [Prod.ext_iff, and_assoc]

theorem passing_eq_ok :
    passing (onCopy I x) d = some (.ok (a, I'), d') ↔ x (I, d) = some (.ok a, I', d') := by
  unfold passing
  rw [bind_eq_ok]
  constructor
  · rintro ⟨⟨r, J⟩, d₁, hx, hrest⟩
    rw [onCopy_eq_ok] at hx
    cases r with
    | error e => cases hrest
    | ok b =>
      cases hrest
      exact hx
  · exact fun hx => ⟨(.ok a, I'), d', onCopy_eq_ok.2 hx, rfl⟩

theorem orUndo_eq_ok {out : Except Status α} {undo : DiskM β} :
    orUndo out undo d = some (.ok a, d') ↔ out = .ok a ∧ d = d' := by
  cases out with
  | ok b => simp [orUndo]
  | error e =>
    unfold orUndo
    rw [bind_eq_ok]
    constructor
    · rintro ⟨_, _, -, hfail⟩
      cases hfail
    · rintro ⟨⟨⟩, -⟩

theorem freeInode_ok (hn : n ≠ 0) (h : freeInode g n I d = some (.ok (), d')) :
    g.firstIno ≤ n ∧ n ≤ g.totalInodes ∧ d' = endInode g n I d := by
  by_cases hrange : n < g.firstIno ∨ g.totalInodes < n
  · rw [freeInode_reserved hrange] at h
    cases h
  · rw [freeInode_apply (by omega) (by omega) (by omega)] at h
    cases h
    exact ⟨by omega, by omega, rfl⟩

theorem dropInode_ok (hn : n ≠ 0) (h : dropInode g n I d = some (.ok (), d')) :
    ∃ I₁ d₁, freeInodeBlocks g 0 (I, d) = some (.ok (), I₁, d₁) ∧ g.firstIno ≤ n ∧
      n ≤ g.totalInodes ∧ d' = endInode g n I₁ d₁ := by
  obtain ⟨⟨⟨⟩, I₁⟩, d₁, hfree, h⟩ := bind_eq_ok.1 h
  exact ⟨I₁, d₁, passing_eq_ok.1 hfree, freeInode_ok hn h⟩

/-- The path leads to inode `p`, and looking its last part up there fails. -/
structure FreshName (g : Geometry) (d : Disk) (path : List UInt8) (p : Nat) (name : List UInt8) :
    Prop where
  parent : ∃ dir, splitParent path = .ok (dir, name) ∧
    lookupPath g dir d = some (.ok (p, d.inodes p))
  absent : ∃ e, lookupChild g p name d = some (.error e)

/-- The path leads to inode `p`, which holds its last part as a name of `n`. -/
structure OldName (g : Geometry) (d : Disk) (path : List UInt8) (p : Nat) (name : List UInt8)
    (n : Nat) : Prop where
  parent : ∃ dir, splitParent path = .ok (dir, name) ∧
    lookupPath g dir d = some (.ok (p, d.inodes p))
  child : lookupChild g p name d = some (.ok n)

/-- The start of the operations on a name: the directory at the path before it. -/
theorem atParent_ok {k : List UInt8 × List UInt8 → Nat × Inode → DiskM α}
    (h : (split path >>= fun parts => Prog.query (lookupPath g parts.1) >>= k parts) d =
      some (.ok a, d')) :
    ∃ dir name p, splitParent path = .ok (dir, name) ∧
      lookupPath g dir d = some (.ok (p, d.inodes p)) ∧ p ≠ 0 ∧
      k (dir, name) (p, d.inodes p) d = some (.ok a, d') := by
  obtain ⟨⟨dir, name⟩, _, hrun, h⟩ := Prog.bind_eq_ok.1 h
  obtain ⟨hsplit, rfl⟩ := split_eq_ok.1 hrun
  obtain ⟨⟨p, parent⟩, _, hrun, h⟩ := Prog.bind_eq_ok.1 h
  obtain ⟨hparent, rfl⟩ := Prog.query_eq_ok.1 hrun
  obtain ⟨hp, rfl⟩ := lookupPath_ok hparent
  exact ⟨dir, name, p, hsplit, hparent, hp, h⟩

theorem newName_ok {k : DiskM α} {status : Status}
    (h : (childExists g p name >>= fun found => if found then Prog.fail status else k) d =
      some (.ok a, d')) :
    (∃ e, lookupChild g p name d = some (.error e)) ∧ k d = some (.ok a, d') := by
  obtain ⟨found, _, hchild, h⟩ := bind_eq_ok.1 h
  obtain ⟨r, d₁, hquery, hfound⟩ := bind_eq_ok.1 hchild
  obtain ⟨hlookup, rfl⟩ := query_eq_ok.1 hquery
  obtain ⟨r', hread, hr⟩ := Option.map_eq_some_iff.1 hlookup
  obtain rfl : r' = r := by simpa using hr
  cases r' with
  | ok c =>
    cases hfound
    cases h
  | error e =>
    cases hfound
    exact ⟨⟨e, hread⟩, h⟩

theorem allocateInode_ok {mode : Nat} (h : allocateInode g mode d = some (.ok (n, I), d')) :
    ∃ group i, findFreeInode g d = some (group, i) ∧ n = g.inodeNumber group i ∧
      I = newInode mode ∧ d' = startInode g mode group i d := by
  rw [allocateInode_apply] at h
  cases hfree : findFreeInode g d with
  | none =>
    rw [hfree] at h
    cases h
  | some found =>
    rw [hfree] at h
    cases h
    exact ⟨found.1, found.2, rfl, rfl, rfl, rfl⟩

theorem createFile_ok (h : createFile g path d = some (.ok (n, I), d')) :
    ∃ p name group i I', FreshName g d path p name ∧ inodeIsDir (d.inodes p) = true ∧
      findFreeInode g d = some (group, i) ∧ n = g.inodeNumber group i ∧
      I = newInode (ext4SIfreg ||| 0o644) ∧
      addDirent g p n name ext4FtRegular
        (d.inodes p, startInode g (ext4SIfreg ||| 0o644) group i d) = some (.ok (), I', d') := by
  obtain ⟨dir, name, p, hsplit, hparent, -, h⟩ := atParent_ok h
  dsimp only at h
  split at h
  · cases h
  case isFalse hdir =>
    obtain ⟨habsent, h⟩ := newName_ok h
    obtain ⟨⟨n', inode⟩, d₁, halloc, h⟩ := bind_eq_ok.1 h
    obtain ⟨⟨r, I'⟩, d₂, hadd, h⟩ := bind_eq_ok.1 h
    obtain ⟨⟨⟩, d₃, hundo, h⟩ := bind_eq_ok.1 h
    obtain ⟨rfl, rfl⟩ := orUndo_eq_ok.1 hundo
    cases h
    obtain ⟨group, i, hfree, rfl, rfl, rfl⟩ := allocateInode_ok halloc
    exact ⟨p, name, group, i, I', ⟨⟨dir, hsplit, hparent⟩, habsent⟩, by simpa using hdir,
      hfree, rfl, rfl, onCopy_eq_ok.1 hadd⟩

theorem enterInode_ok {parent : Inode} {fileType : Nat}
    (h : enterInode g n I p name fileType (parent, d) = some (.ok (), I', d')) :
    n ≠ 0 ∧ addDirent g p n name fileType (parent, d.setInode n I) = some (.ok (), I', d') := by
  obtain ⟨⟨⟩, s, hwrite, h⟩ := bind_eq_ok.1 h
  unfold writeInode at hwrite
  split at hwrite
  · cases hwrite
  case isFalse hn =>
    cases hwrite
    exact ⟨hn, h⟩

theorem ext4Symlink_ok {target : List UInt8} (h : ext4Symlink g target path d = some (.ok (), d')) :
    target.length ≤ 4096 ∧ ∃ p name group i I₁ d₁ I', FreshName g d path p name ∧
      findFreeInode g d = some (group, i) ∧
      storeTarget g (g.inodeNumber group i) target
        (inodeSetSize (newInode (ext4SIfLnk ||| 0o777)) target.length,
          startInode g (ext4SIfLnk ||| 0o777) group i d) = some (.ok (), I₁, d₁) ∧
      addDirent g p (g.inodeNumber group i) name ext4FtSymlink
        (d.inodes p, d₁.setInode (g.inodeNumber group i) I₁) = some (.ok (), I', d') := by
  unfold ext4Symlink at h
  split at h
  · cases h
  case isFalse hlen =>
    obtain ⟨dir, name, p, hsplit, hparent, -, h⟩ := atParent_ok h
    obtain ⟨habsent, h⟩ := newName_ok h
    obtain ⟨⟨n, inode⟩, d₁, halloc, h⟩ := bind_eq_ok.1 h
    obtain ⟨⟨stored, I₁⟩, d₂, hstore, h⟩ := bind_eq_ok.1 h
    obtain ⟨⟨⟩, _, hundo, h⟩ := bind_eq_ok.1 h
    obtain ⟨rfl, rfl⟩ := orUndo_eq_ok.1 hundo
    obtain ⟨⟨r, I'⟩, d₃, henter, h⟩ := bind_eq_ok.1 h
    obtain ⟨rfl, rfl⟩ := orUndo_eq_ok.1 h
    obtain ⟨group, i, hfree, rfl, rfl, rfl⟩ := allocateInode_ok halloc
    exact ⟨by omega, p, name, group, i, I₁, d₂, I', ⟨⟨dir, hsplit, hparent⟩, habsent⟩, hfree,
      onCopy_eq_ok.1 hstore, (enterInode_ok (onCopy_eq_ok.1 henter)).2⟩

theorem writeInode_attempt {inode : Inode} {r : Except Status Unit} (hn : n ≠ 0)
    (h : (writeInode n inode).attempt d = some (.ok r, d')) : d' = d.setInode n inode := by
  rw [Prog.attempt_eq_ok, writeInode, if_neg hn] at h
  cases h
  rfl

theorem ext4Mkdir_ok (h : ext4Mkdir g path d = some (.ok (), d')) :
    ∃ p name group i I₁ d₁ I' d₂, FreshName g d path p name ∧ inodeIsDir (d.inodes p) = true ∧
      findFreeInode g d = some (group, i) ∧
      fillDir g (g.inodeNumber group i) p (newInode (ext4SIfdir ||| 0o755),
        startInode g (ext4SIfdir ||| 0o755) group i d) = some (.ok (), I₁, d₁) ∧
      addDirent g p (g.inodeNumber group i) name ext4FtDirectory
        (d.inodes p, d₁.setInode (g.inodeNumber group i) I₁) = some (.ok (), I', d₂) ∧
      d' = d₂.setInode p { I' with linksCount := u16 (I'.linksCount + 1) } := by
  obtain ⟨dir, name, p, hsplit, hparent, hp, h⟩ := atParent_ok h
  dsimp only at h
  split at h
  · cases h
  case isFalse hdir =>
    obtain ⟨habsent, h⟩ := newName_ok h
    obtain ⟨⟨n, inode⟩, d₁, halloc, h⟩ := bind_eq_ok.1 h
    obtain ⟨⟨filled, I₁⟩, d₂, hfill, h⟩ := bind_eq_ok.1 h
    obtain ⟨⟨⟩, _, hundo, h⟩ := bind_eq_ok.1 h
    obtain ⟨rfl, rfl⟩ := orUndo_eq_ok.1 hundo
    obtain ⟨⟨r, I'⟩, d₃, henter, h⟩ := bind_eq_ok.1 h
    obtain ⟨⟨⟩, _, hundo, h⟩ := bind_eq_ok.1 h
    obtain ⟨rfl, rfl⟩ := orUndo_eq_ok.1 hundo
    obtain ⟨r, d₄, hwrite, h⟩ := bind_eq_ok.1 h
    cases h
    obtain ⟨group, i, hfree, rfl, rfl, rfl⟩ := allocateInode_ok halloc
    exact ⟨p, name, group, i, I₁, d₂, I', d₃, ⟨⟨dir, hsplit, hparent⟩, habsent⟩,
      by simpa using hdir, hfree, onCopy_eq_ok.1 hfill,
      (enterInode_ok (onCopy_eq_ok.1 henter)).2, writeInode_attempt hp hwrite⟩

theorem ext4Link_ok {oldPath : List UInt8} (h : ext4Link g oldPath path d = some (.ok (), d')) :
    ∃ n p name I' d₁, lookupPath g oldPath d = some (.ok (n, d.inodes n)) ∧
      inodeIsDir (d.inodes n) = false ∧ FreshName g d path p name ∧
      addDirent g p n name (inodeFileType (d.inodes n)) (d.inodes p, d) = some (.ok (), I', d₁) ∧
      d' = d₁.setInode n
        { d.inodes n with linksCount := u16 ((d.inodes n).linksCount + 1) } := by
  obtain ⟨⟨n, inode⟩, _, hrun, h⟩ := bind_eq_ok.1 h
  obtain ⟨hold, rfl⟩ := query_eq_ok.1 hrun
  obtain ⟨hn, rfl⟩ := lookupPath_ok hold
  dsimp only at h
  split at h
  · cases h
  case isFalse hdir =>
    obtain ⟨dir, name, p, hsplit, hparent, -, h⟩ := atParent_ok h
    obtain ⟨habsent, h⟩ := newName_ok h
    obtain ⟨⟨⟨⟩, I'⟩, d₁, hadd, h⟩ := bind_eq_ok.1 h
    unfold writeInode at h
    rw [if_neg hn] at h
    cases h
    exact ⟨n, p, name, I', d₁, hold, by simpa using hdir, ⟨⟨dir, hsplit, hparent⟩, habsent⟩,
      passing_eq_ok.1 hadd, rfl⟩

theorem ext4Remove_ok (h : ext4Remove g path d = some (.ok (), d')) :
    ∃ p name n I' d₁, OldName g d path p name n ∧ n ≠ 0 ∧ inodeIsDir (d.inodes n) = false ∧
      removeDirent g p name (d.inodes p, d) = some (.ok (), I', d₁) ∧
      ((d.inodes n).linksCount ≤ 1 ∧
          dropInode g n { d.inodes n with linksCount := (d.inodes n).linksCount - 1 } d₁ =
            some (.ok (), d') ∨
        1 < (d.inodes n).linksCount ∧
          d' = d₁.setInode n { d.inodes n with linksCount := (d.inodes n).linksCount - 1 }) := by
  obtain ⟨dir, name, p, hsplit, hparent, -, h⟩ := atParent_ok h
  obtain ⟨n, _, hrun, h⟩ := bind_eq_ok.1 h
  obtain ⟨hchild, rfl⟩ := query_eq_ok.1 hrun
  obtain ⟨inode, _, hrun, h⟩ := bind_eq_ok.1 h
  obtain ⟨hread, rfl⟩ := query_eq_ok.1 hrun
  obtain ⟨hn, rfl⟩ := readInode_ok hread
  dsimp only at h
  split at h
  · cases h
  case isFalse hdir =>
    obtain ⟨⟨⟨⟩, I'⟩, d₁, hremove, h⟩ := bind_eq_ok.1 h
    refine ⟨p, name, n, I', d₁, ⟨⟨dir, hsplit, hparent⟩, hchild⟩, hn, by simpa using hdir,
      passing_eq_ok.1 hremove, ?_⟩
    split at h
    case isTrue hlast => exact .inl ⟨by omega, h⟩
    case isFalse hmore =>
      unfold writeInode at h
      rw [if_neg hn] at h
      cases h
      exact .inr ⟨by omega, rfl⟩

theorem ext4Rmdir_ok (h : ext4Rmdir g path d = some (.ok (), d')) :
    ∃ p name n I' d₁, OldName g d path p name n ∧ p ≠ 0 ∧ n ≠ 0 ∧
      inodeIsDir (d.inodes n) = true ∧ dirIsEmpty g (d.inodes n) d = some (.ok true) ∧
      removeDirent g p name (d.inodes p, d) = some (.ok (), I', d₁) ∧
      dropInode g n (d.inodes n)
        (d₁.setInode p { I' with linksCount := I'.linksCount - 1 }) = some (.ok (), d') := by
  unfold ext4Rmdir at h
  split at h
  · cases h
  · obtain ⟨dir, name, p, hsplit, hparent, hp, h⟩ := atParent_ok h
    obtain ⟨n, _, hrun, h⟩ := bind_eq_ok.1 h
    obtain ⟨hchild, rfl⟩ := query_eq_ok.1 hrun
    obtain ⟨inode, _, hrun, h⟩ := bind_eq_ok.1 h
    obtain ⟨hread, rfl⟩ := query_eq_ok.1 hrun
    obtain ⟨hn, rfl⟩ := readInode_ok hread
    split at h
    · cases h
    case isFalse hdir =>
      obtain ⟨empty, _, hrun, h⟩ := bind_eq_ok.1 h
      obtain ⟨hempty, rfl⟩ := query_eq_ok.1 hrun
      cases empty with
      | false => cases h
      | true =>
        obtain ⟨⟨⟨⟩, I'⟩, d₁, hremove, h⟩ := bind_eq_ok.1 h
        obtain ⟨r, d₂, hwrite, h⟩ := bind_eq_ok.1 h
        obtain rfl := writeInode_attempt hp hwrite
        exact ⟨p, name, n, I', d₁, ⟨⟨dir, hsplit, hparent⟩, hchild⟩, hp, hn, by simpa using hdir,
          hempty, passing_eq_ok.1 hremove, h⟩

variable {flags : Nat}

theorem findOrCreate_ok (h : findOrCreate g path flags d = some (.ok (n, I), d')) :
    lookupPath g path d = some (.ok (n, I)) ∧ d = d' ∨
      createFile g path d = some (.ok (n, I), d') := by
  obtain ⟨r, _, hquery, h⟩ := bind_eq_ok.1 h
  obtain ⟨hlookup, rfl⟩ := query_eq_ok.1 hquery
  obtain ⟨r', hfound, hr⟩ := Option.map_eq_some_iff.1 hlookup
  obtain rfl : r' = r := by simpa using hr
  cases r' with
  | ok file =>
    cases h
    exact .inl ⟨hfound, rfl⟩
  | error e =>
    dsimp only at h
    split at h
    · exact .inr h
    · cases h

/-- A file that is cut to nothing gives its blocks back, if it has a size. -/
theorem truncateInode_zero (hn : n ≠ 0) (h : truncateInode g n 0 (I, d) = some (.ok (), I', d')) :
    ∃ I₁ d₁, (freeInodeBlocks g 0 (I, d) = some (.ok (), I₁, d₁) ∨ I₁ = I ∧ d₁ = d) ∧
      I' = { inodeSetSize I₁ 0 with mtime := 1, ctime := 1 } ∧ d' = d₁.setInode n I' := by
  have hfirst : u32 (u64 (0 + g.blockSize - 1) / g.blockSize) = 0 := by
    have hsize := g.blockSize_eq
    rw [Nat.zero_add, u64, Nat.mod_eq_of_lt (by omega), Nat.div_eq_of_lt (by omega)]
    rfl
  obtain ⟨⟨⟩, ⟨I₁, d₁⟩, hblocks, h⟩ := Prog.bind_eq_ok.1 h
  obtain ⟨⟨⟩, s, hmodify, h⟩ := Prog.bind_eq_ok.1 h
  cases hmodify
  simp only [writeCopy, Prog.bind_apply, Prog.read_apply, runDisk_apply, writeInode, hn, if_false,
    Prog.modify_apply, Option.map_some, Option.some.injEq, Prod.mk.injEq] at h
  obtain ⟨-, rfl, rfl⟩ := h
  refine ⟨I₁, d₁, ?_, rfl, rfl⟩
  obtain ⟨s, _, hread, hblocks⟩ := Prog.bind_eq_ok.1 hblocks
  cases hread
  split at hblocks
  case isTrue =>
    rw [hfirst] at hblocks
    obtain ⟨⟨⟩, s, hfree, hblocks⟩ := Prog.bind_eq_ok.1 hblocks
    cases hblocks
    exact .inl hfree
  case isFalse =>
    cases hblocks
    exact .inr ⟨rfl, rfl⟩

theorem openInode_ok (h : openInode g path flags d = some (.ok (n, I), d')) :
    ∃ I₀ d₁, findOrCreate g path flags d = some (.ok (n, I₀), d₁) ∧ inodeIsReg I₀ = true ∧
      (truncateInode g n 0 (I₀, d₁) = some (.ok (), I, d') ∨ d₁ = d') := by
  obtain ⟨⟨k, I₀⟩, d₁, hfound, h⟩ := bind_eq_ok.1 h
  dsimp only at h
  split at h
  · cases h
  case isFalse hreg =>
    split at h
    case isTrue =>
      obtain ⟨⟨⟨⟩, I₁⟩, d₂, htruncate, h⟩ := bind_eq_ok.1 h
      cases h
      exact ⟨I₀, d₁, hfound, by simpa using hreg, .inl (passing_eq_ok.1 htruncate)⟩
    case isFalse =>
      cases h
      exact ⟨_, _, hfound, by simpa using hreg, .inr rfl⟩

end RadKernel.Ext4
