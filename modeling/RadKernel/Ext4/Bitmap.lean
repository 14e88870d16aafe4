import RadKernel.Ext4.Calls
import Mathlib.Data.List.Range

/-!
# The allocators

What `allocate_block`, `free_block`, `allocate_inode` and `free_inode` do to the volume, as
equations, and what that means for the bit of one block or inode. The bit of a block is
found from its number by `free_block` and the other way round by `allocate_block`; the two
agree on the blocks of the volume.
-/

namespace RadKernel.Ext4

open Kernel Prog

variable {g : Geometry} {d : Disk} {group i b c n : Nat}

def blockBit (g : Geometry) (d : Disk) (b : Nat) : Bool :=
  d.blockBitmap (g.blockGroup b) (g.blockIndex b)

def inodeBit (g : Geometry) (d : Disk) (n : Nat) : Bool :=
  d.inodeBitmap (g.inodeGroup n) (g.inodeIndex n)

/-- A block of the volume that is marked in use. -/
def Marked (g : Geometry) (d : Disk) (b : Nat) : Prop := b < g.totalBlocks ∧ blockBit g d b = true

namespace Geometry

theorem blockSize_pos (g : Geometry) : 0 < g.blockSize := by
  have := g.blockSize_eq
  omega

theorem sub32_eq (hb : b < 2 ^ 32) : sub32 b g.firstDataBlock =
    if g.firstDataBlock ≤ b then b - g.firstDataBlock else b + 2 ^ 32 - g.firstDataBlock := by
  have := g.firstDataBlock_lt
  unfold sub32 u32
  split <;> omega

theorem block_eq_of_bit (hb : b < g.totalBlocks) (hc : c < g.totalBlocks)
    (hgroup : g.blockGroup b = g.blockGroup c) (hindex : g.blockIndex b = g.blockIndex c) :
    b = c := by
  have hlt := g.totalBlocks_lt
  have hsub : sub32 b g.firstDataBlock = sub32 c g.firstDataBlock := by
    rw [← Nat.div_add_mod (sub32 b g.firstDataBlock) g.blocksPerGroup,
      ← Nat.div_add_mod (sub32 c g.firstDataBlock) g.blocksPerGroup]
    unfold blockGroup at hgroup
    unfold blockIndex at hindex
    rw [hgroup, hindex]
  have := g.firstDataBlock_lt
  rw [sub32_eq (by omega), sub32_eq (by omega)] at hsub
  split at hsub <;> split at hsub <;> omega

variable {m : Nat}

theorem div_mod_of_lt {k : Nat} (hi : i < k) : (m * k + i) / k = m ∧ (m * k + i) % k = i := by
  have hk : 0 < k := by omega
  rw [Nat.add_comm, Nat.add_mul_div_right _ _ hk, Nat.div_eq_of_lt hi, Nat.add_mul_mod_self_right,
    Nat.mod_eq_of_lt hi]
  simp

theorem bit_of_blockNumber (hi : i < g.blocksPerGroup)
    (hb : g.blockNumber group i < g.totalBlocks) :
    g.blockGroup (g.blockNumber group i) = group ∧ g.blockIndex (g.blockNumber group i) = i := by
  have hlt := g.totalBlocks_lt
  have hsub : sub32 (g.blockNumber group i) g.firstDataBlock = group * g.blocksPerGroup + i := by
    rw [sub32_eq (by omega)]
    unfold blockNumber
    split <;> omega
  unfold blockGroup blockIndex
  rw [hsub]
  exact div_mod_of_lt hi

theorem inodesPerGroup_le (hgroup : group < g.groupsCount) :
    group * g.inodesPerGroup + g.inodesPerGroup ≤ g.totalInodes := by
  have hle : (group + 1) * g.inodesPerGroup ≤ g.groupsCount * g.inodesPerGroup :=
    Nat.mul_le_mul_right _ hgroup
  have hfill : g.groupsCount * g.inodesPerGroup = g.totalInodes := g.inodes_fill
  rw [Nat.add_mul, Nat.one_mul] at hle
  omega

theorem bit_of_inodeNumber (hgroup : group < g.groupsCount) (hi : i < g.inodesPerGroup) :
    0 < g.inodeNumber group i ∧ g.inodeNumber group i ≤ g.totalInodes ∧
      g.inodeGroup (g.inodeNumber group i) = group ∧
      g.inodeIndex (g.inodeNumber group i) = i := by
  have hle := g.inodesPerGroup_le hgroup
  have hlt := g.totalInodes_lt
  have hn : g.inodeNumber group i = group * g.inodesPerGroup + i + 1 := by
    exact Nat.mod_eq_of_lt (by omega)
  have := div_mod_of_lt (m := group) hi
  unfold inodeGroup inodeIndex
  rw [hn, Nat.add_sub_cancel]
  exact ⟨by omega, by omega, this.1, this.2⟩

theorem inode_eq_of_bit (hn : 0 < n) (hm : 0 < m)
    (hgroup : g.inodeGroup n = g.inodeGroup m) (hindex : g.inodeIndex n = g.inodeIndex m) :
    n = m := by
  unfold inodeGroup at hgroup
  unfold inodeIndex at hindex
  have hpred : n - 1 = m - 1 := by
    rw [← Nat.div_add_mod (n - 1) g.inodesPerGroup, ← Nat.div_add_mod (m - 1) g.inodesPerGroup,
      hgroup, hindex]
  omega

end Geometry

theorem setBit_apply (bitmap : Nat → Nat → Bool) (group i gr k : Nat) (v : Bool) :
    setBit bitmap group i v gr k = if gr = group ∧ k = i then v else bitmap gr k := rfl

/-! ## Blocks -/

/-- A bit `allocate_block` finds belongs to a block of the volume and is clear, in a group
whose descriptor counts free blocks. -/
theorem findFreeBlock_some (h : findFreeBlock g d = some (group, i)) :
    g.blockNumber group i < g.totalBlocks ∧ g.blockGroup (g.blockNumber group i) = group ∧
      g.blockIndex (g.blockNumber group i) = i ∧ d.blockBitmap group i = false ∧
      (d.groups group).freeBlocks ≠ 0 := by
  obtain ⟨gr, hgr, hfind⟩ := List.exists_of_findSome?_eq_some h
  obtain ⟨k, hk, heq⟩ := Option.map_eq_some_iff.1 hfind
  cases heq
  unfold freeBlockIn at hk
  split at hk
  · cases hk
  case isFalse hcount =>
    have hmem := List.mem_range.1 (List.mem_of_find?_eq_some hk)
    have hp := List.find?_some hk
    simp only [Bool.not_eq_eq_eq_not, Bool.not_true, decide_eq_true_eq] at hp
    have hlt : i < g.blocksPerGroup := by
      unfold Geometry.blocksInGroup at hmem
      omega
    obtain ⟨hg, hidx⟩ := Geometry.bit_of_blockNumber hlt hp.1
    exact ⟨hp.1, hg, hidx, hp.2, hcount⟩

theorem allocateBlock_apply : allocateBlock g d =
    match findFreeBlock g d with
    | none => some (.error .noMemory, d)
    | some (group, i) => some (.ok (g.blockNumber group i), takeBlock g group i d) := by
  unfold allocateBlock
  rw [bind_apply]
  simp only [read_apply]
  cases findFreeBlock g d with
  | none => rfl
  | some found => rfl

section
variable (hfree : findFreeBlock g d = some (group, i))
include hfree

theorem blockBit_takeBlock (hb : b < g.totalBlocks) :
    blockBit g (takeBlock g group i d) b = (decide (b = g.blockNumber group i) || blockBit g d b) := by
  obtain ⟨hlt, hg, hidx, -, -⟩ := findFreeBlock_some hfree
  unfold blockBit takeBlock
  simp only [setBit_apply]
  by_cases heq : b = g.blockNumber group i
  · subst heq
    simp [hg, hidx]
  · have : ¬(g.blockGroup b = group ∧ g.blockIndex b = i) := fun ⟨h1, h2⟩ =>
      heq (Geometry.block_eq_of_bit hb hlt (h1.trans hg.symm) (h2.trans hidx.symm))
    simp [this, heq]

theorem blockBit_free : blockBit g d (g.blockNumber group i) = false := by
  obtain ⟨-, hg, hidx, hclear, -⟩ := findFreeBlock_some hfree
  unfold blockBit
  rw [hg, hidx, hclear]

theorem not_marked_free : ¬Marked g d (g.blockNumber group i) := by
  rintro ⟨-, hbit⟩
  rw [blockBit_free hfree] at hbit
  cases hbit

theorem marked_takeBlock :
    Marked g (takeBlock g group i d) b ↔ b = g.blockNumber group i ∨ Marked g d b := by
  obtain ⟨hlt, -, -, -, -⟩ := findFreeBlock_some hfree
  constructor
  · rintro ⟨hb, hbit⟩
    rw [blockBit_takeBlock hfree hb] at hbit
    simp only [Bool.or_eq_true, decide_eq_true_eq] at hbit
    exact hbit.imp_right fun h => ⟨hb, h⟩
  · rintro (rfl | ⟨hb, hbit⟩)
    · exact ⟨hlt, by simp [blockBit_takeBlock hfree hlt]⟩
    · exact ⟨hb, by simp [blockBit_takeBlock hfree hb, hbit]⟩

end

/-- `free_block` of a block of the volume: nothing when its bit is clear. -/
def release (g : Geometry) (b : Nat) (d : Disk) : Disk :=
  if blockBit g d b then releaseBlock (g.blockGroup b) (g.blockIndex b) d else d

theorem freeBlock_apply (hb : b < g.totalBlocks) :
    freeBlock g b d = some (.ok (), release g b d) := by
  unfold freeBlock
  rw [if_neg (by omega), bind_apply]
  simp only [read_apply, release, blockBit]
  by_cases hbit : d.blockBitmap (g.blockGroup b) (g.blockIndex b) = true
  · simp only [hbit, if_true]
    rfl
  · simp only [hbit]
    rfl

theorem blockBit_release (hb : b < g.totalBlocks) (hc : c < g.totalBlocks) :
    blockBit g (release g b d) c = (decide (c ≠ b) && blockBit g d c) := by
  unfold release
  split
  case isTrue hbit =>
    by_cases heq : c = b
    · subst heq
      simp [blockBit, releaseBlock, setBit_apply]
    · have : ¬(g.blockGroup c = g.blockGroup b ∧ g.blockIndex c = g.blockIndex b) :=
        fun ⟨h1, h2⟩ => heq (Geometry.block_eq_of_bit hc hb h1 h2)
      simp [blockBit, releaseBlock, setBit_apply, this, heq]
  case isFalse hbit =>
    by_cases heq : c = b
    · subst heq
      simpa using hbit
    · simp [heq]

@[simp] theorem release_inodes : (release g b d).inodes = d.inodes := by
  unfold release
  split <;> rfl

@[simp] theorem release_blocks : (release g b d).blocks = d.blocks := by
  unfold release
  split <;> rfl

@[simp] theorem release_inodeBitmap : (release g b d).inodeBitmap = d.inodeBitmap := by
  unfold release
  split <;> rfl

/-- Free every block of a list. -/
def releaseAll (g : Geometry) (bs : List Nat) (d : Disk) : Disk :=
  bs.foldl (fun d b => release g b d) d

@[simp] theorem releaseAll_nil : releaseAll g [] d = d := rfl

@[simp] theorem releaseAll_cons (bs : List Nat) :
    releaseAll g (b :: bs) d = releaseAll g bs (release g b d) := rfl

theorem releaseAll_append (bs cs : List Nat) :
    releaseAll g (bs ++ cs) d = releaseAll g cs (releaseAll g bs d) :=
  List.foldl_append

@[simp] theorem releaseAll_inodes (bs : List Nat) : (releaseAll g bs d).inodes = d.inodes := by
  induction bs generalizing d with
  | nil => rfl
  | cons b bs ih => simp [ih]

@[simp] theorem releaseAll_blocks (bs : List Nat) : (releaseAll g bs d).blocks = d.blocks := by
  induction bs generalizing d with
  | nil => rfl
  | cons b bs ih => simp [ih]

@[simp] theorem releaseAll_inodeBitmap (bs : List Nat) :
    (releaseAll g bs d).inodeBitmap = d.inodeBitmap := by
  induction bs generalizing d with
  | nil => rfl
  | cons b bs ih => simp [ih]

variable {bs : List Nat} {inode : Inode} {α : Type} {logical : Nat}

theorem blockBit_releaseAll (hbs : ∀ b ∈ bs, b < g.totalBlocks) (hc : c < g.totalBlocks) :
    blockBit g (releaseAll g bs d) c = (decide (c ∉ bs) && blockBit g d c) := by
  induction bs generalizing d with
  | nil => simp
  | cons b bs ih =>
    rw [releaseAll_cons, ih fun x hx => hbs x (List.mem_cons_of_mem _ hx),
      blockBit_release (hbs b List.mem_cons_self) hc]
    by_cases h1 : c = b <;> by_cases h2 : c ∈ bs <;> simp [h1, h2]

theorem marked_releaseAll (hbs : ∀ b ∈ bs, b < g.totalBlocks) :
    Marked g (releaseAll g bs d) c ↔ Marked g d c ∧ c ∉ bs := by
  constructor
  · rintro ⟨hc, hbit⟩
    rw [blockBit_releaseAll hbs hc] at hbit
    simp only [Bool.and_eq_true, decide_eq_true_eq] at hbit
    exact ⟨⟨hc, hbit.2⟩, hbit.1⟩
  · rintro ⟨⟨hc, hbit⟩, hmem⟩
    exact ⟨hc, by simp [blockBit_releaseAll hbs hc, hbit, hmem]⟩

/-! ## Inodes -/

theorem findFreeInode_some (h : findFreeInode g d = some (group, i)) :
    let n := g.inodeNumber group i
    0 < n ∧ n ≤ g.totalInodes ∧ g.inodeGroup n = group ∧ g.inodeIndex n = i ∧
      (g.firstIno ≤ n ∨ n = ext4RootInode) ∧ inodeBit g d n = false ∧
      (d.groups group).freeInodes ≠ 0 := by
  obtain ⟨gr, hgr, hfind⟩ := List.exists_of_findSome?_eq_some h
  obtain ⟨k, hk, heq⟩ := Option.map_eq_some_iff.1 hfind
  cases heq
  unfold freeInodeIn at hk
  split at hk
  · cases hk
  case isFalse hcount =>
    have hmem := List.mem_range.1 (List.mem_of_find?_eq_some hk)
    have hp := List.find?_some hk
    simp only [Bool.not_eq_eq_eq_not, Bool.not_true, decide_eq_true_eq] at hp
    have hlt : i < g.inodesPerGroup := by
      unfold Geometry.inodesInGroup at hmem
      omega
    obtain ⟨hpos, hle, hg, hidx⟩ := Geometry.bit_of_inodeNumber (List.mem_range.1 hgr) hlt
    refine ⟨hpos, hle, hg, hidx, hp.1, ?_, hcount⟩
    unfold inodeBit
    rw [hg, hidx]
    exact hp.2

/-- The volume after `allocate_inode` gave out the inode of a bit. -/
def startInode (g : Geometry) (mode group i : Nat) (d : Disk) : Disk :=
  (takeInode mode group i d).setInode (g.inodeNumber group i) (newInode mode)

theorem allocateInode_apply (mode : Nat) : allocateInode g mode d =
    match findFreeInode g d with
    | none => some (.error .noMemory, d)
    | some (group, i) =>
      some (.ok (g.inodeNumber group i, newInode mode), startInode g mode group i d) := by
  unfold allocateInode
  rw [bind_apply]
  simp only [read_apply]
  cases hfree : findFreeInode g d with
  | none => rfl
  | some found =>
    have hpos := (findFreeInode_some hfree).1
    simp only [bind_apply, modify_apply, writeInode, Nat.ne_of_gt hpos, if_false]
    rfl

theorem inodeBit_startInode {mode : Nat} (hfree : findFreeInode g d = some (group, i))
    (hn : 0 < n) :
    inodeBit g (startInode g mode group i d) n =
      (decide (n = g.inodeNumber group i) || inodeBit g d n) := by
  obtain ⟨hpos, -, hg, hidx, -, -, -⟩ := findFreeInode_some hfree
  unfold inodeBit startInode takeInode Disk.setInode
  simp only [setBit_apply]
  by_cases heq : n = g.inodeNumber group i
  · subst heq
    simp [hg, hidx]
  · have : ¬(g.inodeGroup n = group ∧ g.inodeIndex n = i) := fun ⟨h1, h2⟩ =>
      heq (Geometry.inode_eq_of_bit hn hpos (h1.trans hg.symm) (h2.trans hidx.symm))
    simp [this, heq]

/-- The volume after `free_inode` of an inode it accepts. -/
def endInode (g : Geometry) (n : Nat) (inode : Inode) (d : Disk) : Disk :=
  (if inodeBit g d n then releaseInode inode (g.inodeGroup n) (g.inodeIndex n) d else d).setInode n {}

theorem freeInode_apply (hn : 0 < n) (hfirst : g.firstIno ≤ n) (hlast : n ≤ g.totalInodes) :
    freeInode g n inode d = some (.ok (), endInode g n inode d) := by
  unfold freeInode endInode inodeBit
  rw [if_neg (by omega), bind_apply]
  simp only [read_apply]
  split <;> simp [bind_apply, modify_apply, writeInode, Nat.ne_of_gt hn]

theorem freeInode_reserved (h : n < g.firstIno ∨ g.totalInodes < n) :
    freeInode g n inode d = some (.error .invalidArgument, d) := by
  unfold freeInode
  rw [if_pos h]
  rfl

theorem inodeBit_endInode {m : Nat} (hn : 0 < n) (hm : 0 < m) :
    inodeBit g (endInode g n inode d) m = (decide (m ≠ n) && inodeBit g d m) := by
  unfold endInode
  split
  case isTrue hbit =>
    by_cases heq : m = n
    · subst heq
      simp [inodeBit, releaseInode, Disk.setInode, setBit_apply]
    · have : ¬(g.inodeGroup m = g.inodeGroup n ∧ g.inodeIndex m = g.inodeIndex n) :=
        fun ⟨h1, h2⟩ => heq (Geometry.inode_eq_of_bit hm hn h1 h2)
      simp [inodeBit, releaseInode, Disk.setInode, setBit_apply, this, heq]
  case isFalse hbit =>
    by_cases heq : m = n
    · subst heq
      simpa [inodeBit, Disk.setInode] using hbit
    · simp [inodeBit, Disk.setInode, heq]

@[simp] theorem endInode_blocks : (endInode g n inode d).blocks = d.blocks := by
  unfold endInode
  split <;> rfl

@[simp] theorem endInode_inodes :
    (endInode g n inode d).inodes = Function.update d.inodes n {} := by
  unfold endInode
  split <;> rfl

@[simp] theorem marked_endInode : Marked g (endInode g n inode d) b ↔ Marked g d b := by
  unfold endInode
  split <;> rfl

/-! ## Mapping a block of a file -/

/-- Everything `ensure_inode_block` can do, by its outcome. -/
inductive EnsureStep (g : Geometry) (logical : Nat) (inode : Inode) (d : Disk) :
    Except Status Nat → Inode → Disk → Prop
  | unreadable {status : Status}
      (hfile : fileBlockNumber inode logical d = some (.error status)) :
      EnsureStep g logical inode d (.error status) inode d
  | found {b : Nat} (hfile : fileBlockNumber inode logical d = some (.ok b)) (hb : b ≠ 0) :
      EnsureStep g logical inode d (.ok b) inode d
  | full (hfile : fileBlockNumber inode logical d = some (.ok 0))
      (hfree : findFreeBlock g d = none) :
      EnsureStep g logical inode d (.error .noMemory) inode d
  | refused {group i : Nat} {status : Status}
      (hfile : fileBlockNumber inode logical d = some (.ok 0))
      (hfree : findFreeBlock g d = some (group, i))
      (hset : setInodeBlock g inode logical (g.blockNumber group i) = .error status) :
      EnsureStep g logical inode d (.error status) inode
        (release g (g.blockNumber group i) (takeBlock g group i d))
  | added {group i : Nat} {inode' : Inode}
      (hfile : fileBlockNumber inode logical d = some (.ok 0))
      (hfree : findFreeBlock g d = some (group, i))
      (hset : setInodeBlock g inode logical (g.blockNumber group i) = .ok inode') :
      EnsureStep g logical inode d (.ok (g.blockNumber group i)) inode' (takeBlock g group i d)

theorem runDisk_apply (x : DiskM α) (inode : Inode) :
    runDisk x (inode, d) = (x d).map fun out => (out.1, inode, out.2) := rfl

theorem queryDisk_apply (q : DiskQ α) (inode : Inode) :
    queryDisk q (inode, d) = (q d).map fun r => (r, inode, d) := rfl

theorem ensureInodeBlock_apply :
    ensureInodeBlock g logical (inode, d) =
    match fileBlockNumber inode logical d with
    | none => none
    | some (.error status) => some (.error status, inode, d)
    | some (.ok b) =>
      if b ≠ 0 then some (.ok b, inode, d)
      else
        match findFreeBlock g d with
        | none => some (.error .noMemory, inode, d)
        | some (group, i) =>
          match setInodeBlock g inode logical (g.blockNumber group i) with
          | .error status => some (.error status, inode,
              release g (g.blockNumber group i) (takeBlock g group i d))
          | .ok inode' => some (.ok (g.blockNumber group i), inode', takeBlock g group i d) := by
  unfold ensureInodeBlock
  simp only [bind_apply, read_apply, queryDisk_apply]
  cases hfile : fileBlockNumber inode logical d with
  | none => rfl
  | some out =>
    cases out with
    | error status => rfl
    | ok b =>
      simp only [Option.map_some]
      split
      · rfl
      · simp only [bind_apply, runDisk_apply, allocateBlock_apply]
        cases hfree : findFreeBlock g d with
        | none => rfl
        | some found =>
          obtain ⟨group, i⟩ := found
          have hlt := (findFreeBlock_some hfree).1
          simp only [Option.map_some]
          cases hset : setInodeBlock g inode logical (g.blockNumber group i) with
          | error status =>
            simp only [bind_apply, Prog.attempt, runDisk_apply, freeBlock_apply hlt,
              Option.map_some, fail_apply]
          | ok J => rfl

theorem ensureInodeBlock_step {inode' : Inode} {d' : Disk}
    {r : Except Status Nat} (h : ensureInodeBlock g logical (inode, d) = some (r, inode', d')) :
    EnsureStep g logical inode d r inode' d' := by
  rw [ensureInodeBlock_apply] at h
  split at h
  · cases h
  case h_2 status hfile =>
    cases h
    exact .unreadable hfile
  case h_3 b hfile =>
    split at h
    case isTrue hb =>
      cases h
      exact .found hfile hb
    case isFalse hb =>
      rw [not_not] at hb
      subst hb
      split at h
      case h_1 hfree =>
        cases h
        exact .full hfile hfree
      case h_2 group i hfree =>
        split at h
        case h_1 status hset =>
          cases h
          exact .refused hfile hfree hset
        case h_2 inode'' hset =>
          cases h
          exact .added hfile hfree hset

end RadKernel.Ext4
