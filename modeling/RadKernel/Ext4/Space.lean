import RadKernel.Ext4.Hostile
import RadKernel.Lib.Pool

/-!
# The free counts of a mounted volume

`allocate_block`, `free_block`, `allocate_inode` and `free_inode` with the numbers of any superblock
that `x86_ext4_mount_root` accepts. On a geometry whose groups are full of inodes they are the
functions of `Ext4.Disk`.

The bits of a group lie in one block, which the parts of a `Disk` leave out; that they fit is a
condition of its own here, as is that the blocks which hold the other parts are never freed.
-/

namespace RadKernel.Ext4.Space

open Kernel Image Function Prog
open Finset (mem_filter mem_range)

section

variable (c : Context)

def blockNumber (group i : Nat) : Nat := group * c.blocksPerGroup + i + c.firstDataBlock

def inodeNumber (group i : Nat) : Nat := u32 (group * c.inodesPerGroup + i + 1)

def blocksInGroup (group : Nat) : Nat :=
  min c.blocksPerGroup (sub32 c.totalBlocks (group * c.blocksPerGroup))

def inodesInGroup (group : Nat) : Nat :=
  min c.inodesPerGroup (sub32 c.totalInodes (group * c.inodesPerGroup))

def blockGroup (b : Nat) : Nat := sub32 b c.firstDataBlock / c.blocksPerGroup
def blockIndex (b : Nat) : Nat := sub32 b c.firstDataBlock % c.blocksPerGroup

def inodeGroup (n : Nat) : Nat := sub32 n 1 / c.inodesPerGroup
def inodeIndex (n : Nat) : Nat := sub32 n 1 % c.inodesPerGroup

def freeBlockIn (d : Disk) (group : Nat) : Option Nat :=
  if (d.groups group).freeBlocks = 0 then none
  else (List.range (blocksInGroup c group)).find? fun i =>
    blockNumber c group i < c.totalBlocks ∧ !d.blockBitmap group i

def findFreeBlock (d : Disk) : Option (Nat × Nat) :=
  (List.range c.groupsCount).findSome? fun group => (freeBlockIn c d group).map (group, ·)

def takeBlock (group i : Nat) (d : Disk) : Disk :=
  let desc := d.groups group
  { d with
    blockBitmap := setBit d.blockBitmap group i true
    groups := Function.update d.groups group { desc with freeBlocks := desc.freeBlocks - 1 }
    freeBlocks := d.freeBlocks - 1
    blocks := Function.update d.blocks (blockNumber c group i)
      (overlay (d.blocks (blockNumber c group i)) 0 c.blockSize fun _ => 0) }

def allocateBlock : DiskM Nat := do
  let d ← Prog.read
  match findFreeBlock c d with
  | none => Prog.fail .noMemory
  | some (group, i) =>
    Prog.modify (takeBlock c group i)
    return blockNumber c group i

def freeBlock (b : Nat) : DiskM Unit := do
  if c.totalBlocks ≤ b then Prog.fail .invalidArgument
  else
    let d ← Prog.read
    if d.blockBitmap (blockGroup c b) (blockIndex c b) then
      Prog.modify (releaseBlock (blockGroup c b) (blockIndex c b))

def freeInodeIn (d : Disk) (group : Nat) : Option Nat :=
  if (d.groups group).freeInodes = 0 then none
  else (List.range (inodesInGroup c group)).find? fun i =>
    (c.firstIno ≤ inodeNumber c group i ∨ inodeNumber c group i = ext4RootInode) ∧
      !d.inodeBitmap group i

def findFreeInode (d : Disk) : Option (Nat × Nat) :=
  (List.range c.groupsCount).findSome? fun group => (freeInodeIn c d group).map (group, ·)

def allocateInode (mode : Nat) : DiskM (Nat × Ext4.Inode) := do
  let d ← Prog.read
  match findFreeInode c d with
  | none => Prog.fail .noMemory
  | some (group, i) =>
    Prog.modify (takeInode mode group i)
    writeInode (inodeNumber c group i) (newInode mode)
    return (inodeNumber c group i, newInode mode)

def freeInode (n : Nat) (inode : Ext4.Inode) : DiskM Unit := do
  if n < c.firstIno ∨ c.totalInodes < n then Prog.fail .invalidArgument
  else
    let d ← Prog.read
    if d.inodeBitmap (inodeGroup c n) (inodeIndex c n) then
      Prog.modify (releaseInode inode (inodeGroup c n) (inodeIndex c n))
    writeInode n {}

/-! ## Runs of calls -/

inductive Call where
  | allocateBlock
  | freeBlock (b : Nat)
  | allocateInode (mode : Nat)
  | freeInode (n : Nat) (inode : Ext4.Inode)

def perform : Call → DiskM Unit
  | .allocateBlock => do
    let _ ← allocateBlock c
    return ()
  | .freeBlock b => freeBlock c b
  | .allocateInode mode => do
    let _ ← allocateInode c mode
    return ()
  | .freeInode n inode => freeInode c n inode

/-- The volumes a run of calls leads to, with `P` of every call and the volume it finds. -/
inductive Reached (P : Disk → Call → Prop) (start : Disk) : Disk → Prop
  | start : Reached P start start
  | call {d d' : Disk} {call : Call} {out : Except Status Unit} (before : Reached P start d)
      (hp : P d call) (run : perform c call d = some (out, d')) : Reached P start d'

/-! ## The accounts -/

/-- The bits of a group that stand for blocks of the volume. -/
def validBlocks (group : Nat) : Finset Nat :=
  (Finset.range c.blocksPerGroup).filter fun i => blockNumber c group i < c.totalBlocks

def validInodes (group : Nat) : Finset Nat :=
  (Finset.range c.inodesPerGroup).filter fun i => group * c.inodesPerGroup + i < c.totalInodes

/-- Every count is the number of clear bits it stands for. -/
structure Accounts (d : Disk) : Prop where
  blocks : Pool.Balanced (validBlocks c) c.groupsCount d.blockBitmap
    (fun group => (d.groups group).freeBlocks) d.freeBlocks
  inodes : Pool.Balanced (validInodes c) c.groupsCount d.inodeBitmap
    (fun group => (d.groups group).freeInodes) d.freeInodes

def blockBit (d : Disk) (b : Nat) : Bool := d.blockBitmap (blockGroup c b) (blockIndex c b)

def inodeBit (d : Disk) (n : Nat) : Bool := d.inodeBitmap (inodeGroup c n) (inodeIndex c n)

/-- The bits of a group fit into the block of its bitmap, and no group starts behind the last
inode. -/
structure Fits : Prop where
  blocks : c.blocksPerGroup ≤ 8 * c.blockSize
  inodes : c.inodesPerGroup ≤ 8 * c.blockSize
  groups : ∀ group < c.groupsCount, group * c.inodesPerGroup ≤ c.totalInodes

/-- A number that is freed belongs to one of the groups, and to none of the blocks in `held`, which
hold the superblock, the descriptors, the bitmaps and the inode tables. -/
def Meets (held : Nat → Prop) (_ : Disk) : Call → Prop
  | .freeBlock b => b < c.totalBlocks →
    c.firstDataBlock ≤ b ∧ blockGroup c b < c.groupsCount ∧ ¬held b
  | .freeInode n _ => c.firstIno ≤ n → n ≤ c.totalInodes → n ≠ 0 ∧ inodeGroup c n < c.groupsCount
  | _ => True

/-- `allocate_block` returns the block after some calls of it. -/
def ReturnsAgain (b : Nat) (d : Disk) : Prop :=
  ∃ d₁ d₂, Reached c (fun _ call => call = .allocateBlock) d d₁ ∧
    allocateBlock c d₁ = some (.ok b, d₂)

/-- What holds between any two calls. -/
structure Accountable (held : Nat → Prop) (d : Disk) : Prop where
  accounts : Accounts c d
  block : ∀ b d', allocateBlock c d = some (.ok b, d') →
    c.firstDataBlock ≤ b ∧ b < c.totalBlocks ∧ blockBit c d b = false ∧ ¬held b
  inode : ∀ mode n I d', allocateInode c mode d = some (.ok (n, I), d') →
    0 < n ∧ n ≤ c.totalInodes ∧ inodeBit c d n = false ∧ (c.firstIno ≤ n ∨ n = ext4RootInode)
  again : ∀ b d', Meets c held d (.freeBlock b) → freeBlock c b d = some (.ok (), d') →
    ReturnsAgain c b d'

end

/-! ## The functions of `Ext4.Disk` -/

def ofGeometry (g : Geometry) : Context where
  blockSize := g.blockSize
  inodeSize := 256
  inodesPerGroup := g.inodesPerGroup
  blocksPerGroup := g.blocksPerGroup
  totalBlocks := g.totalBlocks
  totalInodes := g.totalInodes
  groupsCount := g.groupsCount
  groupDescSize := 32
  groupDescOffset := if g.blockSize = 1024 then 2048 else g.blockSize
  firstDataBlock := g.firstDataBlock
  firstIno := g.firstIno

section
variable (g : Geometry)
include g

theorem allocateBlock_ofGeometry :
    allocateBlock (ofGeometry g) = Ext4.allocateBlock g := rfl

theorem freeBlock_ofGeometry (b : Nat) :
    freeBlock (ofGeometry g) b = Ext4.freeBlock g b := rfl

theorem allocateInode_ofGeometry (mode : Nat) :
    allocateInode (ofGeometry g) mode = Ext4.allocateInode g mode := rfl

theorem freeInode_ofGeometry (hn : 0 < n) (inode : Ext4.Inode) :
    freeInode (ofGeometry g) n inode = Ext4.freeInode g n inode := by
  by_cases hlast : g.totalInodes < n
  · unfold freeInode Ext4.freeInode
    have hsame : (ofGeometry g).totalInodes = g.totalInodes := rfl
    rw [if_pos (.inr (hsame ▸ hlast)), if_pos (.inr hlast)]
  · have hpred : sub32 n 1 = n - 1 := by
      have := g.totalInodes_lt
      unfold sub32 u32
      omega
    unfold freeInode Ext4.freeInode inodeGroup inodeIndex Geometry.inodeGroup Geometry.inodeIndex
    rw [hpred]
    rfl

end

/-! ## Numbers of a mounted volume -/

/-- What `x86_ext4_mount_root` has checked, and what the fields of the superblock can hold. -/
structure Mounted (c : Context) : Prop where
  blockSize : c.blockSize ≤ maxBlockSize
  blocksPerGroup : 0 < c.blocksPerGroup
  inodesPerGroup : 0 < c.inodesPerGroup
  totalBlocks : c.totalBlocks < 2 ^ 32
  totalInodes : c.totalInodes < 2 ^ 32
  firstDataBlock : c.firstDataBlock < 2 ^ 32

variable {c : Context} {dev : Device} {d d' : Disk} {held : Nat → Prop} {group i b n mode : Nat}
  {inode : Ext4.Inode}

theorem le32_lt (f : Nat → UInt8) (i : Nat) : le32 f i < 2 ^ 32 := by
  have h0 := (f i).toNat_lt
  have h1 := (f (i + 1)).toNat_lt
  have h2 := (f (i + 2)).toNat_lt
  have h3 := (f (i + 2 + 1)).toNat_lt
  unfold le32 le16
  omega

theorem mounted_of_mountRoot (h : mountRoot dev = .ok c) : Mounted c := by
  unfold mountRoot at h
  simp only [bind, Except.bind] at h
  split at h
  · cases h
  case h_2 super _ =>
    split at h
    · cases h
    · split at h
      · cases h
      case isFalse hsize =>
        split at h
        · cases h
        case isFalse hcounts =>
          cases h
          obtain ⟨-, hsize, -⟩ : _ ∧ _ ∧ _ := ⟨fun h => hsize (.inl h),
            fun h => hsize (.inr (.inl h)), fun h => hsize (.inr (.inr h))⟩
          exact {
            blockSize := Nat.le_of_not_lt hsize
            blocksPerGroup := Nat.pos_of_ne_zero fun h => hcounts (.inl h)
            inodesPerGroup := Nat.pos_of_ne_zero fun h => hcounts (.inr (.inl h))
            totalBlocks := le32_lt ..
            totalInodes := le32_lt ..
            firstDataBlock := le32_lt .. }

theorem validBlock_lt (hi : i ∈ validBlocks c group) :
    i < c.blocksPerGroup ∧ group * c.blocksPerGroup + i < c.totalBlocks := by
  obtain ⟨hwidth, hlt⟩ := mem_filter.1 hi
  unfold blockNumber at hlt
  exact ⟨mem_range.1 hwidth, by omega⟩

theorem validInode_lt (hi : i ∈ validInodes c group) :
    i < c.inodesPerGroup ∧ group * c.inodesPerGroup + i < c.totalInodes := by
  obtain ⟨hwidth, hlt⟩ := mem_filter.1 hi
  exact ⟨mem_range.1 hwidth, hlt⟩

namespace Mounted

theorem sub32_eq {a : Nat} (hle : b ≤ a) (ha : a < 2 ^ 32) : sub32 a b = a - b := by
  unfold sub32 u32
  omega

section
variable (h : Mounted c)
include h

theorem bit_of_blockNumber (hi : i ∈ validBlocks c group) :
    blockGroup c (blockNumber c group i) = group ∧ blockIndex c (blockNumber c group i) = i := by
  obtain ⟨hi, hlt⟩ := mem_filter.1 hi
  rw [mem_range] at hi
  have hle : c.firstDataBlock ≤ blockNumber c group i := by
    unfold blockNumber
    omega
  have htotal := h.totalBlocks
  have hsub : sub32 (blockNumber c group i) c.firstDataBlock = c.blocksPerGroup * group + i := by
    rw [sub32_eq hle (by omega), Nat.mul_comm]
    unfold blockNumber
    omega
  unfold blockGroup blockIndex
  rw [hsub, Nat.mul_add_div h.blocksPerGroup, Nat.div_eq_of_lt hi, Nat.mul_add_mod,
    Nat.mod_eq_of_lt hi]
  exact ⟨rfl, rfl⟩

theorem blockNumber_of_bit (hb : b < c.totalBlocks) (hfirst : c.firstDataBlock ≤ b) :
    blockNumber c (blockGroup c b) (blockIndex c b) = b ∧
      blockIndex c b ∈ validBlocks c (blockGroup c b) := by
  have htotal := h.totalBlocks
  have hdiv := Nat.div_add_mod (b - c.firstDataBlock) c.blocksPerGroup
  have hnumber : blockNumber c (blockGroup c b) (blockIndex c b) = b := by
    unfold blockNumber blockGroup blockIndex
    rw [sub32_eq hfirst (by omega), Nat.mul_comm]
    omega
  refine ⟨hnumber, mem_filter.2 ⟨mem_range.2 (Nat.mod_lt _ h.blocksPerGroup), ?_⟩⟩
  rw [hnumber]
  exact hb

theorem bit_of_inodeNumber (hi : i ∈ validInodes c group) :
    inodeNumber c group i = group * c.inodesPerGroup + i + 1 ∧
      inodeGroup c (inodeNumber c group i) = group ∧
      inodeIndex c (inodeNumber c group i) = i := by
  obtain ⟨hi, hlt⟩ := mem_filter.1 hi
  rw [mem_range] at hi
  have htotal := h.totalInodes
  have hnumber : inodeNumber c group i = group * c.inodesPerGroup + i + 1 :=
    Nat.mod_eq_of_lt (by omega)
  have hsub : sub32 (inodeNumber c group i) 1 = c.inodesPerGroup * group + i := by
    rw [hnumber, sub32_eq (by omega) (by omega), Nat.mul_comm]
    omega
  unfold inodeGroup inodeIndex
  rw [hsub, Nat.mul_add_div h.inodesPerGroup, Nat.div_eq_of_lt hi, Nat.mul_add_mod,
    Nat.mod_eq_of_lt hi]
  exact ⟨hnumber, rfl, rfl⟩

theorem validInode_of_bit (hn : n ≠ 0) (hlast : n ≤ c.totalInodes) :
    inodeIndex c n ∈ validInodes c (inodeGroup c n) := by
  have htotal := h.totalInodes
  have hdiv := Nat.div_add_mod (n - 1) c.inodesPerGroup
  unfold inodeIndex inodeGroup
  rw [sub32_eq (by omega) (by omega)]
  refine mem_filter.2 ⟨mem_range.2 (Nat.mod_lt _ h.inodesPerGroup), ?_⟩
  rw [Nat.mul_comm]
  omega

end

end Mounted

/-! ## The searches -/

theorem findFreeBlock_some (h : findFreeBlock c d = some (group, i)) :
    group < c.groupsCount ∧ i ∈ validBlocks c group ∧ d.blockBitmap group i = false := by
  obtain ⟨gr, hgr, hfind⟩ := List.exists_of_findSome?_eq_some h
  obtain ⟨k, hk, heq⟩ := Option.map_eq_some_iff.1 hfind
  cases heq
  unfold freeBlockIn at hk
  split at hk
  · cases hk
  · have hmem := List.mem_range.1 (List.mem_of_find?_eq_some hk)
    have hp := List.find?_some hk
    simp only [Bool.not_eq_eq_eq_not, Bool.not_true, decide_eq_true_eq] at hp
    refine ⟨List.mem_range.1 hgr, mem_filter.2 ⟨mem_range.2 ?_, hp.1⟩, hp.2⟩
    exact hmem.trans_le (Nat.min_le_left ..)

theorem findFreeBlock_ne_none (hm : Mounted c) (h : Accounts c d) (hgroup : group < c.groupsCount)
    (hi : i ∈ validBlocks c group) (hclear : d.blockBitmap group i = false) :
    findFreeBlock c d ≠ none := by
  intro hnone
  have hin := List.findSome?_eq_none_iff.1 hnone group (List.mem_range.2 hgroup)
  rw [Option.map_eq_none_iff] at hin
  have hpos := h.blocks.pos hgroup hi hclear
  unfold freeBlockIn at hin
  rw [if_neg (by omega), List.find?_eq_none] at hin
  obtain ⟨hwidth, hlt⟩ := mem_filter.1 hi
  rw [mem_range] at hwidth
  have htotal := hm.totalBlocks
  have hstart : group * c.blocksPerGroup ≤ c.totalBlocks := by
    unfold blockNumber at hlt
    omega
  have hbits : i < blocksInGroup c group := by
    unfold blocksInGroup
    rw [Mounted.sub32_eq hstart htotal]
    unfold blockNumber at hlt
    omega
  exact hin i (List.mem_range.2 hbits) (by simp [hlt, hclear])

theorem findFreeInode_some (hm : Mounted c) (hfits : Fits c)
    (h : findFreeInode c d = some (group, i)) :
    group < c.groupsCount ∧ i ∈ validInodes c group ∧ d.inodeBitmap group i = false ∧
      (c.firstIno ≤ inodeNumber c group i ∨ inodeNumber c group i = ext4RootInode) := by
  obtain ⟨gr, hgr, hfind⟩ := List.exists_of_findSome?_eq_some h
  obtain ⟨k, hk, heq⟩ := Option.map_eq_some_iff.1 hfind
  cases heq
  unfold freeInodeIn at hk
  split at hk
  · cases hk
  · have hmem := List.mem_range.1 (List.mem_of_find?_eq_some hk)
    have hp := List.find?_some hk
    simp only [Bool.not_eq_eq_eq_not, Bool.not_true, decide_eq_true_eq] at hp
    rw [List.mem_range] at hgr
    have hstart := hfits.groups group hgr
    have htotal := hm.totalInodes
    unfold inodesInGroup at hmem
    rw [Mounted.sub32_eq hstart htotal] at hmem
    refine ⟨hgr, mem_filter.2 ⟨mem_range.2 (by omega), by omega⟩, hp.2, hp.1⟩

/-! ## Every function keeps the accounts -/

theorem setBit_eq_put (bitmap : Nat → Nat → Bool) (v : Bool) :
    setBit bitmap group i v = Pool.put bitmap group i v := by
  funext gr k
  unfold setBit Pool.put
  by_cases hgr : gr = group
  · subst hgr
    by_cases hk : k = i
    · simp [hk]
    · simp [hk]
  · simp [hgr]

theorem counts_update (groups : Nat → Ext4.GroupDesc) (group : Nat) (desc : Ext4.GroupDesc)
    (field : Ext4.GroupDesc → Nat) : (fun k => field (update groups group desc k)) =
      update (fun k => field (groups k)) group (field desc) := by
  funext k
  by_cases hk : k = group
  · subst hk
    simp
  · simp [hk]

namespace Accounts

section
variable (h : Accounts c d)
include h

theorem takeBlock (hgroup : group < c.groupsCount) (hi : i ∈ validBlocks c group)
    (hclear : d.blockBitmap group i = false) : Accounts c (takeBlock c group i d) where
  blocks := by
    have htake := h.blocks.take hgroup hi hclear
    unfold Space.takeBlock
    simp only [setBit_eq_put, counts_update]
    exact htake
  inodes := by
    unfold Space.takeBlock
    simp only [counts_update, update_eq_self]
    exact h.inodes

theorem takeInode (hgroup : group < c.groupsCount)
    (hi : i ∈ validInodes c group) (hclear : d.inodeBitmap group i = false) (mode : Nat) :
    Accounts c (takeInode mode group i d) where
  blocks := by
    unfold Ext4.takeInode
    simp only [counts_update, update_eq_self]
    exact h.blocks
  inodes := by
    have htake := h.inodes.take hgroup hi hclear
    unfold Ext4.takeInode
    simp only [setBit_eq_put, counts_update]
    exact htake

section
variable (hm : Mounted c) (hfits : Fits c) (hgroup : group < c.groupsCount)
include hm hfits hgroup

/-- The counts fit into 16 and 32 bits. -/
theorem releaseBlock (hi : i ∈ validBlocks c group)
    (hset : d.blockBitmap group i = true) : Accounts c (releaseBlock group i d) where
  blocks := by
    have hgive := h.blocks.give hgroup hi hset
    have hcount := hgive.count_le hgroup fun k hk => (validBlock_lt hk).1
    have htotal := hgive.total_le fun _ _ => validBlock_lt
    rw [update_self] at hcount
    have hblocks := hfits.blocks
    have hsize := hm.blockSize
    have hlimit := hm.totalBlocks
    have h16 : u16 ((d.groups group).freeBlocks + 1) = (d.groups group).freeBlocks + 1 := by
      unfold maxBlockSize at hsize
      exact Nat.mod_eq_of_lt (by omega)
    have h32 : u32 (d.freeBlocks + 1) = d.freeBlocks + 1 := Nat.mod_eq_of_lt (by omega)
    unfold Ext4.releaseBlock
    simp only [setBit_eq_put, counts_update, h16, h32]
    exact hgive
  inodes := by
    unfold Ext4.releaseBlock
    simp only [counts_update, update_eq_self]
    exact h.inodes

theorem releaseInode (hi : i ∈ validInodes c group)
    (hset : d.inodeBitmap group i = true) (inode : Ext4.Inode) :
    Accounts c (releaseInode inode group i d) where
  blocks := by
    unfold Ext4.releaseInode
    simp only [counts_update, update_eq_self]
    exact h.blocks
  inodes := by
    have hgive := h.inodes.give hgroup hi hset
    have hcount := hgive.count_le hgroup fun k hk => (validInode_lt hk).1
    have htotal := hgive.total_le fun _ _ => validInode_lt
    rw [update_self] at hcount
    have hinodes := hfits.inodes
    have hsize := hm.blockSize
    have hlimit := hm.totalInodes
    have h16 : u16 ((d.groups group).freeInodes + 1) = (d.groups group).freeInodes + 1 := by
      unfold maxBlockSize at hsize
      exact Nat.mod_eq_of_lt (by omega)
    have h32 : u32 (d.freeInodes + 1) = d.freeInodes + 1 := Nat.mod_eq_of_lt (by omega)
    unfold Ext4.releaseInode
    simp only [setBit_eq_put, counts_update, h16, h32]
    exact hgive

end

theorem setInode : Accounts c (d.setInode n inode) := ⟨h.blocks, h.inodes⟩

end

end Accounts

/-! ## Runs -/

theorem allocateBlock_apply : allocateBlock c d =
    match findFreeBlock c d with
    | none => some (.error .noMemory, d)
    | some (group, i) => some (.ok (blockNumber c group i), takeBlock c group i d) := by
  unfold allocateBlock
  rw [bind_apply]
  simp only [read_apply]
  cases findFreeBlock c d with
  | none => rfl
  | some found => rfl

theorem freeBlock_apply (hb : b < c.totalBlocks) : freeBlock c b d =
    some (.ok (), if blockBit c d b = true then releaseBlock (blockGroup c b) (blockIndex c b) d
      else d) := by
  unfold freeBlock
  rw [if_neg (by omega), bind_apply]
  simp only [read_apply, blockBit]
  by_cases hbit : d.blockBitmap (blockGroup c b) (blockIndex c b) = true
  · simp only [hbit, if_true]
    rfl
  · simp only [hbit]
    rfl

theorem allocateInode_apply : allocateInode c mode d =
    match findFreeInode c d with
    | none => some (.error .noMemory, d)
    | some (group, i) =>
      (writeInode (inodeNumber c group i) (newInode mode) (takeInode mode group i d)).map fun out =>
        (out.1.map fun _ => (inodeNumber c group i, newInode mode), out.2) := by
  unfold allocateInode
  rw [bind_apply]
  simp only [read_apply]
  cases findFreeInode c d with
  | none => rfl
  | some found =>
    obtain ⟨group, i⟩ := found
    simp only [bind_apply, modify_apply]
    cases writeInode (inodeNumber c group i) (newInode mode) (takeInode mode group i d) with
    | none => rfl
    | some out =>
      obtain ⟨r, d'⟩ := out
      cases r with
      | error status => rfl
      | ok a => rfl

theorem freeInode_apply (hfirst : c.firstIno ≤ n) (hlast : n ≤ c.totalInodes) :
    freeInode c n inode d =
      writeInode n {} (if inodeBit c d n = true then
        releaseInode inode (inodeGroup c n) (inodeIndex c n) d else d) := by
  unfold freeInode
  rw [if_neg (by omega), bind_apply]
  simp only [read_apply, inodeBit]
  by_cases hbit : d.inodeBitmap (inodeGroup c n) (inodeIndex c n) = true
  · simp only [hbit, if_true]
    rfl
  · simp only [hbit]
    rfl

/-- The accounts are right and the blocks in `held` are marked. -/
structure Kept (c : Context) (held : Nat → Prop) (d : Disk) : Prop where
  accounts : Accounts c d
  marked : ∀ b, held b → c.firstDataBlock ≤ b → b < c.totalBlocks → blockGroup c b < c.groupsCount →
    blockBit c d b = true

theorem Kept.takeBlock (h : Kept c held d) (hfind : findFreeBlock c d = some (group, i)) :
    Kept c held (takeBlock c group i d) := by
  obtain ⟨hgroup, hi, hclear⟩ := findFreeBlock_some hfind
  refine ⟨h.accounts.takeBlock hgroup hi hclear, fun b hb hfirst hlt hin => ?_⟩
  have hold := h.marked b hb hfirst hlt hin
  unfold blockBit Space.takeBlock setBit at *
  simp only
  split
  · rfl
  · exact hold

theorem Kept.releaseBlock (h : Kept c held d) (hm : Mounted c) (hfits : Fits c)
    (hb : b < c.totalBlocks) (hfirst : c.firstDataBlock ≤ b)
    (hgroup : blockGroup c b < c.groupsCount) (hfree : ¬held b) (hset : blockBit c d b = true) :
    Kept c held (releaseBlock (blockGroup c b) (blockIndex c b) d) := by
  obtain ⟨hnumber, hvalid⟩ := hm.blockNumber_of_bit hb hfirst
  refine ⟨h.accounts.releaseBlock hm hfits hgroup hvalid hset, fun b' hb' hfirst' hlt' hin' => ?_⟩
  have hold := h.marked b' hb' hfirst' hlt' hin'
  have hne : ¬(blockGroup c b' = blockGroup c b ∧ blockIndex c b' = blockIndex c b) := by
    rintro ⟨hgr, hidx⟩
    have hnumber' := (hm.blockNumber_of_bit hlt' hfirst').1
    rw [hgr, hidx, hnumber] at hnumber'
    exact hfree (hnumber' ▸ hb')
  unfold blockBit Ext4.releaseBlock setBit at *
  simp only
  rw [if_neg hne]
  exact hold

variable {d₁ : Disk} {out : Except Status Unit}

theorem Kept.writeInode (h : Kept c held d₁)
    (hx : writeInode n inode d₁ = some (out, d')) : Kept c held d' := by
  unfold Ext4.writeInode at hx
  split at hx
  · cases hx
    exact h
  · cases hx
    exact ⟨h.accounts.setInode, h.marked⟩

section
variable (h : Kept c held d) (hm : Mounted c) (hfits : Fits c)
include h hm hfits

theorem Kept.perform {call : Call} (hp : Meets c held d call) (hx : perform c call d = some (out, d')) :
    Kept c held d' := by
  cases call with
  | allocateBlock =>
    change (allocateBlock c >>= fun _ => pure ()) d = _ at hx
    rw [bind_apply, allocateBlock_apply] at hx
    cases hfind : findFreeBlock c d with
    | none =>
      rw [hfind] at hx
      cases hx
      exact h
    | some found =>
      rw [hfind] at hx
      cases hx
      exact h.takeBlock hfind
  | freeBlock b =>
    change freeBlock c b d = _ at hx
    by_cases hb : b < c.totalBlocks
    · obtain ⟨hfirst, hgroup, hfree⟩ := hp hb
      rw [freeBlock_apply hb] at hx
      cases hx
      split
      case isTrue hset => exact h.releaseBlock hm hfits hb hfirst hgroup hfree hset
      case isFalse => exact h
    · unfold freeBlock at hx
      rw [if_pos (by omega)] at hx
      cases hx
      exact h
  | allocateInode mode =>
    change (allocateInode c mode >>= fun _ => pure ()) d = _ at hx
    rw [bind_apply, allocateInode_apply] at hx
    cases hfind : findFreeInode c d with
    | none =>
      rw [hfind] at hx
      cases hx
      exact h
    | some found =>
      obtain ⟨group, i⟩ := found
      obtain ⟨hgroup, hi, hclear, -⟩ := findFreeInode_some hm hfits hfind
      have htaken : Kept c held (takeInode mode group i d) :=
        ⟨h.accounts.takeInode hgroup hi hclear mode, h.marked⟩
      rw [hfind] at hx
      cases hwrite : Ext4.writeInode (inodeNumber c group i) (newInode mode)
        (takeInode mode group i d) with
      | none => simp [hwrite] at hx
      | some written =>
        obtain ⟨r, d₁⟩ := written
        have hkept := htaken.writeInode hwrite
        simp only [hwrite, Option.map_some] at hx
        cases r with
        | error status =>
          cases hx
          exact hkept
        | ok a =>
          cases hx
          exact hkept
  | freeInode n inode =>
    change freeInode c n inode d = _ at hx
    by_cases hrange : c.firstIno ≤ n ∧ n ≤ c.totalInodes
    · obtain ⟨hn, hgroup⟩ := hp hrange.1 hrange.2
      rw [freeInode_apply hrange.1 hrange.2] at hx
      refine Kept.writeInode ?_ hx
      split
      case isTrue hset =>
        have hvalid := hm.validInode_of_bit hn hrange.2
        exact ⟨h.accounts.releaseInode hm hfits hgroup hvalid hset inode, h.marked⟩
      case isFalse => exact h
    · unfold freeInode at hx
      rw [if_pos (by omega)] at hx
      cases hx
      exact h

theorem Kept.of_run (hrun : Reached c (Meets c held) d d') : Kept c held d' := by
  induction hrun with
  | start => exact h
  | call before hp run ih => exact ih.perform hm hfits hp run

end

theorem Reached.trans {P : Disk → Call → Prop} {d₂ d₃ : Disk} (h : Reached c P d₁ d₂)
    (h' : Reached c P d₂ d₃) : Reached c P d₁ d₃ := by
  induction h' with
  | start => exact h
  | call before hp run ih => exact .call ih hp run

/-- A clear bit is come upon: each call before takes another free block. -/
theorem returnsAgain_of_clear (hm : Mounted c) (h : Accounts c d)
    (hgroup : group < c.groupsCount) (hi : i ∈ validBlocks c group)
    (hclear : d.blockBitmap group i = false) : ReturnsAgain c (blockNumber c group i) d := by
  obtain ⟨free, hfree⟩ : ∃ free, free = d.freeBlocks := ⟨_, rfl⟩
  induction free using Nat.strong_induction_on generalizing d with
  | _ free ih =>
    cases hfind : findFreeBlock c d with
    | none => exact absurd hfind (findFreeBlock_ne_none hm h hgroup hi hclear)
    | some found =>
      obtain ⟨gr, k⟩ := found
      obtain ⟨hgr, hk, hclear'⟩ := findFreeBlock_some hfind
      have hstep : allocateBlock c d = some (.ok (blockNumber c gr k), takeBlock c gr k d) := by
        rw [allocateBlock_apply, hfind]
      by_cases hsame : group = gr ∧ i = k
      · obtain ⟨rfl, rfl⟩ := hsame
        exact ⟨d, _, .start, hstep⟩
      · have hpos := h.blocks.pos hgr hk hclear'
        have hle := h.blocks.count_le_total hgr
        have hstill : (takeBlock c gr k d).blockBitmap group i = false := by
          unfold takeBlock setBit
          simp only
          rw [if_neg hsame]
          exact hclear
        obtain ⟨d₁, d₂, hrun, hagain⟩ := ih (takeBlock c gr k d).freeBlocks
          (by subst hfree; exact Nat.sub_lt (by omega) Nat.one_pos)
          (h.takeBlock hgr hk hclear') hstill rfl
        have hcall : perform c .allocateBlock d = some (.ok (), takeBlock c gr k d) := by
          change (allocateBlock c >>= fun _ => pure ()) d = _
          rw [bind_apply, hstep]
          rfl
        have hfirst : Reached c (fun _ call => call = .allocateBlock) d (takeBlock c gr k d) :=
          .call .start rfl hcall
        exact ⟨d₁, d₂, hfirst.trans hrun, hagain⟩

theorem Kept.accountable (h : Kept c held d) (hm : Mounted c) (hfits : Fits c) :
    Accountable c held d where
  accounts := h.accounts
  block b d' hx := by
    rw [allocateBlock_apply] at hx
    cases hfind : findFreeBlock c d with
    | none =>
      rw [hfind] at hx
      cases hx
    | some found =>
      obtain ⟨group, i⟩ := found
      rw [hfind] at hx
      cases hx
      obtain ⟨hgroup, hi, hclear⟩ := findFreeBlock_some hfind
      obtain ⟨hgr, hidx⟩ := hm.bit_of_blockNumber hi
      have hfirst : c.firstDataBlock ≤ blockNumber c group i := Nat.le_add_left ..
      have hlt := (mem_filter.1 hi).2
      have hbit : blockBit c d (blockNumber c group i) = false := by
        unfold blockBit
        rw [hgr, hidx]
        exact hclear
      refine ⟨hfirst, hlt, hbit, fun hb => ?_⟩
      rw [h.marked _ hb hfirst hlt (by rwa [hgr])] at hbit
      cases hbit
  inode mode n I d' hx := by
    rw [allocateInode_apply] at hx
    cases hfind : findFreeInode c d with
    | none =>
      rw [hfind] at hx
      cases hx
    | some found =>
      obtain ⟨-, hi, hclear, hreserved⟩ := findFreeInode_some hm hfits hfind
      obtain ⟨hnumber, hgr, hidx⟩ := hm.bit_of_inodeNumber hi
      have hlt := (validInode_lt hi).2
      rw [hfind] at hx
      obtain ⟨⟨r, d₁⟩, -, hout⟩ := Option.map_eq_some_iff.1 hx
      cases r with
      | error status => cases hout
      | ok a =>
        cases hout
        refine ⟨by omega, by omega, ?_, hreserved⟩
        unfold inodeBit
        rw [hgr, hidx]
        exact hclear
  again b d' hp hx := by
    by_cases hb : b < c.totalBlocks
    · obtain ⟨hfirst, hgroup, hfree⟩ := hp hb
      obtain ⟨hnumber, hvalid⟩ := hm.blockNumber_of_bit hb hfirst
      rw [freeBlock_apply hb] at hx
      cases hx
      have hagain : ∀ d', Accounts c d' → blockBit c d' b = false → ReturnsAgain c b d' := by
        intro d' haccounts hclear
        have hreturns := returnsAgain_of_clear hm haccounts hgroup hvalid hclear
        rwa [hnumber] at hreturns
      split
      case isTrue hset =>
        refine hagain _ (h.accounts.releaseBlock hm hfits hgroup hvalid hset) ?_
        simp [blockBit, Ext4.releaseBlock, setBit]
      case isFalse hset => exact hagain _ h.accounts (by simpa using hset)
    · unfold freeBlock at hx
      rw [if_pos (by omega)] at hx
      cases hx

/-- On a mounted volume whose bits fit, calls that free numbers of the groups only keep the accounts;
what is given out was free and lies in the volume, and what is freed is given out again. -/
theorem accountable_of_run (hmount : mountRoot dev = .ok c) (hfits : Fits c)
    (haccounts : Accounts c d) (hheld : ∀ b, held b → c.firstDataBlock ≤ b → b < c.totalBlocks →
      blockGroup c b < c.groupsCount → blockBit c d b = true)
    (hrun : Reached c (Meets c held) d d') : Accountable c held d' :=
  have hm := mounted_of_mountRoot hmount
  (Kept.of_run ⟨haccounts, hheld⟩ hm hfits hrun).accountable hm hfits

/-- A volume of 63 blocks and 16 inodes in one group. -/
def oneGroupImage : Device := patched 4
  [(1024, [16, 0, 0, 0, 64]), (1044, [1]), (1056, [64]), (1064, [16]), (1080, [0x53, 0xef]),
    (1108, [11, 0, 0, 0, 128])]

def oneGroup : Context where
  blockSize := 1024
  inodeSize := 128
  inodesPerGroup := 16
  blocksPerGroup := 64
  totalBlocks := 64
  totalInodes := 16
  groupsCount := 1
  groupDescSize := 32
  groupDescOffset := 2048
  firstDataBlock := 1
  firstIno := 11

theorem oneGroup_mounted : mountRoot oneGroupImage = .ok oneGroup := by decide +kernel

/-- The first 32 blocks and eleven inodes are in use; the root inode is not. -/
def rootFree : Disk where
  freeBlocks := 31
  freeInodes := 5
  groups _ := ⟨31, 5, 1⟩
  blockBitmap group i := decide (0 < group ∨ i < 32)
  inodeBitmap _ i := decide (i < 12 ∧ i ≠ 1)
  inodes _ := {}
  blocks _ _ := 0

theorem rootFree_accounts : Accounts oneGroup rootFree where
  blocks :=
    { each := by decide +kernel
      sum := by decide +kernel }
  inodes :=
    { each := by decide +kernel
      sum := by decide +kernel }

/-- Block 20 is freed; the blocks below 10 hold the other parts of the volume. -/
theorem accountable_freed : Accountable oneGroup (· < 10) (releaseBlock 0 19 rootFree) := by
  refine accountable_of_run oneGroup_mounted ⟨by decide, by decide, by decide⟩ rootFree_accounts ?_ ?_
  · have hmarked : ∀ b < 10, 1 ≤ b → blockBit oneGroup rootFree b = true := by decide
    exact fun b hb hfirst _ _ => hmarked b hb hfirst
  · have hrun : perform oneGroup (.freeBlock 20) rootFree =
        some (.ok (), releaseBlock 0 19 rootFree) := rfl
    refine .call .start ?_ hrun
    exact fun _ => ⟨by decide, by decide, by decide⟩

theorem allocateInode_root :
    ∃ I d₁, allocateInode oneGroup 0x81a4 rootFree = some (.ok (2, I), d₁) := by
  have hrun : (allocateInode oneGroup 0x81a4 rootFree).map
      (fun out => out.1.toOption.map Prod.fst) = some (some 2) := by decide +kernel
  obtain ⟨⟨r, d₁⟩, hx, hout⟩ := Option.map_eq_some_iff.1 hrun
  cases r with
  | error status => cases hout
  | ok found =>
    obtain ⟨n, I⟩ := found
    obtain rfl : n = 2 := Option.some.inj hout
    exact ⟨I, d₁, hx⟩

/-- Block 0 lies before the blocks of the groups: its bit belongs to a group that is not there. -/
theorem not_accounts_beforeGroups : ¬Accounts oneGroup (releaseBlock 67108863 63 rootFree) := by
  intro h
  have hsum := h.blocks.sum
  revert hsum
  decide +kernel

/-- The root inode, which is below `first_ino`, is given out when its bit is clear; and a block before
the blocks of the groups is freed although none of the groups counts it. -/
theorem not_accountable_unguarded : (¬∀ (dev : Device) (c : Context) (d d' : Disk),
    mountRoot dev = .ok c → Accounts c d → Reached c (fun _ _ => True) d d' →
    ∀ mode n I d₁, allocateInode c mode d' = some (.ok (n, I), d₁) → c.firstIno ≤ n) ∧
    ¬∀ (dev : Device) (c : Context) (d d' : Disk), mountRoot dev = .ok c → Accounts c d →
      Reached c (fun _ _ => True) d d' → Accounts c d' := by
  constructor
  · intro hall
    obtain ⟨I, d₁, hx⟩ := allocateInode_root
    exact absurd (hall _ _ _ _ oneGroup_mounted rootFree_accounts .start _ _ _ _ hx) (by decide)
  · intro hall
    have hrun : perform oneGroup (.freeBlock 0) rootFree =
        some (.ok (), releaseBlock 67108863 63 rootFree) := rfl
    exact not_accounts_beforeGroups
      (hall _ _ _ _ oneGroup_mounted rootFree_accounts (.call .start trivial hrun))

end RadKernel.Ext4.Space
