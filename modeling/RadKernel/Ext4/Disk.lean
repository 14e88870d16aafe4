import RadKernel.Kernel.State
import RadKernel.Lib.Prog

/-!
# The ext4 volume: inodes, bitmaps and their allocators

`fs/ext4.cpp`, the on-disk structures and the functions up to `free_inode`. The volume is
kept by its parts: the free counts of the superblock, the group descriptors, the two
bitmaps of every group, the inode table and the data blocks. A volume lays these parts out
in separate blocks, and the blocks of the first four are marked in use and belong to no
file, so a write to one part leaves the others alone. The device does not fail.

Integers are naturals; where the source computes in `uint16_t`, `uint32_t` or `uint64_t`
and a value can leave the type, the wrap-around is written out.
-/

namespace RadKernel.Ext4

open Kernel

def ext4RootInode : Nat := 2
def ext4SIfdir : Nat := 0x4000
def ext4SIfreg : Nat := 0x8000
def ext4SIfLnk : Nat := 0xa000
def ext4NameMax : Nat := 255
def maxBlockSize : Nat := 4096
def maxOpenFiles : Nat := 32
def extentHeaderMagic : Nat := 0xf30a
def ext4FtRegular : Nat := 1
def ext4FtDirectory : Nat := 2
def ext4FtSymlink : Nat := 7

def u16 (n : Nat) : Nat := n % 2 ^ 16
def u32 (n : Nat) : Nat := n % 2 ^ 32
def u64 (n : Nat) : Nat := n % 2 ^ 64

/-- `uint32_t` subtraction. -/
def sub32 (a b : Nat) : Nat := u32 (a + (2 ^ 32 - u32 b))

/-- The constants of a mounted volume (`Ext4Context`). The bounds are those of the fields
and the checks of `x86_ext4_mount_root`; every group of the format holds
`inodes_per_group` inodes. -/
structure Geometry where
  blockSize : Nat
  blocksPerGroup : Nat
  inodesPerGroup : Nat
  totalBlocks : Nat
  totalInodes : Nat
  firstDataBlock : Nat
  firstIno : Nat
  blockSize_eq : blockSize = 1024 ∨ blockSize = 2048 ∨ blockSize = 4096
  blocksPerGroup_pos : 0 < blocksPerGroup
  inodesPerGroup_pos : 0 < inodesPerGroup
  totalBlocks_lt : totalBlocks < 2 ^ 32
  totalInodes_lt : totalInodes < 2 ^ 32
  firstDataBlock_lt : firstDataBlock < 2 ^ 32
  inodes_fill : u32 (totalBlocks + blocksPerGroup - 1) / blocksPerGroup * inodesPerGroup = totalInodes

namespace Geometry

variable (g : Geometry)

def groupsCount : Nat := u32 (g.totalBlocks + g.blocksPerGroup - 1) / g.blocksPerGroup

/-- The group and the bit of a block, as `free_block` computes them. -/
def blockGroup (b : Nat) : Nat := sub32 b g.firstDataBlock / g.blocksPerGroup
def blockIndex (b : Nat) : Nat := sub32 b g.firstDataBlock % g.blocksPerGroup

def inodeGroup (n : Nat) : Nat := (n - 1) / g.inodesPerGroup
def inodeIndex (n : Nat) : Nat := (n - 1) % g.inodesPerGroup

/-- The block a bit stands for, as `allocate_block` computes it. -/
def blockNumber (group i : Nat) : Nat := group * g.blocksPerGroup + i + g.firstDataBlock

def inodeNumber (group i : Nat) : Nat := u32 (group * g.inodesPerGroup + i + 1)

def blocksInGroup (group : Nat) : Nat :=
  min g.blocksPerGroup (sub32 g.totalBlocks (group * g.blocksPerGroup))

def inodesInGroup (group : Nat) : Nat :=
  min g.inodesPerGroup (sub32 g.totalInodes (group * g.inodesPerGroup))

end Geometry

/-! ## Inodes -/

/-- Twelve bytes after an `ExtentHeader`, read as an `Extent`. -/
structure Extent where
  block : Nat
  len : Nat
  startHi : Nat
  startLo : Nat
  deriving DecidableEq, Repr

namespace Extent

/-- `extent_start`. -/
def start (e : Extent) : Nat := e.startHi * 2 ^ 32 + e.startLo

/-- The number of blocks the code reads off the length field. -/
def count (e : Extent) : Nat := e.len % 2 ^ 15

/-- `index_leaf` of the same bytes read as an `ExtentIndex`. -/
def leaf (e : Extent) : Nat := e.startLo % 2 ^ 16 * 2 ^ 32 + (e.startHi * 2 ^ 16 + e.len)

end Extent

/-- An `ExtentHeader` and the records it counts in `entries`. -/
structure Node where
  magic : Nat
  max : Nat
  depth : Nat
  records : List Extent
  deriving DecidableEq, Repr

/-- The `block` field of an inode: an extent node when `Ext4ExtentsFlag` is set, else
bytes such as the target of a short symbolic link. -/
inductive Area where
  | extents (node : Node)
  | raw (bytes : List UInt8)
  deriving DecidableEq, Repr

/-- `Ext4Inode`, with `size_lo` and `size_high` as one size. -/
structure Inode where
  mode : Nat := 0
  uid : Nat := 0
  gid : Nat := 0
  size : Nat := 0
  atime : Nat := 0
  ctime : Nat := 0
  mtime : Nat := 0
  linksCount : Nat := 0
  blocksLo : Nat := 0
  area : Area := .raw []
  deriving DecidableEq, Repr

def inodeIsDir (inode : Inode) : Bool := inode.mode &&& 0xf000 = ext4SIfdir
def inodeIsReg (inode : Inode) : Bool := inode.mode &&& 0xf000 = ext4SIfreg
def inodeIsSymlink (inode : Inode) : Bool := inode.mode &&& 0xf000 = ext4SIfLnk

def inodeFileType (inode : Inode) : Nat :=
  if inodeIsDir inode then ext4FtDirectory
  else if inodeIsSymlink inode then ext4FtSymlink
  else ext4FtRegular

def inodeSetSize (inode : Inode) (size : Nat) : Inode := { inode with size := u64 size }

/-- The header `init_extent_inode` writes: room for four extents, none in use. -/
def emptyNode : Node := ⟨extentHeaderMagic, 4, 0, []⟩

def initExtentInode (inode : Inode) : Inode := { inode with area := .extents emptyNode }

/-! ## The volume -/

/-- `Ext4GroupDesc`, the counts. -/
structure GroupDesc where
  freeBlocks : Nat
  freeInodes : Nat
  usedDirs : Nat
  deriving DecidableEq, Repr

structure Disk where
  freeBlocks : Nat
  freeInodes : Nat
  groups : Nat → GroupDesc
  blockBitmap : Nat → Nat → Bool
  inodeBitmap : Nat → Nat → Bool
  inodes : Nat → Inode
  blocks : Nat → Nat → UInt8

def setBit (bitmap : Nat → Nat → Bool) (group index : Nat) (v : Bool) : Nat → Nat → Bool :=
  fun gr i => if gr = group ∧ i = index then v else bitmap gr i

/-- Bytes with `len` of them, from `off` on, replaced by those of `src`. -/
def overlay (base : Nat → UInt8) (off len : Nat) (src : Nat → UInt8) : Nat → UInt8 :=
  fun i => if off ≤ i ∧ i < off + len then src (i - off) else base i

namespace Disk

def setInode (d : Disk) (n : Nat) (inode : Inode) : Disk :=
  { d with inodes := Function.update d.inodes n inode }

def setBlock (d : Disk) (b : Nat) (bytes : Nat → UInt8) : Disk :=
  { d with blocks := Function.update d.blocks b bytes }

end Disk

abbrev DiskQ := Query Status Disk
abbrev DiskM := Prog Status Disk

/-- Programs that also hold a copy of an inode, the `Ext4Inode *` of the source. -/
abbrev CopyM := Prog Status (Inode × Disk)

def runDisk {α : Type} (x : DiskM α) : CopyM α := Prog.focus Prod.snd (fun d s => (s.1, d)) x

def queryDisk {α : Type} (q : DiskQ α) : CopyM α := Prog.query fun s => q s.2

def modifyCopy (f : Inode → Inode) : CopyM Unit := Prog.modify fun s => (f s.1, s.2)

/-- Run a program on a copy of an inode; the caller sees its outcome and the copy. -/
def onCopy {α : Type} (inode : Inode) (x : CopyM α) : DiskM (Except Status α × Inode) :=
  fun d => (x (inode, d)).map fun out => (.ok (out.1, out.2.1), out.2.2)

def readInode (n : Nat) : DiskQ Inode := do
  if n = 0 then Query.fail .invalidArgument
  else
    let d ← Query.read
    return d.inodes n

def writeInode (n : Nat) (inode : Inode) : DiskM Unit :=
  if n = 0 then Prog.fail .invalidArgument else Prog.modify (·.setInode n inode)

def writeBlockPart (b off len : Nat) (src : Nat → UInt8) : DiskM Unit :=
  Prog.modify fun d => d.setBlock b (overlay (d.blocks b) off len src)

section Allocators

variable (g : Geometry)

/-- The first clear bit of a group's block bitmap, when its descriptor promises one. The
source leaves the loop at the first candidate outside the volume; those after it are
outside as well. -/
def freeBlockIn (d : Disk) (group : Nat) : Option Nat :=
  if (d.groups group).freeBlocks = 0 then none
  else (List.range (g.blocksInGroup group)).find? fun i =>
    g.blockNumber group i < g.totalBlocks ∧ !d.blockBitmap group i

def findFreeBlock (d : Disk) : Option (Nat × Nat) :=
  (List.range g.groupsCount).findSome? fun group => (freeBlockIn g d group).map (group, ·)

/-- The writes of `allocate_block` once it has found a bit: bitmap, counts, and the block
filled with zeros. -/
def takeBlock (group i : Nat) (d : Disk) : Disk :=
  let desc := d.groups group
  { d with
    blockBitmap := setBit d.blockBitmap group i true
    groups := Function.update d.groups group { desc with freeBlocks := desc.freeBlocks - 1 }
    freeBlocks := d.freeBlocks - 1
    blocks := Function.update d.blocks (g.blockNumber group i)
      (overlay (d.blocks (g.blockNumber group i)) 0 g.blockSize fun _ => 0) }

def allocateBlock : DiskM Nat := do
  let d ← Prog.read
  match findFreeBlock g d with
  | none => Prog.fail .noMemory
  | some (group, i) =>
    Prog.modify (takeBlock g group i)
    return g.blockNumber group i

/-- The writes of `free_block` on a bit that is set. -/
def releaseBlock (group i : Nat) (d : Disk) : Disk :=
  let desc := d.groups group
  { d with
    blockBitmap := setBit d.blockBitmap group i false
    groups := Function.update d.groups group { desc with freeBlocks := u16 (desc.freeBlocks + 1) }
    freeBlocks := u32 (d.freeBlocks + 1) }

def freeBlock (b : Nat) : DiskM Unit := do
  if g.totalBlocks ≤ b then Prog.fail .invalidArgument
  else
    let d ← Prog.read
    if d.blockBitmap (g.blockGroup b) (g.blockIndex b) then
      Prog.modify (releaseBlock (g.blockGroup b) (g.blockIndex b))

def freeInodeIn (d : Disk) (group : Nat) : Option Nat :=
  if (d.groups group).freeInodes = 0 then none
  else (List.range (g.inodesInGroup group)).find? fun i =>
    (g.firstIno ≤ g.inodeNumber group i ∨ g.inodeNumber group i = ext4RootInode) ∧
      !d.inodeBitmap group i

def findFreeInode (d : Disk) : Option (Nat × Nat) :=
  (List.range g.groupsCount).findSome? fun group => (freeInodeIn g d group).map (group, ·)

/-- The inode `allocate_inode` starts a file of the given mode with. -/
def newInode (mode : Nat) : Inode :=
  let inode : Inode :=
    { mode, linksCount := if mode &&& 0xf000 = ext4SIfdir then 2 else 1
      atime := 1, ctime := 1, mtime := 1 }
  if mode &&& 0xf000 = ext4SIfLnk then inode else initExtentInode inode

def takeInode (mode group i : Nat) (d : Disk) : Disk :=
  let desc := d.groups group
  { d with
    inodeBitmap := setBit d.inodeBitmap group i true
    groups := Function.update d.groups group
      { desc with
        freeInodes := desc.freeInodes - 1
        usedDirs :=
          if mode &&& 0xf000 = ext4SIfdir then u16 (desc.usedDirs + 1) else desc.usedDirs }
    freeInodes := d.freeInodes - 1 }

def allocateInode (mode : Nat) : DiskM (Nat × Inode) := do
  let d ← Prog.read
  match findFreeInode g d with
  | none => Prog.fail .noMemory
  | some (group, i) =>
    Prog.modify (takeInode mode group i)
    writeInode (g.inodeNumber group i) (newInode mode)
    return (g.inodeNumber group i, newInode mode)

def releaseInode (inode : Inode) (group i : Nat) (d : Disk) : Disk :=
  let desc := d.groups group
  { d with
    inodeBitmap := setBit d.inodeBitmap group i false
    groups := Function.update d.groups group
      { desc with
        freeInodes := u16 (desc.freeInodes + 1)
        usedDirs := if inodeIsDir inode then desc.usedDirs - 1 else desc.usedDirs }
    freeInodes := u32 (d.freeInodes + 1) }

def freeInode (n : Nat) (inode : Inode) : DiskM Unit := do
  if n < g.firstIno ∨ g.totalInodes < n then Prog.fail .invalidArgument
  else
    let d ← Prog.read
    if d.inodeBitmap (g.inodeGroup n) (g.inodeIndex n) then
      Prog.modify (releaseInode inode (g.inodeGroup n) (g.inodeIndex n))
    writeInode n {}

end Allocators

end RadKernel.Ext4
