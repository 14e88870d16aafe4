import RadKernel.Ext4.Inode

/-!
# An ext4 image of unknown content

`fs/ext4.cpp` down to the bytes of the device: `x86_ext4_mount_root`, the path from an inode number to
the block of a file, and the searches of `allocate_block` and `allocate_inode` up to `bitmap_set`.
Nothing is assumed of the content.

The source reads records and bitmaps through pointers into fixed buffers. A read that leaves its
buffer is an outcome of its own here, `Failure.outOfBounds`.
-/

namespace RadKernel.Ext4.Image

open Kernel

/-- What `rad_block_read` returns for each sector of 512 bytes. -/
abbrev Device := Nat → Except Status (Nat → UInt8)

inductive Failure where
  | status (status : Status)
  | outOfBounds
  deriving DecidableEq, Repr

/-- Bytes that may be read at offsets below `size`. -/
structure Region where
  bytes : Nat → UInt8
  size : Nat

namespace Region

def byte (r : Region) (i : Nat) : Except Failure Nat :=
  if i < r.size then .ok (r.bytes i).toNat else .error .outOfBounds

def u16 (r : Region) (i : Nat) : Except Failure Nat :=
  if i + 2 ≤ r.size then .ok (le16 r.bytes i) else .error .outOfBounds

def u32 (r : Region) (i : Nat) : Except Failure Nat :=
  if i + 4 ≤ r.size then .ok (le32 r.bytes i) else .error .outOfBounds

end Region

/-! ## The device -/

/-- Every piece the loop of `disk_read` copies lies in a sector of its own. -/
def diskRead (dev : Device) (offset size : Nat) : Except Failure (Nat → UInt8) := do
  let first := offset % 512
  let sectors ← ((List.range' (offset / 512) ((first + size + 511) / 512)).mapM dev).mapError .status
  return fun i => (sectors.getD ((first + i) / 512) fun _ => 0) ((first + i) % 512)

def ext4Magic : Nat := 0xef53
def ext4ExtentsFlag : Nat := 0x00080000

/-- The fields of `Ext4Context` and of the superblock in it. -/
structure Context where
  blockSize : Nat
  inodeSize : Nat
  inodesPerGroup : Nat
  blocksPerGroup : Nat
  totalBlocks : Nat
  totalInodes : Nat
  groupsCount : Nat
  groupDescSize : Nat
  groupDescOffset : Nat
  firstDataBlock : Nat
  firstIno : Nat
  deriving DecidableEq, Repr

/-- The context of a superblock. The processor takes the count of the shift modulo 32. -/
def context (super : Nat → UInt8) : Context where
  blockSize := u32 (1024 * 2 ^ (le32 super 24 % 32))
  inodeSize := if le16 super 88 ≠ 0 then le16 super 88 else 256
  inodesPerGroup := le32 super 40
  blocksPerGroup := le32 super 32
  totalBlocks := le32 super 4
  totalInodes := le32 super 0
  groupsCount := u32 (le32 super 4 + le32 super 32 - 1) / le32 super 32
  groupDescSize := if 32 ≤ le16 super 254 then le16 super 254 else 32
  groupDescOffset :=
    if u32 (1024 * 2 ^ (le32 super 24 % 32)) = 1024 then 2048
    else u32 (1024 * 2 ^ (le32 super 24 % 32))
  firstDataBlock := le32 super 20
  firstIno := le32 super 84

/-- `x86_ext4_mount_root` on a device that could be opened. -/
def mountRoot (dev : Device) : Except Failure Context := do
  let super ← diskRead dev 1024 256
  let ctx := context super
  if le16 super 56 ≠ ext4Magic then .error (.status .invalidArgument)
  else if ctx.blockSize = 0 ∨ maxBlockSize < ctx.blockSize ∨ ctx.blockSize % 512 ≠ 0 then
    .error (.status .notSupported)
  else if ctx.blocksPerGroup = 0 ∨ ctx.inodesPerGroup = 0 ∨ ctx.totalBlocks = 0 ∨
      ctx.totalInodes = 0 then
    .error (.status .invalidArgument)
  else return ctx

/-- `Ext4GroupDesc`, as far as it is used here. -/
structure GroupDesc where
  blockBitmap : Nat
  inodeBitmap : Nat
  inodeTable : Nat
  freeBlocks : Nat
  freeInodes : Nat
  deriving DecidableEq, Repr

/-- `Ext4Inode`: the flags and the 60 bytes of `block`. -/
structure Inode where
  flags : Nat
  block : Nat → UInt8

section

variable (dev : Device) (ctx : Context)

def readBlock (b : Nat) : Except Failure (Nat → UInt8) :=
  diskRead dev (b * ctx.blockSize) ctx.blockSize

def readGroupDesc (group : Nat) : Except Failure GroupDesc := do
  let bytes ← diskRead dev (ctx.groupDescOffset + group * ctx.groupDescSize) 32
  return ⟨le32 bytes 0, le32 bytes 4, le32 bytes 8, le16 bytes 12, le16 bytes 14⟩

def readInode (n : Nat) : Except Failure Inode :=
  if n = 0 then .error (.status .invalidArgument)
  else do
    let desc ← readGroupDesc dev ctx ((n - 1) / ctx.inodesPerGroup)
    let bytes ← diskRead dev
      (desc.inodeTable * ctx.blockSize + (n - 1) % ctx.inodesPerGroup * ctx.inodeSize) 112
    return ⟨le32 bytes 32, fun i => bytes (40 + i)⟩

/-! ## From logical to physical blocks -/

/-- Where record `i` of a node starts, behind the header. -/
def recordOffset (i : Nat) : Nat := 12 + 12 * i

/-- The loop over the extents of a leaf, from record `i` on with `left` records to go. -/
def searchLeaf (node : Region) (logical : Nat) : Nat → Nat → Except Failure Nat
  | 0, _ => .ok 0
  | left + 1, i => do
    let first ← node.u32 (recordOffset i)
    let len ← node.u16 (recordOffset i + 4)
    let count := len % 2 ^ 15
    if first ≤ logical ∧ logical < u32 (first + count) then
      let startHi ← node.u16 (recordOffset i + 6)
      let startLo ← node.u32 (recordOffset i + 8)
      return startHi * 2 ^ 32 + startLo + (logical - first)
    else searchLeaf node logical left (i + 1)

def searchIndex (node : Region) (logical : Nat) :
    Nat → Nat → Option Nat → Except Failure (Option Nat)
  | 0, _, best => .ok best
  | left + 1, i, best => do
    let block ← node.u32 (recordOffset i)
    searchIndex node logical left (i + 1) (if block ≤ logical then some i else best)

/-- The child of an index node that the descent goes on with. -/
def childBlock (node : Region) (logical : Nat) : Except Failure (Option Nat) := do
  let best ← searchIndex node logical (le16 node.bytes 2) 0 none
  match best with
  | none => return none
  | some i =>
    let leafLo ← node.u32 (recordOffset i + 4)
    let leafHi ← node.u16 (recordOffset i + 8)
    return some (leafHi * 2 ^ 32 + leafLo)

/-- `g_extent_block` after a block was read into it: bytes behind the block size stay. -/
def extentBlock (buffer : Nat → UInt8) (bytes : Nat → UInt8) : Region :=
  ⟨overlay buffer 0 ctx.blockSize bytes, maxBlockSize⟩

def extentBlockNumberFromNode (buffer : Nat → UInt8) (logical : Nat) :
    Nat → Region → Option (Except Failure Nat)
  | 0, _ => none
  | fuel + 1, node =>
    if le16 node.bytes 0 ≠ extentHeaderMagic then some (.error (.status .invalidArgument))
    else if le16 node.bytes 6 = 0 then some (searchLeaf node logical (le16 node.bytes 2) 0)
    else
      match childBlock node logical with
      | .error failure => some (.error failure)
      | .ok none => some (.ok 0)
      | .ok (some b) =>
        match readBlock dev ctx b with
        | .error failure => some (.error failure)
        | .ok bytes => extentBlockNumberFromNode buffer logical fuel (extentBlock ctx buffer bytes)

def Inode.root (inode : Inode) : Region := ⟨inode.block, 60⟩

/-- `file_block_number`, with `buffer` in `g_extent_block`. -/
def fileBlockNumber (buffer : Nat → UInt8) (inode : Inode) (logical : Nat) :
    Option (Except Failure Nat) :=
  if inode.flags &&& ext4ExtentsFlag = 0 then some (.error (.status .notSupported))
  else extentBlockNumberFromNode dev ctx buffer logical nodeFuel inode.root

/-! ## Free bits -/

/-- The loop over the bits of a group: `stop` leaves it, `skip` goes on without a test. -/
def firstClear (bitmap : Region) (stop skip : Nat → Bool) : Nat → Nat → Except Failure (Option Nat)
  | 0, _ => .ok none
  | left + 1, i =>
    if stop i then .ok none
    else if skip i then firstClear bitmap stop skip left (i + 1)
    else do
      let byte ← bitmap.byte (i / 8)
      if byte.testBit (i % 8) then firstClear bitmap stop skip left (i + 1) else return some i

/-- One of the two kinds of numbers that are given out. -/
structure Kind where
  /-- The count of free numbers in a group. -/
  free : GroupDesc → Nat
  bitmap : GroupDesc → Nat
  /-- How many bits of a group the loop goes through. -/
  bits : Nat → Nat
  stop : Nat → Nat → Bool
  skip : Nat → Nat → Bool

/-- The loop over the groups, with `left` groups to go. -/
def findClear (kind : Kind) : Nat → Nat → Except Failure (Nat × Nat)
  | 0, _ => .error (.status .noMemory)
  | left + 1, group => do
    let desc ← readGroupDesc dev ctx group
    if kind.free desc = 0 then findClear kind left (group + 1)
    else
      let bitmap ← readBlock dev ctx (kind.bitmap desc)
      let found ← firstClear ⟨bitmap, ctx.blockSize⟩ (kind.stop group) (kind.skip group)
        (kind.bits group) 0
      match found with
      | none => findClear kind left (group + 1)
      | some i => return (group, i)

def blockKind : Kind where
  free := GroupDesc.freeBlocks
  bitmap := GroupDesc.blockBitmap
  bits group := min ctx.blocksPerGroup (sub32 ctx.totalBlocks (group * ctx.blocksPerGroup))
  stop group i := decide (ctx.totalBlocks ≤ group * ctx.blocksPerGroup + i + ctx.firstDataBlock)
  skip _ _ := false

def inodeKind : Kind where
  free := GroupDesc.freeInodes
  bitmap := GroupDesc.inodeBitmap
  bits group := min ctx.inodesPerGroup (sub32 ctx.totalInodes (group * ctx.inodesPerGroup))
  stop _ _ := false
  skip group i :=
    let candidate := u32 (group * ctx.inodesPerGroup + i + 1)
    decide (candidate < ctx.firstIno ∧ candidate ≠ ext4RootInode)

/-- The bit `allocate_block` sets. -/
def allocateBlock : Except Failure (Nat × Nat) := findClear dev ctx (blockKind ctx) ctx.groupsCount 0

/-- The bit `allocate_inode` sets. -/
def allocateInode : Except Failure (Nat × Nat) := findClear dev ctx (inodeKind ctx) ctx.groupsCount 0

end

end RadKernel.Ext4.Image
