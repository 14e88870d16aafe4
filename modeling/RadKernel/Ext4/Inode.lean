import RadKernel.Ext4.Disk
import Mathlib.Data.List.DropRight

/-!
# Extent maps and file data

`fs/ext4.cpp` from `extent_block_number_from_node` to `truncate_inode`: the map from the
logical blocks of a file to blocks of the volume, and reading, writing and freeing through
it. A buffer is a function from offsets to bytes together with a length.

The copy loops advance by `min_u32(static_cast<uint32_t>(size - done), ...)`, which is zero
when the bytes left are a multiple of `2 ^ 32`: the loop then never ends, and the model
diverges.
-/

namespace RadKernel.Ext4

open Kernel

def le16 (f : Nat → UInt8) (i : Nat) : Nat := (f i).toNat + (f (i + 1)).toNat * 2 ^ 8

def le32 (f : Nat → UInt8) (i : Nat) : Nat := le16 f i + le16 f (i + 2) * 2 ^ 16

/-- The extent or index record at byte `i`. -/
def parseExtent (f : Nat → UInt8) (i : Nat) : Extent :=
  ⟨le32 f i, le16 f (i + 4), le16 f (i + 6), le32 f (i + 8)⟩

/-- A block read as an extent node: a twelve-byte header, then the records. -/
def parseNode (f : Nat → UInt8) : Node where
  magic := le16 f 0
  max := le16 f 4
  depth := le16 f 6
  records := (List.range (le16 f 2)).map fun i => parseExtent f (12 + 12 * i)

/-! ## From logical to physical blocks -/

/-- The loop over the extents of a leaf: the block of the first that covers `logical`, and
zero, a hole, when none does. -/
def mapped : List Extent → Nat → Nat
  | [], _ => 0
  | e :: es, logical =>
    if e.block ≤ logical ∧ logical < u32 (e.block + e.count) then e.start + (logical - e.block)
    else mapped es logical

/-- The last index record that does not start after `logical`. -/
def bestIndex (records : List Extent) (logical : Nat) : Option Extent :=
  (records.filter (·.block ≤ logical)).getLast?

/-- More nodes than an index can name: a longer descent is cyclic and never ends. -/
def nodeFuel : Nat := 2 ^ 48 + 2

def extentBlockNumberFromNode : Nat → Node → Nat → DiskQ Nat
  | 0, _, _ => Query.diverge
  | fuel + 1, node, logical =>
    if node.magic ≠ extentHeaderMagic then Query.fail .invalidArgument
    else if node.depth = 0 then pure (mapped node.records logical)
    else
      match bestIndex node.records logical with
      | none => pure 0
      | some best => do
        let d ← Query.read
        extentBlockNumberFromNode fuel (parseNode (d.blocks best.leaf)) logical

def fileBlockNumber (inode : Inode) (logical : Nat) : DiskQ Nat :=
  match inode.area with
  | .raw _ => Query.fail .notSupported
  | .extents node => extentBlockNumberFromNode nodeFuel node logical

section

variable (g : Geometry)

/-- The first extent that ends right before both blocks, one block longer. -/
def extendExtent (logical physical : Nat) : List Extent → Option (List Extent)
  | [] => none
  | e :: es =>
    if u32 (e.block + e.count) = logical ∧ e.start + e.count = physical ∧ e.count < 0x7fff then
      some ({ e with len := e.count + 1 } :: es)
    else (extendExtent logical physical es).map (e :: ·)

/-- Shift the records that start later to the right and put `e` in the gap. -/
def insertExtent (e : Extent) (es : List Extent) : List Extent :=
  es.rdropWhile (e.block < ·.block) ++ e :: es.rtakeWhile (e.block < ·.block)

def setInodeBlock (inode : Inode) (logical physical : Nat) : Except Status Inode :=
  match inode.area with
  | .raw _ => .error .invalidArgument
  | .extents node =>
    if node.magic ≠ extentHeaderMagic ∨ node.depth ≠ 0 then .error .notSupported
    else
      let added (records : List Extent) : Inode :=
        { inode with
          area := .extents { node with records }
          blocksLo := u32 (inode.blocksLo + g.blockSize / 512) }
      match extendExtent logical physical node.records with
      | some records => .ok (added records)
      | none =>
        if node.max ≤ node.records.length then .error .notSupported
        else .ok (added (insertExtent
          ⟨logical, 1, u16 (physical / 2 ^ 32), u32 physical⟩ node.records))

def ensureInodeBlock (logical : Nat) : CopyM Nat := do
  let s ← Prog.read
  let physical ← queryDisk (fileBlockNumber s.1 logical)
  if physical ≠ 0 then return physical
  else
    let allocated ← runDisk (allocateBlock g)
    match setInodeBlock g s.1 logical allocated with
    | .error status =>
      let _ ← Prog.attempt (runDisk (freeBlock g allocated))
      Prog.fail status
    | .ok inode =>
      modifyCopy fun _ => inode
      return allocated

/-! ## Reading and writing -/

/-- The loop of `read_inode_data`, with `done` bytes of `remaining` in the buffer. -/
def readLoop (inode : Inode) (offset remaining : Nat) :
    Nat → Nat → (Nat → UInt8) → DiskQ (Nat × (Nat → UInt8))
  | 0, _, _ => Query.diverge
  | fuel + 1, done, out =>
    if remaining ≤ done then pure (done, out)
    else do
      let absolute := offset + done
      let blockOffset := absolute % g.blockSize
      let copy := min (u32 (remaining - done)) (g.blockSize - blockOffset)
      let physical ← fileBlockNumber inode (u32 (absolute / g.blockSize))
      let d ← Query.read
      let src : Nat → UInt8 := if physical = 0 then fun _ => 0 else d.blocks physical
      if copy = 0 then Query.diverge
      else
        readLoop inode offset remaining fuel (done + copy)
          (overlay out done copy fun i => src (blockOffset + i))

/-- The bytes read, and how many. -/
def readInodeData (inode : Inode) (offset size : Nat) : DiskQ (Nat × (Nat → UInt8)) :=
  if inode.size ≤ offset then pure (0, fun _ => 0)
  else
    let remaining := min (inode.size - offset) size
    readLoop g inode offset remaining (remaining + 1) 0 fun _ => 0

/-- The loop of `write_inode_data_grow`, with `done` bytes of `size` written. -/
def writeLoop (offset size : Nat) (data : Nat → UInt8) : Nat → Nat → CopyM Nat
  | 0, _ => Prog.diverge
  | fuel + 1, done =>
    if size ≤ done then pure done
    else do
      let absolute := u64 (offset + done)
      let blockOffset := absolute % g.blockSize
      let copy := min (u32 (size - done)) (g.blockSize - blockOffset)
      let physical ← ensureInodeBlock g (u32 (absolute / g.blockSize))
      runDisk (writeBlockPart physical blockOffset copy fun i => data (done + i))
      if copy = 0 then Prog.diverge else writeLoop offset size data fuel (done + copy)

/-- `write_inode` of the copy a program works on. -/
def writeCopy (n : Nat) : CopyM Unit := do
  let s ← Prog.read
  runDisk (writeInode n s.1)

/-- The size and times `write_inode_data_grow` leaves in an inode. -/
def grownInode (inode : Inode) (nextSize : Nat) : Inode :=
  let inode := if inode.size < nextSize then inodeSetSize inode nextSize else inode
  { inode with mtime := 1, ctime := 1 }

def writeInodeDataGrow (n offset size : Nat) (data : Nat → UInt8) : CopyM Nat := do
  let done ← writeLoop g offset size data (size + 1) 0
  modifyCopy fun inode => grownInode inode (u64 (offset + done))
  writeCopy n
  return done

/-! ## Freeing -/

/-- Free `count` blocks from `start` on. -/
def freeRun (start : Nat) : Nat → DiskM Unit
  | 0 => pure ()
  | count + 1 => do
    freeBlock g start
    freeRun (start + 1) count

/-- How many of an extent's blocks stay when the file is cut at `firstFree`. -/
def keptBlocks (e : Extent) (firstFree : Nat) : Nat :=
  if e.block < firstFree then firstFree - e.block else 0

/-- The loop of `free_inode_blocks`: the extents that stay and the number of blocks freed. -/
def freeExtents (firstFree : Nat) : List Extent → DiskM (List Extent × Nat)
  | [] => pure ([], 0)
  | e :: es =>
    if u32 (e.block + e.count) ≤ firstFree then do
      let (kept, freed) ← freeExtents firstFree es
      return (e :: kept, freed)
    else do
      let keep := keptBlocks e firstFree
      freeRun g (e.start + keep) (e.count - keep)
      let (kept, freed) ← freeExtents firstFree es
      return (if keep = 0 then kept else { e with len := keep } :: kept, e.count - keep + freed)

/-- On an error the source leaves a half compacted copy behind; every caller drops it. -/
def freeInodeBlocks (firstFree : Nat) : CopyM Unit := do
  let s ← Prog.read
  match s.1.area with
  | .raw _ => return ()
  | .extents node =>
    if node.magic ≠ extentHeaderMagic ∨ node.depth ≠ 0 then Prog.fail .notSupported
    else
      let (kept, freed) ← runDisk (freeExtents g firstFree node.records)
      let sectors := u32 (freed * (g.blockSize / 512))
      modifyCopy fun inode =>
        { inode with area := .extents { node with records := kept }
                     blocksLo := inode.blocksLo - sectors }

/-- The growth loop of `truncate_inode`: zeros up to `size`, a buffer at a time. -/
def growLoop (n size : Nat) : Nat → Nat → CopyM Unit
  | 0, _ => Prog.diverge
  | fuel + 1, pos =>
    if size ≤ pos then pure ()
    else do
      let copy := min (u32 (size - pos)) maxBlockSize
      let done ← writeInodeDataGrow g n pos copy fun _ => 0
      if done = 0 then Prog.diverge else growLoop n size fuel (pos + done)

/-- The part of the last block behind the new end is filled with zeros. -/
def clearTail (size : Nat) : CopyM Unit := do
  if size % g.blockSize ≠ 0 then
    let s ← Prog.read
    let physical ← queryDisk (fileBlockNumber s.1 (u32 (size / g.blockSize)))
    if physical ≠ 0 then
      runDisk (writeBlockPart physical (size % g.blockSize)
        (g.blockSize - size % g.blockSize) fun _ => 0)

/-- The two branches of `truncate_inode`: give blocks back, or fill up with zeros. -/
def changeBlocks (n size : Nat) : CopyM Unit := do
  let s ← Prog.read
  if size < s.1.size then
    freeInodeBlocks g (u32 (u64 (size + g.blockSize - 1) / g.blockSize))
    clearTail g size
  else if s.1.size < size then growLoop g n size (size - s.1.size + 1) s.1.size
  else return ()

def truncateInode (n size : Nat) : CopyM Unit := do
  changeBlocks g n size
  modifyCopy fun inode => { inodeSetSize inode size with mtime := 1, ctime := 1 }
  writeCopy n

end

end RadKernel.Ext4
