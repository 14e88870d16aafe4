import RadKernel.Ext4.Inode

/-!
# Directories and paths

`fs/ext4.cpp` from `name_matches` to `lookup_path`. A directory block is a sequence of
records, each an `Ext4DirEntry` (inode, `rec_len`, `name_len`, `file_type`) followed by the
name; a record with inode zero is unused. Names and paths are lists of bytes without the
terminating zero.
-/

namespace RadKernel.Ext4

open Kernel

def slash : UInt8 := 47
def dot : UInt8 := 46

def entryInode (f : Nat → UInt8) (pos : Nat) : Nat := le32 f pos
def recLen (f : Nat → UInt8) (pos : Nat) : Nat := le16 f (pos + 4)
def nameLen (f : Nat → UInt8) (pos : Nat) : Nat := (f (pos + 6)).toNat
def entryName (f : Nat → UInt8) (pos : Nat) : List UInt8 :=
  (List.range (nameLen f pos)).map fun i => f (pos + 8 + i)

/-- `align4(sizeof(Ext4DirEntry) + name_len)`. -/
def direntLen (nameLen : Nat) : Nat := (8 + nameLen + 3) / 4 * 4

/-- The loop over the records of a buffer of `limit` bytes: the first position from `pos`
on that satisfies `p`. It stops at a record shorter than `minLen` or running over the
end. -/
def findRecord (limit minLen : Nat) (p : Nat → Bool) (f : Nat → UInt8) : Nat → Nat → Option Nat
  | 0, _ => none
  | fuel + 1, pos =>
    if limit < pos + 8 then none
    else if recLen f pos < minLen ∨ limit < pos + recLen f pos then none
    else if p pos then some pos
    else findRecord limit minLen p f fuel (pos + recLen f pos)

/-- A record in use under the given name. -/
def isNamed (name : List UInt8) (f : Nat → UInt8) (pos : Nat) : Bool :=
  entryInode f pos ≠ 0 ∧ entryName f pos = name

/-- A record in use that is neither `.` nor `..`. -/
def isChild (f : Nat → UInt8) (pos : Nat) : Bool :=
  entryInode f pos ≠ 0 ∧ entryName f pos ≠ [dot] ∧ entryName f pos ≠ [dot, dot]

/-- An unused record, or the slack behind a used one, of at least `needed` bytes. -/
def hasRoom (needed : Nat) (f : Nat → UInt8) (pos : Nat) : Bool :=
  if entryInode f pos = 0 then needed ≤ recLen f pos
  else direntLen (nameLen f pos) + needed ≤ recLen f pos

/-- Store `v` in `bytes` bytes, the lowest first. -/
def putLe (bytes : Nat) (f : Nat → UInt8) (i v : Nat) : Nat → UInt8 :=
  overlay f i bytes fun k => UInt8.ofNat (v / 2 ^ (8 * k))

def putRecLen (f : Nat → UInt8) (pos v : Nat) : Nat → UInt8 := putLe 2 f (pos + 4) v

/-- The fields of a record apart from its length. -/
def putEntry (f : Nat → UInt8) (pos child : Nat) (name : List UInt8) (fileType : Nat) :
    Nat → UInt8 :=
  let f := putLe 4 f pos child
  let f := putLe 1 f (pos + 6) name.length
  let f := putLe 1 f (pos + 7) fileType
  overlay f (pos + 8) name.length fun i => name.getD i 0

/-- The two ways `add_dirent` places a record at a position with room: an unused record is
taken over with its length, a used one is cut to what it needs. -/
def insertEntry (f : Nat → UInt8) (pos child : Nat) (name : List UInt8) (fileType : Nat) :
    Nat → UInt8 :=
  if entryInode f pos = 0 then putEntry f pos child name fileType
  else
    let actual := direntLen (nameLen f pos)
    let rest := recLen f pos - actual
    let f := putRecLen f pos actual
    let f := overlay f (pos + actual) rest fun _ => 0
    putEntry (putRecLen f (pos + actual) rest) (pos + actual) child name fileType

section

variable (g : Geometry)

def findIn (minLen : Nat) (p : (Nat → UInt8) → Nat → Bool) (f : Nat → UInt8) (limit : Nat) :
    Option Nat :=
  findRecord limit minLen (p f) f limit 0

/-- The loop of `lookup_child` over the directory, from `offset` on. -/
def lookupFrom (dir : Inode) (name : List UInt8) : Nat → Nat → DiskQ Nat
  | 0, _ => Query.fail .notFound
  | fuel + 1, offset =>
    if dir.size ≤ offset then Query.fail .notFound
    else do
      let (got, f) ← readInodeData g dir offset (min g.blockSize (u32 (dir.size - offset)))
      if got < 8 then Query.fail .notFound
      else
        match findIn 8 (isNamed name) f got with
        | some pos => pure (entryInode f pos)
        | none => lookupFrom dir name fuel (offset + got)

def lookupChild (n : Nat) (name : List UInt8) : DiskQ Nat := do
  let dir ← readInode n
  if !inodeIsDir dir then Query.fail .invalidArgument
  else lookupFrom g dir name dir.size 0

/-- The block holding `f`, written back whole. -/
def writeBlock (b : Nat) (f : Nat → UInt8) : DiskM Unit := writeBlockPart b 0 g.blockSize f

/-- The loop of `add_dirent` over `left` blocks from `logical` on; whether it found room. -/
def addToBlocks (n child : Nat) (name : List UInt8) (fileType : Nat) : Nat → Nat → CopyM Bool
  | 0, _ => pure false
  | left + 1, logical => do
    let physical ← ensureInodeBlock g logical
    let s ← Prog.read
    let f := s.2.blocks physical
    match findIn 1 (hasRoom (direntLen name.length)) f g.blockSize with
    | some pos =>
      runDisk (writeBlock g physical (insertEntry f pos child name fileType))
      writeCopy n
      return true
    | none => addToBlocks n child name fileType left (logical + 1)

/-- The block `add_dirent` appends: one record over its whole length. -/
def freshBlock (child : Nat) (name : List UInt8) (fileType : Nat) : Nat → UInt8 :=
  putEntry (putRecLen (fun _ => 0) 0 g.blockSize) 0 child name fileType

/-- The blocks `add_dirent` searches, at least one. -/
def searchedBlocks (dir : Inode) : Nat :=
  max 1 (u32 (u64 (dir.size + g.blockSize - 1) / g.blockSize))

def addDirent (n child : Nat) (name : List UInt8) (fileType : Nat) : CopyM Unit := do
  if ext4NameMax < name.length then Prog.fail .invalidArgument
  else
    let s ← Prog.read
    let blocks := searchedBlocks g s.1
    let placed ← addToBlocks g n child name fileType blocks 0
    if placed then return ()
    else
      let physical ← ensureInodeBlock g blocks
      modifyCopy fun dir => inodeSetSize dir (u32 (blocks + 1) * g.blockSize)
      runDisk (writeBlock g physical (freshBlock g child name fileType))
      writeCopy n

/-- The loop of `remove_dirent` over `left` blocks from `logical` on; whether it found the
name. -/
def removeFromBlocks (n : Nat) (name : List UInt8) : Nat → Nat → CopyM Bool
  | 0, _ => pure false
  | left + 1, logical => do
    let s ← Prog.read
    let physical ← queryDisk (fileBlockNumber s.1 (u32 logical))
    if physical = 0 then removeFromBlocks n name left (logical + 1)
    else
      let f := s.2.blocks physical
      match findIn 8 (isNamed name) f g.blockSize with
      | some pos =>
        runDisk (writeBlock g physical (putLe 4 f pos 0))
        modifyCopy fun dir => { dir with mtime := 1, ctime := 1 }
        writeCopy n
        return true
      | none => removeFromBlocks n name left (logical + 1)

/-- The blocks a loop `offset += block_size` from zero visits below `size`. -/
def blocksBelow (size : Nat) : Nat := (size + g.blockSize - 1) / g.blockSize

/-- A directory whose size is within a block of `2 ^ 64` makes the offset of the loop wrap
to zero, and the loop never ends. -/
def offsetWraps (size : Nat) : Bool := 2 ^ 64 < size + g.blockSize

def removeDirent (n : Nat) (name : List UInt8) : CopyM Unit := do
  let s ← Prog.read
  let found ← removeFromBlocks g n name (blocksBelow g s.1.size) 0
  if found then return ()
  else if offsetWraps g s.1.size then Prog.diverge
  else Prog.fail .notFound

/-- The loop of `dir_is_empty`; blocks that cannot be found are passed over. -/
def emptyFrom (dir : Inode) : Nat → Nat → DiskQ Bool
  | 0, _ => if offsetWraps g dir.size then Query.diverge else pure true
  | left + 1, logical => do
    let d ← Query.read
    match ← (fileBlockNumber dir (u32 logical)).attempt with
    | .error _ => emptyFrom dir left (logical + 1)
    | .ok physical =>
      if physical = 0 then emptyFrom dir left (logical + 1)
      else
        match findIn 8 isChild (d.blocks physical) g.blockSize with
        | some _ => pure false
        | none => emptyFrom dir left (logical + 1)

def dirIsEmpty (dir : Inode) : DiskQ Bool := emptyFrom g dir (blocksBelow g dir.size) 0

/-! ## Paths -/

/-- `path` without trailing slashes; the first character always stays. -/
def stripTrailing : List UInt8 → List UInt8
  | [] => []
  | c :: rest => c :: rest.rdropWhile (· = slash)

/-- The part after the last slash, and the path before it (`/` when that is empty). -/
def baseName (path : List UInt8) : List UInt8 := (stripTrailing path).rtakeWhile (· ≠ slash)

def parentPath (path : List UInt8) : List UInt8 :=
  let dir := ((stripTrailing path).rdropWhile (· ≠ slash)).dropLast
  if dir = [] then [slash] else dir

/-- The buffers hold 128 and 256 bytes, the scratch copy of a path 128. -/
def splitParent (path : List UInt8) : Except Status (List UInt8 × List UInt8) :=
  if path.length = 0 ∨ 128 ≤ path.length then .error .invalidArgument
  else if baseName path = [] ∨ 256 ≤ (baseName path).length then .error .invalidArgument
  else if 128 ≤ (parentPath path).length then .error .noMemory
  else .ok (parentPath path, baseName path)

/-- The loop of `lookup_path` over the parts of the path. -/
def lookupParts : List (List UInt8) → Nat → DiskQ Nat
  | [], current => pure current
  | part :: rest, current =>
    if part = [] ∨ part = [dot] then lookupParts rest current
    else if part = [dot, dot] then Query.fail .notSupported
    else do
      let child ← lookupChild g current part
      lookupParts rest child

def lookupPath (path : List UInt8) : DiskQ (Nat × Inode) := do
  if 128 ≤ path.length then Query.fail .invalidArgument
  else
    let current ← lookupParts g (path.splitOn slash) ext4RootInode
    let inode ← readInode current
    return (current, inode)

end

end RadKernel.Ext4
