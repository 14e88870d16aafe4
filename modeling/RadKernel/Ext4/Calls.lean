import RadKernel.Ext4.Dir

/-!
# The backend operations

The `ext4_*` functions of `fs/ext4.cpp` that the virtual file system calls. The state is
the volume and the table of open files; every open file holds its own copy of the inode,
made when it was opened. A handle is an index into the table. `rad_block_flush` succeeds
and is left out.
-/

namespace RadKernel.Ext4

open Kernel

/-- `Ext4File`. -/
structure Ext4File where
  inodeNumber : Nat := 0
  inode : Inode := {}
  position : Nat := 0
  flags : Nat := 0
  used : Bool := false

/-- The mounted volume and `g_files`. -/
structure Ext4State where
  disk : Disk
  files : Fin maxOpenFiles → Ext4File

abbrev Ext4M := Prog Status Ext4State

def withDisk {α : Type} (x : DiskM α) : Ext4M α :=
  Prog.focus Ext4State.disk (fun d s => { s with disk := d }) x

def setFile (h : Fin maxOpenFiles) (file : Ext4File) : Ext4M Unit :=
  Prog.modify fun s => { s with files := Function.update s.files h file }

def freeHandle (s : Ext4State) : Option (Fin maxOpenFiles) :=
  (List.finRange maxOpenFiles).find? fun h => !(s.files h).used

/-- The outcome of a program on a copy, with its failure passed on and the copy kept. -/
def passing {α : Type} (x : DiskM (Except Status α × Inode)) : DiskM (α × Inode) := do
  let (out, inode) ← x
  match out with
  | .error status => Prog.fail status
  | .ok a => return (a, inode)

/-- Fail with the outcome's error after a cleanup whose own outcome is ignored. -/
def orUndo {α β : Type} (out : Except Status α) (undo : DiskM β) : DiskM α :=
  match out with
  | .error status => do
    let _ ← undo.attempt
    Prog.fail status
  | .ok a => pure a

def split (path : List UInt8) : DiskM (List UInt8 × List UInt8) :=
  match splitParent path with
  | .error status => Prog.fail status
  | .ok parts => pure parts

section

variable (g : Geometry)

/-- `lookup_child(...) == RAD_STATUS_OK`. -/
def childExists (n : Nat) (name : List UInt8) : DiskM Bool := do
  match ← Prog.query (lookupChild g n name).attempt with
  | .ok _ => return true
  | .error _ => return false

/-- The branch of `ext4_open` that makes the missing file. -/
def createFile (path : List UInt8) : DiskM (Nat × Inode) := do
  let (parentPath, name) ← split path
  let (parentNumber, parent) ← Prog.query (lookupPath g parentPath)
  if !inodeIsDir parent then Prog.fail .invalidArgument
  else if ← childExists g parentNumber name then Prog.fail .alreadyExists
  else
    let (n, inode) ← allocateInode g (ext4SIfreg ||| 0o644)
    let (out, _) ← onCopy parent (addDirent g parentNumber n name ext4FtRegular)
    orUndo out (freeInode g n inode)
    return (n, inode)

/-- The file at a path, made first when it is missing and the flags ask for that. -/
def findOrCreate (path : List UInt8) (flags : Nat) : DiskM (Nat × Inode) := do
  match ← Prog.query (lookupPath g path).attempt with
  | .ok file => pure file
  | .error status =>
    if status = .notFound ∧ flags &&& vfsCreate ≠ 0 then createFile g path
    else Prog.fail status

/-- `ext4_open` up to the handle: the inode number and the copy the handle will hold. -/
def openInode (path : List UInt8) (flags : Nat) : DiskM (Nat × Inode) := do
  let (n, inode) ← findOrCreate g path flags
  if !inodeIsReg inode then Prog.fail .invalidArgument
  else if flags &&& vfsTruncate ≠ 0 then
    let ((), inode) ← passing (onCopy inode (truncateInode g n 0))
    return (n, inode)
  else return (n, inode)

def ext4Open (path : List UInt8) (flags : Nat) : Ext4M (Fin maxOpenFiles) := do
  let (n, inode) ← withDisk (openInode g path flags)
  let s ← Prog.read
  match freeHandle s with
  | none => Prog.fail .noMemory
  | some h =>
    setFile h
      { inodeNumber := n, inode, flags, used := true
        position := if flags &&& vfsAppend ≠ 0 then inode.size else 0 }
    return h

def ext4Read (h : Fin maxOpenFiles) (size : Nat) : Ext4M (Nat × (Nat → UInt8)) := do
  let s ← Prog.read
  let file := s.files h
  if !file.used then Prog.fail .invalidArgument
  else
    let (got, bytes) ← withDisk (Prog.query (readInodeData g file.inode file.position size))
    setFile h { file with position := u64 (file.position + got) }
    return (got, bytes)

def ext4Write (h : Fin maxOpenFiles) (size : Nat) (data : Nat → UInt8) : Ext4M Nat := do
  let s ← Prog.read
  let file := s.files h
  if !file.used ∨ file.flags &&& vfsWrite = 0 then Prog.fail .invalidArgument
  else
    let position := if file.flags &&& vfsAppend ≠ 0 then file.inode.size else file.position
    let (out, inode) ← withDisk
      (onCopy file.inode (writeInodeDataGrow g file.inodeNumber position size data))
    match out with
    | .error status =>
      setFile h { file with inode, position }
      Prog.fail status
    | .ok done =>
      setFile h { file with inode, position := u64 (position + done) }
      return done

inductive SeekOrigin where
  | set
  | cur
  | end
  deriving DecidableEq, Repr

def ext4Seek (h : Fin maxOpenFiles) (offset : Int) (origin : SeekOrigin) : Ext4M Unit := do
  let s ← Prog.read
  let file := s.files h
  if !file.used then Prog.fail .invalidArgument
  else
    let base : Int :=
      match origin with
      | .set => 0
      | .cur => (file.position : Int).bmod (2 ^ 64)
      | .end => (file.inode.size : Int).bmod (2 ^ 64)
    let next := (base + offset).bmod (2 ^ 64)
    if next < 0 then Prog.fail .invalidArgument
    else setFile h { file with position := next.toNat }

def ext4Close (h : Fin maxOpenFiles) : Ext4M Unit := setFile h {}

/-- `ext4_stat`, the fields of `rad_vfs_stat_t`. -/
structure Stat where
  size : Nat
  isDirectory : Bool
  mode : Nat
  uid : Nat
  gid : Nat
  mtimeMillis : Nat
  deriving DecidableEq, Repr

def ext4Stat (path : List UInt8) : DiskQ Stat := do
  let (_, inode) ← lookupPath g path
  return ⟨inode.size, inodeIsDir inode, inode.mode, inode.uid, inode.gid, inode.mtime * 1000⟩

/-- The block of a new directory: `.` and `..`, the latter up to the end. -/
def dotBlock (n parent : Nat) : Nat → UInt8 :=
  let first := direntLen 1
  let f := putEntry (putRecLen (fun _ => 0) 0 first) 0 n [dot] ext4FtDirectory
  putEntry (putRecLen f first (g.blockSize - first)) first parent [dot, dot] ext4FtDirectory

/-- The block of a new directory, on the copy of its inode. -/
def fillDir (n parent : Nat) : CopyM Unit := do
  let physical ← ensureInodeBlock g 0
  modifyCopy fun dir => inodeSetSize dir g.blockSize
  runDisk (writeBlock g physical (dotBlock g n parent))

/-- Write a new inode, then enter it in its parent, of which a copy is at hand. -/
def enterInode (n : Nat) (inode : Inode) (parent : Nat) (name : List UInt8) (fileType : Nat) :
    CopyM Unit := do
  runDisk (writeInode n inode)
  addDirent g parent n name fileType

def ext4Mkdir (path : List UInt8) : DiskM Unit := do
  let (parentPath, name) ← split path
  let (parentNumber, parent) ← Prog.query (lookupPath g parentPath)
  if !inodeIsDir parent then Prog.fail .invalidArgument
  else if ← childExists g parentNumber name then Prog.fail .alreadyExists
  else
    let (n, dir) ← allocateInode g (ext4SIfdir ||| 0o755)
    let (filled, dir) ← onCopy dir (fillDir g n parentNumber)
    orUndo filled (freeInode g n dir)
    let (out, parent) ← onCopy parent (enterInode g n dir parentNumber name ext4FtDirectory)
    orUndo out do
      let _ ← onCopy dir (freeInodeBlocks g 0)
      freeInode g n dir
    let _ ← (writeInode parentNumber
      { parent with linksCount := u16 (parent.linksCount + 1) }).attempt
    return ()

/-- The end of `ext4_remove` and `ext4_rmdir`: give back the blocks, then the inode. -/
def dropInode (n : Nat) (inode : Inode) : DiskM Unit := do
  let ((), inode) ← passing (onCopy inode (freeInodeBlocks g 0))
  freeInode g n inode

def ext4Remove (path : List UInt8) : DiskM Unit := do
  let (parentPath, name) ← split path
  let (parentNumber, parent) ← Prog.query (lookupPath g parentPath)
  let n ← Prog.query (lookupChild g parentNumber name)
  let inode ← Prog.query (readInode n)
  if inodeIsDir inode then Prog.fail .invalidArgument
  else
    let _ ← passing (onCopy parent (removeDirent g parentNumber name))
    let inode := { inode with linksCount := inode.linksCount - 1 }
    if inode.linksCount = 0 then dropInode g n inode else writeInode n inode

def ext4Rmdir (path : List UInt8) : DiskM Unit := do
  if path = [slash] ∨ path = [] then Prog.fail .invalidArgument
  else
    let (parentPath, name) ← split path
    let (parentNumber, parent) ← Prog.query (lookupPath g parentPath)
    let n ← Prog.query (lookupChild g parentNumber name)
    let dir ← Prog.query (readInode n)
    if !inodeIsDir dir then Prog.fail .notFound
    else if !(← Prog.query (dirIsEmpty g dir)) then Prog.fail .invalidArgument
    else
      let ((), parent) ← passing (onCopy parent (removeDirent g parentNumber name))
      let _ ← (writeInode parentNumber
        { parent with linksCount := parent.linksCount - 1 }).attempt
      dropInode g n dir

def ext4Rename (oldPath newPath : List UInt8) : DiskM Unit := do
  let (oldParentPath, oldName) ← split oldPath
  let (newParentPath, newName) ← split newPath
  let (oldParentNumber, oldParent) ← Prog.query (lookupPath g oldParentPath)
  let (newParentNumber, newParent) ← Prog.query (lookupPath g newParentPath)
  let n ← Prog.query (lookupChild g oldParentNumber oldName)
  if ← childExists g newParentNumber newName then Prog.fail .alreadyExists
  else
    let inode ← Prog.query (readInode n)
    if inodeIsDir inode ∧ oldParentNumber ≠ newParentNumber then Prog.fail .notSupported
    else
      let _ ← passing (onCopy newParent
        (addDirent g newParentNumber n newName (inodeFileType inode)))
      let _ ← passing (onCopy oldParent (removeDirent g oldParentNumber oldName))
      return ()

def ext4Truncate (path : List UInt8) (size : Nat) : DiskM Unit := do
  let (n, inode) ← Prog.query (lookupPath g path)
  if !inodeIsReg inode then Prog.fail .invalidArgument
  else
    let _ ← passing (onCopy inode (truncateInode g n size))
    return ()

/-- The bytes `sizeof(inode.block)` leaves for the target of a short link. -/
def inlineBytes : Nat := 60

/-- Put the target of a link into its inode, or into blocks when it is too long. -/
def storeTarget (n : Nat) (target : List UInt8) : CopyM Unit := do
  if target.length ≤ inlineBytes then
    modifyCopy fun inode => { inode with area := .raw target }
  else
    modifyCopy initExtentInode
    let done ← writeInodeDataGrow g n 0 target.length fun i => target.getD i 0
    if done ≠ target.length then Prog.fail .error

def ext4Symlink (target linkPath : List UInt8) : DiskM Unit := do
  if 4096 < target.length then Prog.fail .invalidArgument
  else
    let (parentPath, name) ← split linkPath
    let (parentNumber, parent) ← Prog.query (lookupPath g parentPath)
    if ← childExists g parentNumber name then Prog.fail .alreadyExists
    else
      let (n, inode) ← allocateInode g (ext4SIfLnk ||| 0o777)
      let (stored, inode) ← onCopy (inodeSetSize inode target.length) (storeTarget g n target)
      orUndo stored (freeInode g n inode)
      let (out, _) ← onCopy parent (enterInode g n inode parentNumber name ext4FtSymlink)
      orUndo out (freeInode g n inode)

/-- `memcpy(buffer, inode.block, link_size)`. The generation number in the header of an extent
node, which no function reads, is taken for zero. -/
def Area.bytes : Area → Nat → UInt8
  | .raw bytes => fun i => bytes.getD i 0
  | .extents node =>
    let header : Nat → UInt8 :=
      putLe 2 (putLe 2 (putLe 2 (putLe 2 (fun _ => 0) 0 node.magic) 2 node.records.length) 4
        node.max) 6 node.depth
    (node.records.zipIdx).foldl (fun f (e, i) =>
      putLe 4 (putLe 2 (putLe 2 (putLe 4 f (12 + 12 * i) e.block) (16 + 12 * i) e.len)
        (18 + 12 * i) e.startHi) (20 + 12 * i) e.startLo) header

/-- The target of a link in a buffer of `size` bytes, without the zero behind it. -/
def ext4Readlink (path : List UInt8) (size : Nat) : DiskQ (List UInt8) := do
  if size = 0 then Query.fail .invalidArgument
  else
    let (_, inode) ← lookupPath g path
    if !inodeIsSymlink inode then Query.fail .invalidArgument
    else if size < u64 (inode.size + 1) then Query.fail .noMemory
    else if inode.size ≤ inlineBytes then return (List.range inode.size).map inode.area.bytes
    else
      match ← (readInodeData g inode 0 inode.size).attempt with
      | .error _ => Query.fail .error
      | .ok (got, bytes) =>
        if got = inode.size then return (List.range inode.size).map bytes
        else Query.fail .error

def ext4Link (oldPath newPath : List UInt8) : DiskM Unit := do
  let (n, inode) ← Prog.query (lookupPath g oldPath)
  if inodeIsDir inode then Prog.fail .invalidArgument
  else
    let (parentPath, name) ← split newPath
    let (parentNumber, parent) ← Prog.query (lookupPath g parentPath)
    if ← childExists g parentNumber name then Prog.fail .alreadyExists
    else
      let _ ← passing (onCopy parent (addDirent g parentNumber n name (inodeFileType inode)))
      writeInode n { inode with linksCount := u16 (inode.linksCount + 1) }

/-! ## Runs -/

inductive Call where
  | open (path : List UInt8) (flags : Nat)
  | read (h : Fin maxOpenFiles) (size : Nat)
  | write (h : Fin maxOpenFiles) (size : Nat) (data : Nat → UInt8)
  | seek (h : Fin maxOpenFiles) (offset : Int) (origin : SeekOrigin)
  | close (h : Fin maxOpenFiles)
  | truncate (path : List UInt8) (size : Nat)
  | remove (path : List UInt8)
  | mkdir (path : List UInt8)
  | rmdir (path : List UInt8)
  | rename (oldPath newPath : List UInt8)
  | link (oldPath newPath : List UInt8)
  | symlink (target linkPath : List UInt8)

/-- A call, without the values it returns. -/
def perform : Call → Ext4M Unit
  | .open path flags => do
    let _ ← ext4Open g path flags
    return ()
  | .read h size => do
    let _ ← ext4Read g h size
    return ()
  | .write h size data => do
    let _ ← ext4Write g h size data
    return ()
  | .seek h offset origin => ext4Seek h offset origin
  | .close h => ext4Close h
  | .truncate path size => withDisk (ext4Truncate g path size)
  | .remove path => withDisk (ext4Remove g path)
  | .mkdir path => withDisk (ext4Mkdir g path)
  | .rmdir path => withDisk (ext4Rmdir g path)
  | .rename oldPath newPath => withDisk (ext4Rename g oldPath newPath)
  | .link oldPath newPath => withDisk (ext4Link g oldPath newPath)
  | .symlink target linkPath => withDisk (ext4Symlink g target linkPath)

/-- A freshly mounted volume: no file is open. -/
def mounted (d : Disk) : Ext4State := ⟨d, fun _ => {}⟩

/-- The states a run of calls leads to from `start`, with `P` of every call made and of the
state it is made in. -/
inductive Reached (P : Ext4State → Call → Prop) (start : Ext4State) : Ext4State → Prop
  | start : Reached P start start
  | call {s s' : Ext4State} {c : Call} {out : Except Status Unit} (before : Reached P start s)
      (hp : P s c) (run : perform g c s = some (out, s')) : Reached P start s'

end

end RadKernel.Ext4
