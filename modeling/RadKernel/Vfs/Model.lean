import RadKernel.Kernel.State

/-!
# The virtual file system

Path handling, the in-memory files, mounted providers and the calls of
`core/RADKernel_runtime.cpp` that open or change files by path. A path is a list of
characters without the terminating zero; buffers cut it to their size. A provider's
operations are functions on the state of its backend, and one that may be null is optional.
-/

namespace RadKernel.Vfs

open Kernel

def maxVfsFiles : Nat := 16
def vfsFileBytes : Nat := 4096
def maxMounts : Nat := 4
def maxVfsProviders : Nat := 4

/-- `rad_vfs_stat_t`. -/
structure VfsStat where
  isDirectory : Bool := false
  size : Nat := 0
  mode : Nat := 0
  uid : Nat := 0
  gid : Nat := 0
  deriving DecidableEq, Repr

structure VfsFileRecord where
  path : List Char := []
  data : Nat → UInt8 := fun _ => 0
  size : Nat := 0
  isDirectory : Bool := false
  mode : Nat := 0
  uid : Nat := 0
  gid : Nat := 0
  used : Bool := false

structure MountRecord where
  mountPoint : List Char := []
  used : Bool := false

structure VfsProviderRecord where
  mountPoint : List Char := []
  used : Bool := false

/-- `rad_vfs_backend_ops_t`, the operations used here, over the backend's state. -/
structure BackendOps (β : Type) where
  stat : Option (β → List Char → Status × VfsStat)
  «open» : β → List Char → Nat → Status × β
  close : β → β
  mkdir : Option (β → List Char → Status × β)
  remove : Option (β → List Char → Status × β)
  rmdir : Option (β → List Char → Status × β)
  rename : Option (β → List Char → List Char → Status × β)
  truncate : Option (β → List Char → Nat → Status × β)
  chmod : Option (β → List Char → Nat → Status × β)

structure VfsState (β : Type) where
  files : Nat → VfsFileRecord := fun _ => {}
  mounts : Nat → MountRecord := fun _ => {}
  providers : Nat → VfsProviderRecord := fun _ => {}
  cwd : List Char := []
  backend : β

variable {β : Type}

/-! ## Paths -/

/-- `copy_string` into a buffer of `size` bytes. -/
def copyString (size : Nat) (s : List Char) : List Char := s.take (size - 1)

/-- The parts of a path between slashes. -/
def components : List Char → List (List Char)
  | [] => []
  | c :: rest =>
    if c = '/' then components rest
    else
      match rest with
      | [] => [[c]]
      | d :: _ =>
        if d = '/' then [c] :: components rest
        else
          match components rest with
          | [] => [[c]]
          | part :: parts => (c :: part) :: parts

/-- The loop of `normalize_path` over the parts: at most 16 are kept. -/
def resolveParts : List (List Char) → List (List Char) → List (List Char)
  | parts, [] => parts
  | parts, part :: rest =>
    if 16 ≤ parts.length then parts
    else if part = ['.'] then resolveParts parts rest
    else if part = ['.', '.'] then resolveParts parts.dropLast rest
    else resolveParts (parts ++ [part]) rest

/-- `normalize_path` into a buffer of 96 bytes. -/
def normalizePath (cwd path : List Char) : List Char :=
  let base := if cwd = [] then ['/'] else cwd
  let path := if path = [] then base else path
  let joined :=
    if path.head? = some '/' then copyString 160 path
    else
      let base := copyString 160 base
      let base := if 1 < base.length ∧ base.getLast? ≠ some '/' then base ++ ['/'] else base
      copyString 160 (base ++ path)
  copyString 96 ('/' :: List.intercalate ['/'] (resolveParts [] (components joined)))

/-- `is_child_name` without the name it hands back. -/
def isChildName (parent path : List Char) : Bool :=
  if parent = ['/'] then path.head? = some '/' && path.drop 1 ≠ [] && !(path.drop 1).contains '/'
  else
    let rest := path.drop parent.length
    parent.isPrefixOf path && rest.head? = some '/' && rest.drop 1 ≠ [] &&
      !(rest.drop 1).contains '/'

/-- `parent_path`: everything before the last slash. -/
def parentPath (path : List Char) : List Char :=
  let path := copyString 96 path
  let upTo := (path.reverse.dropWhile (· ≠ '/')).drop 1
  if upTo = [] then ['/'] else upTo.reverse

def below (mount path : List Char) : Bool :=
  mount = ['/'] || (mount.isPrefixOf path &&
    (path.length = mount.length || (path.drop mount.length).head? = some '/'))

/-! ## Tables -/

def findFileOrDir (s : VfsState β) (path : List Char) : Option Nat :=
  (List.range maxVfsFiles).find? fun i => (s.files i).used ∧ (s.files i).path = path

def hasChildren (s : VfsState β) (path : List Char) : Bool :=
  (List.range maxVfsFiles).any fun i => (s.files i).used && isChildName path (s.files i).path

def freeFile (s : VfsState β) : Option Nat :=
  (List.range maxVfsFiles).find? fun i => !(s.files i).used

def mountedPath (s : VfsState β) (path : List Char) : Bool :=
  (List.range maxMounts).any fun i => (s.mounts i).used && below (s.mounts i).mountPoint path

/-- The loop of `provider_for_path`: the longest mount point so far and its provider. -/
def bestProvider (s : VfsState β) (path : List Char) : Nat → Nat × Option Nat
  | 0 => (0, none)
  | i + 1 =>
    let (best, provider) := bestProvider s path i
    let mount := (s.providers i).mountPoint
    if (s.providers i).used ∧ best ≤ mount.length ∧ below mount path then (mount.length, some i)
    else (best, provider)

/-- `provider_for_path`: the provider and the path relative to its mount point. -/
def providerForPath (s : VfsState β) (path : List Char) : Option (Nat × List Char) :=
  match bestProvider s path maxVfsProviders with
  | (_, none) => none
  | (best, some i) =>
    if (s.providers i).mountPoint = ['/'] then
      some (i, if path.head? = some '/' then path.drop 1 else path)
    else
      let rest := path.drop best
      some (i, if rest.head? = some '/' then rest.drop 1 else [])

def fillStat (r : VfsFileRecord) : VfsStat where
  isDirectory := r.isDirectory
  size := if r.isDirectory then 0 else r.size
  mode := if r.mode ≠ 0 then r.mode else if r.isDirectory then 0o040755 else 0o100644
  uid := r.uid
  gid := r.gid

/-! ## Permissions -/

/-- The rwx bits of the caller's class. -/
def classBits (c : Credentials) (stat : VfsStat) : Nat :=
  let mode := stat.mode &&& 0o777
  let shift := if c.euid = stat.uid then 6 else if c.egid = stat.gid then 3 else 0
  mode >>> shift

def modeAllows (c : Credentials) (stat : VfsStat) (want : Nat) : Bool :=
  c.euid = 0 || classBits c stat &&& want = want

def canReadStat (c : Credentials) (stat : VfsStat) : Bool := modeAllows c stat 4
def canWriteStat (c : Credentials) (stat : VfsStat) : Bool := modeAllows c stat 2
def canExecuteStat (c : Credentials) (stat : VfsStat) : Bool := modeAllows c stat 1

/-- The flags ask for no more than the caller may do with the file. -/
def flagsAllowed (c : Credentials) (flags : Nat) (stat : VfsStat) : Bool :=
  (flags &&& vfsRead = 0 || canReadStat c stat) &&
    (flags &&& (vfsWrite ||| vfsTruncate ||| vfsAppend) = 0 || canWriteStat c stat)

/-- The caller may add and remove names in the directory. -/
def mayChange (c : Credentials) (r : VfsFileRecord) : Bool :=
  canWriteStat c (fillStat r) && canExecuteStat c (fillStat r)

/-! ## Calls -/

def setFile (s : VfsState β) (i : Nat) (r : VfsFileRecord) : VfsState β :=
  { s with files := Function.update s.files i r }

/-- `allocate_file` and the second half of `ensure_directory`. The bytes in the buffer stay. -/
def newFile (r : VfsFileRecord) (c : Credentials) (path : List Char) (directory : Bool) :
    VfsFileRecord :=
  { r with
    path := copyString 96 path
    size := 0
    isDirectory := directory
    mode := if directory then 0o040755 else 0o100644
    uid := c.euid
    gid := c.egid
    used := true }

def ensureDirectory (s : VfsState β) (c : Credentials) (path : List Char) :
    Bool × VfsState β :=
  match findFileOrDir s path with
  | some i => ((s.files i).isDirectory, s)
  | none =>
    match freeFile s with
    | some i => (true, setFile s i (newFile (s.files i) c path true))
    | none => (false, s)

def freeMount (s : VfsState β) : Option Nat :=
  (List.range maxMounts).find? fun i => !(s.mounts i).used

/-- `rad_vfs_mount_sd`. `hal` is the answer of `rad_hal_mount_sd` on a board that has it. The
mount point is kept as it was given, the directory is made under the normalised path. -/
def radVfsMountSd (s : VfsState β) (c : Credentials) (hal : Option Status)
    (mountPoint : List Char) : Status × VfsState β :=
  let status := hal.getD .notSupported
  if status ≠ .ok ∧ status ≠ .notSupported then (status, s)
  else
    match freeMount s with
    | none => (.noMemory, s)
    | some i =>
      let mount : MountRecord := { mountPoint := copyString 32 mountPoint, used := true }
      let s := { s with mounts := Function.update s.mounts i mount }
      (.ok, (ensureDirectory s c (normalizePath s.cwd mountPoint)).2)

/-- `rad_vfs_mount_provider`. -/
def radVfsMountProvider (s : VfsState β) (c : Credentials) (mountPoint : List Char) :
    Status × VfsState β :=
  let normalized := normalizePath s.cwd mountPoint
  if (List.range maxVfsProviders).any fun i =>
      (s.providers i).used && (s.providers i).mountPoint = normalized then (.alreadyExists, s)
  else
    match (List.range maxVfsProviders).find? fun i => !(s.providers i).used with
    | none => (.noMemory, s)
    | some i =>
      let provider : VfsProviderRecord := { mountPoint := copyString 32 normalized, used := true }
      let s := { s with providers := Function.update s.providers i provider }
      let s := (ensureDirectory s c normalized).2
      if (List.range maxMounts).any fun m =>
          (s.mounts m).used && (s.mounts m).mountPoint = normalized then (.ok, s)
      else
        match freeMount s with
        | none => (.ok, s)
        | some m =>
          let mount : MountRecord := { mountPoint := copyString 32 normalized, used := true }
          (.ok, { s with mounts := Function.update s.mounts m mount })

/-- `RAD_VFS_TRUNCATE` on the record that is opened. -/
def truncateRecord (flags i : Nat) (s : VfsState β) : VfsState β :=
  if flags &&& vfsTruncate ≠ 0 then setFile s i { s.files i with size := 0 } else s

/-- The in-memory half of `rad_vfs_open` up to the handle: the record that is opened, after
`allocate_file` when there was none. -/
def openRecord (s : VfsState β) (c : Credentials) (normalized : List Char) (flags : Nat) :
    Except Status (Nat × VfsState β) :=
  match findFileOrDir s normalized with
  | some i =>
    if (s.files i).isDirectory then .error .invalidArgument
    else if !flagsAllowed c flags (fillStat (s.files i)) then .error .invalidArgument
    else .ok (i, truncateRecord flags i s)
  | none =>
    if flags &&& vfsCreate = 0 then .error .notFound
    else
      match findFileOrDir s (parentPath normalized) with
      | none => .error .notFound
      | some d =>
        if !(s.files d).isDirectory then .error .notFound
        else if !mayChange c (s.files d) then .error .invalidArgument
        else
          match freeFile s with
          | none => .error .noMemory
          | some i =>
            .ok (i, truncateRecord flags i (setFile s i (newFile (s.files i) c normalized false)))

/-- `rad_vfs_open`. `allocated` says whether `rad_memory_alloc` gives memory for the handle. -/
def radVfsOpen (ops : Nat → BackendOps β) (s : VfsState β) (c : Credentials) (path : List Char)
    (flags : Nat) (allocated : Bool) : Status × VfsState β :=
  let normalized := normalizePath s.cwd path
  match providerForPath s normalized with
  | some (p, relative) =>
    let denied : Status :=
      if flags &&& vfsCreate ≠ 0 then .ok
      else
        match (ops p).stat with
        | none => .ok
        | some stat =>
          let (status, m) := stat s.backend relative
          if status ≠ .ok then status
          else if flagsAllowed c flags m then .ok
          else .invalidArgument
    if denied ≠ .ok then (denied, s)
    else
      let (status, backend) := (ops p).open s.backend relative flags
      if status ≠ .ok then (status, { s with backend := backend })
      else if allocated then (.ok, { s with backend := backend })
      else (.noMemory, { s with backend := (ops p).close backend })
  | none =>
    if !mountedPath s normalized then (.notFound, s)
    else
      match openRecord s c normalized flags with
      | .error status => (status, s)
      | .ok (_, s) => (if allocated then .ok else .noMemory, s)

/-- A provider's operation, or `RAD_STATUS_NOT_SUPPORTED` when its pointer is null. -/
def callProvider (s : VfsState β) (operation : Option (β → Status × β)) : Status × VfsState β :=
  match operation with
  | none => (.notSupported, s)
  | some f => ((f s.backend).1, { s with backend := (f s.backend).2 })

def radVfsMkdir (ops : Nat → BackendOps β) (s : VfsState β) (c : Credentials) (path : List Char) :
    Status × VfsState β :=
  let normalized := normalizePath s.cwd path
  match providerForPath s normalized with
  | some (p, relative) => callProvider s ((ops p).mkdir.map fun f b => f b relative)
  | none =>
    if !mountedPath s normalized then (.notFound, s)
    else
      match findFileOrDir s (parentPath normalized) with
      | none => (.notFound, s)
      | some d =>
        if !(s.files d).isDirectory then (.notFound, s)
        else if !mayChange c (s.files d) then (.invalidArgument, s)
        else
          match findFileOrDir s normalized with
          | some i => (if (s.files i).isDirectory then .ok else .alreadyExists, s)
          | none =>
            let (made, s) := ensureDirectory s c normalized
            (if made then .ok else .noMemory, s)

/-- The end of `rad_vfs_remove` and `rad_vfs_rmdir`: the record goes if its parent, when there
is one, may be changed. -/
def dropRecord (s : VfsState β) (c : Credentials) (normalized : List Char) (i : Nat) :
    Status × VfsState β :=
  match findFileOrDir s (parentPath normalized) with
  | some d =>
    if !mayChange c (s.files d) then (.invalidArgument, s) else (.ok, setFile s i {})
  | none => (.ok, setFile s i {})

def radVfsRemove (ops : Nat → BackendOps β) (s : VfsState β) (c : Credentials) (path : List Char) :
    Status × VfsState β :=
  let normalized := normalizePath s.cwd path
  match providerForPath s normalized with
  | some (p, relative) => callProvider s ((ops p).remove.map fun f b => f b relative)
  | none =>
    match findFileOrDir s normalized with
    | none => (.notFound, s)
    | some i =>
      if (s.files i).isDirectory ∧ hasChildren s normalized then (.invalidArgument, s)
      else dropRecord s c normalized i

def radVfsRmdir (ops : Nat → BackendOps β) (s : VfsState β) (c : Credentials) (path : List Char) :
    Status × VfsState β :=
  let normalized := normalizePath s.cwd path
  match providerForPath s normalized with
  | some (p, relative) => callProvider s ((ops p).rmdir.map fun f b => f b relative)
  | none =>
    match findFileOrDir s normalized with
    | none => (.notFound, s)
    | some i =>
      if !(s.files i).isDirectory then (.notFound, s)
      else if hasChildren s normalized then (.invalidArgument, s)
      else dropRecord s c normalized i

def radVfsRename (ops : Nat → BackendOps β) (s : VfsState β) (c : Credentials)
    (oldPath newPath : List Char) : Status × VfsState β :=
  let old := normalizePath s.cwd oldPath
  let new := normalizePath s.cwd newPath
  match providerForPath s old, providerForPath s new with
  | none, none =>
    match findFileOrDir s old with
    | none => (.notFound, s)
    | some i =>
      if (findFileOrDir s new).isSome then (.alreadyExists, s)
      else
        match findFileOrDir s (parentPath new) with
        | none => (.notFound, s)
        | some d =>
          if !(s.files d).isDirectory then (.notFound, s)
          else if !mayChange c (s.files d) then (.invalidArgument, s)
          else (.ok, setFile s i { s.files i with path := copyString 96 new })
  | some (p, relative), some (p', relative') =>
    if p ≠ p' then (.invalidArgument, s)
    else callProvider s ((ops p).rename.map fun f b => f b relative relative')
  | _, _ => (.invalidArgument, s)

def radVfsTruncate (ops : Nat → BackendOps β) (s : VfsState β) (c : Credentials)
    (path : List Char) (size : Nat) : Status × VfsState β :=
  let normalized := normalizePath s.cwd path
  match providerForPath s normalized with
  | some (p, relative) => callProvider s ((ops p).truncate.map fun f b => f b relative size)
  | none =>
    if vfsFileBytes < size then (.noMemory, s)
    else
      match findFileOrDir s normalized with
      | none => (.notFound, s)
      | some i =>
        let r := s.files i
        if r.isDirectory then (.notFound, s)
        else if !canWriteStat c (fillStat r) then (.invalidArgument, s)
        else
          (.ok, setFile s i
            { r with
              data := fun k => if r.size ≤ k ∧ k < size then 0 else r.data k
              size := size })

end RadKernel.Vfs
