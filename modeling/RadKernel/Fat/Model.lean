import RadKernel.Kernel.State
import RadKernel.Lib.Buffer
import RadKernel.Lib.Prog
import Mathlib.Data.List.Range

/-!
# The FAT volume

`fs/fat.cpp`. The device is a table of sectors and does not fail; the buffer `g_sector` is read
anew before each use, so it is local here. A handle is an index into the table of open files, and
what is written is shorter than 4 GiB.

Integers are naturals; where the source computes in `uint32_t` and a value can leave the type,
the wrap-around is written out.
-/

namespace RadKernel.Fat

open Kernel

def sectorSize : Nat := 512
def maxOpenFiles : Nat := 8
def fatEoc : Nat := 0x0ffffff8
def attrDirectory : UInt8 := 0x10
def attrArchive : UInt8 := 0x20
def attrLongName : UInt8 := 0x0f

def u32 (n : Nat) : Nat := n % 2 ^ 32

/-- `uint32_t` subtraction. -/
def sub32 (a b : Nat) : Nat := u32 (a + (2 ^ 32 - u32 b))

/-! ## Bytes -/

/-- A sector, or a record in one. -/
abbrev Bytes := Nat → UInt8

def le16 (b : Bytes) (i : Nat) : Nat := (b i).toNat + 256 * (b (i + 1)).toNat

def le32 (b : Bytes) (i : Nat) : Nat := le16 b i + 65536 * le16 b (i + 2)

theorem le16_lt (b : Bytes) (i : Nat) : le16 b i < 65536 := by
  have := (b i).toNat_lt
  have := (b (i + 1)).toNat_lt
  unfold le16
  omega

theorem le32_lt (b : Bytes) (i : Nat) : le32 b i < 2 ^ 32 := by
  have := le16_lt b i
  have := le16_lt b (i + 2)
  unfold le32
  omega

def le16Bytes (v : Nat) : List UInt8 := [v.toUInt8, (v / 256).toUInt8]

def le32Bytes (v : Nat) : List UInt8 := le16Bytes v ++ le16Bytes (v / 65536)

/-! ## The volume -/

/-- `FatContext`, with what `x86_fat_mount` checks. -/
structure FatContext where
  sectorsPerCluster : Nat
  reservedSectors : Nat
  fatCount : Nat
  fatSize : Nat
  totalSectors : Nat
  rootCluster : Nat
  sectorsPerCluster_pos : 0 < sectorsPerCluster
  sectorsPerCluster_lt : sectorsPerCluster < 256
  fatCount_pos : 0 < fatCount
  fatSize_pos : 0 < fatSize
  totalSectors_lt : totalSectors < 2 ^ 32
  rootCluster_ge : 2 ≤ rootCluster
  data_lt : u32 (reservedSectors + u32 (fatCount * fatSize)) < totalSectors

namespace FatContext

variable (g : FatContext)

def firstDataSector : Nat := u32 (g.reservedSectors + u32 (g.fatCount * g.fatSize))

def clusterCount : Nat := (g.totalSectors - g.firstDataSector) / g.sectorsPerCluster

def clusterBytes : Nat := g.sectorsPerCluster * sectorSize

end FatContext

/-- The sectors of the device. -/
abbrev Disk := Nat → Bytes

abbrev DiskM := Prog Status Disk
abbrev DiskQ := Query Status Disk

def readSector (sector : Nat) : DiskQ Bytes := fun d => some (.ok (d sector))

def writeSector (sector : Nat) (buffer : Bytes) : DiskM Unit :=
  Prog.modify fun d => Function.update d sector buffer

/-- `x86_fat_mount`, what it reads of the first sector. -/
def fatMount (d : Disk) : Except Status FatContext :=
  let bpb := d 0
  if h : le16 bpb 11 = sectorSize ∧ 0 < (bpb 13).toNat ∧ 0 < (bpb 16).toNat ∧ 0 < le32 bpb 36 ∧
      2 ≤ le32 bpb 44 then
    let total := if le16 bpb 19 ≠ 0 then le16 bpb 19 else le32 bpb 32
    if hdata : u32 (le16 bpb 14 + u32 ((bpb 16).toNat * le32 bpb 36)) < total then
      .ok
        { sectorsPerCluster := (bpb 13).toNat
          reservedSectors := le16 bpb 14
          fatCount := (bpb 16).toNat
          fatSize := le32 bpb 36
          totalSectors := total
          rootCluster := le32 bpb 44
          sectorsPerCluster_pos := h.2.1
          sectorsPerCluster_lt := UInt8.toNat_lt _
          fatCount_pos := h.2.2.1
          fatSize_pos := h.2.2.2.1
          totalSectors_lt := by
            have := le16_lt bpb 19
            have := le32_lt bpb 32
            grind
          rootCluster_ge := h.2.2.2.2
          data_lt := hdata }
    else .error .invalidArgument
  else .error .notSupported

section

variable (g : FatContext)

def clusterFirstSector (cluster : Nat) : Nat :=
  u32 (g.firstDataSector + u32 (sub32 cluster 2 * g.sectorsPerCluster))

/-! ## The table -/

def isEoc (cluster : Nat) : Bool := fatEoc ≤ cluster

def fatEntry (cluster : Nat) : DiskQ Nat := do
  if cluster < 2 then Query.fail .invalidArgument
  else
    let offset := u32 (cluster * 4)
    let buffer ← readSector (u32 (g.reservedSectors + offset / sectorSize))
    return le32 buffer (offset % sectorSize) % 2 ^ 28

/-- `set_fat_entry` in the copies of the list. -/
def setFatCopies (offset value : Nat) : List Nat → DiskM Unit
  | [] => return ()
  | fat :: fats => do
    let sector := u32 (g.reservedSectors + u32 (fat * g.fatSize) + offset / sectorSize)
    let buffer ← Prog.query (readSector sector)
    writeSector sector (Buffer.store buffer (offset % sectorSize) (le32Bytes (value % 2 ^ 28)))
    setFatCopies offset value fats

def setFatEntry (cluster value : Nat) : DiskM Unit := do
  if cluster < 2 then Prog.fail .invalidArgument
  else setFatCopies g (u32 (cluster * 4)) value (List.range g.fatCount)

/-- `zero_cluster`, from sector `first` on. -/
def zeroSectors (first : Nat) : Nat → DiskM Unit
  | 0 => return ()
  | n + 1 => do
    writeSector (u32 first) fun _ => 0
    zeroSectors (first + 1) n

def zeroCluster (cluster : Nat) : DiskM Unit :=
  zeroSectors (clusterFirstSector g cluster) g.sectorsPerCluster

/-- `allocate_cluster`, with `n` clusters from `cluster` on left to look at. -/
def allocateFrom (cluster : Nat) : Nat → DiskM Nat
  | 0 => Prog.fail .noMemory
  | n + 1 => do
    let value ← Prog.query (fatEntry g cluster)
    if value = 0 then
      setFatEntry g cluster fatEoc
      zeroCluster g cluster
      return cluster
    else allocateFrom (cluster + 1) n

def allocateCluster : DiskM Nat := allocateFrom g 2 (u32 (g.clusterCount + 2) - 2)

/-- More than the rounds of a loop over a chain that comes to its end. -/
def maxRounds : Nat := 2 ^ 28 + 1

/-- `free_chain` in so many rounds. -/
def freeRounds : Nat → Nat → DiskM Unit
  | 0, _ => Prog.diverge
  | rounds + 1, cluster => do
    if cluster < 2 || isEoc cluster then return ()
    else
      let next ← Prog.query (fatEntry g cluster)
      setFatEntry g cluster 0
      if isEoc next then return () else freeRounds rounds next

def freeChain (firstCluster : Nat) : DiskM Unit := freeRounds g maxRounds firstCluster

/-- The loop of `cluster_at`; 0 where the chain ends early and nothing is allocated. -/
def followChain (allocate : Bool) : Nat → Nat → DiskM Nat
  | 0, cluster => return cluster
  | index + 1, cluster => do
    let next ← Prog.query (fatEntry g cluster)
    if isEoc next then
      if allocate then
        let next ← allocateCluster g
        setFatEntry g cluster next
        followChain allocate index next
      else return 0
    else followChain allocate index next

/-! ## The root directory -/

/-- The 32 bytes of a `FatDirEntry`. -/
abbrev FatDirEntry := Bytes

def entrySize : Nat := 32

namespace FatDirEntry

variable (entry : FatDirEntry)

def name : List UInt8 := (List.range 11).map entry
def attr : UInt8 := entry 11
def size : Nat := le32 entry 28

/-- `entry_first_cluster`. -/
def firstCluster : Nat := le16 entry 20 * 65536 + le16 entry 26

/-- `set_entry_first_cluster`. -/
def setFirstCluster (cluster : Nat) : FatDirEntry :=
  Buffer.store (Buffer.store entry 20 (le16Bytes (cluster / 65536))) 26 (le16Bytes cluster)

def setSize (size : Nat) : FatDirEntry := Buffer.store entry 28 (le32Bytes size)

end FatDirEntry

def toUpperAscii (ch : UInt8) : UInt8 := if 97 ≤ ch ∧ ch ≤ 122 then ch - 32 else ch

/-- The characters that `make_short_name` turns down, besides those up to the space. -/
def badCharacters : List UInt8 := [34, 42, 43, 44, 47, 58, 59, 60, 61, 62, 63, 91, 92, 93, 124]

/-- The loop of `make_short_name`: the base, the extension and whether a dot was seen. -/
def shortNameParts (base ext : List UInt8) (inExt : Bool) :
    List UInt8 → Option (List UInt8 × List UInt8)
  | [] => some (base, ext)
  | p :: rest =>
    if p = 46 then
      if inExt then none else shortNameParts base ext true rest
    else
      let ch := toUpperAscii p
      if ch ≤ 32 ∨ ch ∈ badCharacters then none
      else if !inExt then
        if 8 ≤ base.length then none else shortNameParts (base ++ [ch]) ext inExt rest
      else if 3 ≤ ext.length then none
      else shortNameParts base (ext ++ [ch]) inExt rest

def padded (n : Nat) (text : List UInt8) : List UInt8 := text ++ List.replicate (n - text.length) 32

/-- `make_short_name`; a path has no zero byte. -/
def makeShortName (path : List UInt8) : Option (List UInt8) :=
  let path := path.dropWhile fun ch => ch = 47
  if path = [] ∨ 47 ∈ path then none
  else
    match shortNameParts [] [] false path with
    | none => none
    | some (base, ext) => if base = [] then none else some (padded 8 base ++ padded 3 ext)

def readDirEntry (cluster offset : Nat) : DiskQ FatDirEntry := do
  let buffer ← readSector (u32 (clusterFirstSector g cluster + offset / sectorSize))
  return fun i => buffer (offset % sectorSize + i)

def writeDirEntry (cluster offset : Nat) (entry : FatDirEntry) : DiskM Unit := do
  let sector := u32 (clusterFirstSector g cluster + offset / sectorSize)
  let buffer ← Prog.query (readSector sector)
  writeSector sector
    (Buffer.store buffer (offset % sectorSize) ((List.range entrySize).map entry))

/-- What `find_entry` finds in one cluster. -/
inductive Scan where
  | found (entry : FatDirEntry) (offset : Nat)
  | ended (freeOffset : Option Nat)
  | exhausted (freeOffset : Option Nat)

/-- The loop of `find_entry` over `n` entries of a cluster from `offset` on. -/
def scanCluster (name : List UInt8) (cluster : Nat) : Nat → Nat → Option Nat → DiskQ Scan
  | 0, _, free => return .exhausted free
  | n + 1, offset, free => do
    let current ← readDirEntry g cluster offset
    if current 0 = 0 then return .ended (free.or (some offset))
    else if current 0 = 0xe5 then
      scanCluster name cluster n (offset + entrySize) (free.or (some offset))
    else if current.attr &&& attrLongName = attrLongName then
      scanCluster name cluster n (offset + entrySize) free
    else if current.name = name then return .found current offset
    else scanCluster name cluster n (offset + entrySize) free

/-- What `find_entry` finds; the free offset when there is one. -/
inductive Found where
  | entry (entry : FatDirEntry) (offset : Nat)
  | missing (freeOffset : Option Nat)

/-- `find_entry` in so many clusters. -/
def findRounds (name : List UInt8) : Nat → Nat → Option Nat → DiskQ Found
  | 0, _, _ => Query.diverge
  | rounds + 1, cluster, free => do
    match ← scanCluster g name cluster (g.clusterBytes / entrySize) 0 free with
    | .found entry offset => return .entry entry offset
    | .ended free => return .missing free
    | .exhausted free =>
      let next ← fatEntry g cluster
      if isEoc next then return .missing free else findRounds name rounds next free

def findEntry (name : List UInt8) : DiskQ Found := findRounds g name maxRounds g.rootCluster none

end

/-! ## Files -/

/-- `FatFile`. -/
structure FatFile where
  used : Bool := false
  firstCluster : Nat := 0
  size : Nat := 0
  position : Nat := 0
  dirCluster : Nat := 0
  dirOffset : Nat := 0
  flags : Nat := 0
  deriving DecidableEq, Repr

/-- The mounted volume and `g_files`. -/
structure FatState where
  disk : Disk
  files : Fin maxOpenFiles → FatFile := fun _ => {}

abbrev FatM := Prog Status FatState

def withDisk {α : Type} (x : DiskM α) : FatM α :=
  Prog.focus FatState.disk (fun d s => { s with disk := d }) x

def setFile (h : Fin maxOpenFiles) (file : FatFile) : FatM Unit :=
  Prog.modify fun s => { s with files := Function.update s.files h file }

/-- The handle that `allocate_file` takes. -/
def freeFile (s : FatState) : Option (Fin maxOpenFiles) :=
  (List.finRange maxOpenFiles).find? fun h => !(s.files h).used

section

variable (g : FatContext)

def clusterAt (h : Fin maxOpenFiles) (index : Nat) (allocate : Bool) : FatM Nat := do
  let s ← Prog.read
  let file := s.files h
  if file.firstCluster = 0 then
    if allocate then
      let first ← withDisk (allocateCluster g)
      setFile h { file with firstCluster := first }
      withDisk (followChain g allocate index first)
    else return 0
  else withDisk (followChain g allocate index file.firstCluster)

/-- The entry that `fat_open` makes for a name that is missing. -/
def newEntry (name : List UInt8) : FatDirEntry :=
  Buffer.store (Buffer.store (fun _ => 0) 0 name) 11 [attrArchive]

/-- `fat_open`, up to the entry and its offset. -/
def findOrCreate (name : List UInt8) (flags : Nat) : DiskM (FatDirEntry × Nat) := do
  match ← Prog.query (findEntry g name) with
  | .entry entry offset => return (entry, offset)
  | .missing none => Prog.fail .notFound
  | .missing (some offset) =>
    if flags &&& vfsCreate = 0 then Prog.fail .notFound
    else
      writeDirEntry g g.rootCluster offset (newEntry name)
      return (newEntry name, offset)

/-- `fat_open`, the part for `RAD_VFS_TRUNCATE`. -/
def truncateEntry (entry : FatDirEntry) (offset flags : Nat) : DiskM FatDirEntry := do
  if flags &&& vfsTruncate ≠ 0 ∧ flags &&& vfsWrite ≠ 0 then
    if entry.firstCluster ≠ 0 then freeChain g entry.firstCluster
    let entry := (entry.setSize 0).setFirstCluster 0
    writeDirEntry g g.rootCluster offset entry
    return entry
  else return entry

def openEntry (name : List UInt8) (flags : Nat) : DiskM (FatDirEntry × Nat) := do
  let (entry, offset) ← findOrCreate g name flags
  if entry.attr &&& attrDirectory ≠ 0 then Prog.fail .invalidArgument
  else
    let entry ← truncateEntry g entry offset flags
    return (entry, offset)

def fatOpen (path : List UInt8) (flags : Nat) : FatM (Fin maxOpenFiles) := do
  match makeShortName path with
  | none => Prog.fail .notSupported
  | some name =>
    let (entry, offset) ← withDisk (openEntry g name flags)
    let s ← Prog.read
    match freeFile s with
    | none => Prog.fail .noMemory
    | some h =>
      setFile h
        { used := true
          firstCluster := entry.firstCluster
          size := entry.size
          position := if flags &&& vfsAppend ≠ 0 then entry.size else 0
          dirCluster := g.rootCluster
          dirOffset := offset
          flags := flags }
      return h

/-- The loop of `fat_read` in so many rounds; `out` is what was copied. -/
def readRounds (h : Fin maxOpenFiles) (position remaining : Nat) :
    Nat → List UInt8 → FatM (List UInt8)
  | 0, out => return out
  | rounds + 1, out => do
    if out.length < remaining then
      let absolute := u32 (position + out.length)
      let cluster ← clusterAt g h (absolute / g.clusterBytes) false
      if cluster = 0 then return out
      else
        let offset := absolute % g.clusterBytes
        let sector := u32 (clusterFirstSector g cluster + offset / sectorSize)
        let buffer ← withDisk (Prog.query (readSector sector))
        let copy := min (remaining - out.length) (sectorSize - offset % sectorSize)
        readRounds h position remaining rounds
          (out ++ (List.range copy).map fun i => buffer (offset % sectorSize + i))
    else return out

/-- `fat_read`; every round copies a byte or more. -/
def fatRead (h : Fin maxOpenFiles) (size : Nat) : FatM (List UInt8) := do
  let s ← Prog.read
  let file := s.files h
  if file.used = false ∨ file.flags &&& vfsRead = 0 then Prog.fail .invalidArgument
  else
    let remaining := min (file.size - file.position) size
    let out ← readRounds g h file.position remaining remaining []
    let s ← Prog.read
    setFile h { s.files h with position := u32 (file.position + out.length) }
    return out

/-- The loop of `fat_write` in so many rounds; the first `done` bytes are written. -/
def writeRounds (h : Fin maxOpenFiles) (position : Nat) (bytes : List UInt8) :
    Nat → Nat → FatM Nat
  | 0, done => return done
  | rounds + 1, done => do
    if done < bytes.length then
      let absolute := u32 (position + done)
      let cluster ← clusterAt g h (absolute / g.clusterBytes) true
      let offset := absolute % g.clusterBytes
      let sector := u32 (clusterFirstSector g cluster + offset / sectorSize)
      let buffer ← withDisk (Prog.query (readSector sector))
      let copy := min (bytes.length - done) (sectorSize - offset % sectorSize)
      withDisk (writeSector sector
        (Buffer.store buffer (offset % sectorSize) ((bytes.drop done).take copy)))
      writeRounds h position bytes rounds (done + copy)
    else return done

/-- `fat_write`; every round writes a byte or more. -/
def fatWrite (h : Fin maxOpenFiles) (bytes : List UInt8) : FatM Nat := do
  let s ← Prog.read
  let file := s.files h
  if file.used = false ∨ file.flags &&& vfsWrite = 0 then Prog.fail .invalidArgument
  else
    let done ← writeRounds g h file.position bytes bytes.length 0
    let s ← Prog.read
    let position := u32 (file.position + done)
    setFile h { s.files h with position := position, size := max file.size position }
    return done

/-- `rad_seek_origin_t`. -/
inductive SeekOrigin where
  | set
  | current
  | fromEnd
  deriving DecidableEq, Repr

def fatSeek (h : Fin maxOpenFiles) (offset : Int) (origin : SeekOrigin) : FatM Unit := do
  let s ← Prog.read
  let file := s.files h
  if file.used = false then Prog.fail .invalidArgument
  else
    let base : Int :=
      match origin with
      | .set => 0
      | .current => file.position
      | .fromEnd => file.size
    let next := base + offset
    if next < 0 then Prog.fail .invalidArgument
    else setFile h { file with position := u32 next.toNat }

/-- `fat_close`; flushing the device is left out. -/
def fatClose (h : Fin maxOpenFiles) : FatM Unit := do
  let s ← Prog.read
  let file := s.files h
  if file.used = false then return ()
  else
    let entry ← withDisk (Prog.query (readDirEntry g file.dirCluster file.dirOffset))
    let entry := (entry.setSize file.size).setFirstCluster file.firstCluster
    withDisk (writeDirEntry g file.dirCluster file.dirOffset entry)
    setFile h {}

end

end RadKernel.Fat
