import RadKernel.Lib.Buffer
import RadKernel.Vfs.Tree

/-!
# File handles and the bytes they read

A handle of an in-memory file keeps the slot of its record. `rad_vfs_remove` frees the slot,
and `allocate_file` gives it to another file while handles still refer to it. The buffer of a
record keeps its bytes when the size shrinks, and `rad_vfs_write` past the end makes them part
of the file again.
-/

namespace RadKernel.Vfs

open Kernel

/-- `rad_file_handle`, of an in-memory file. -/
structure VfsHandle where
  entryIndex : Nat
  position : Nat
  flags : Nat
  deriving DecidableEq, Repr

/-- `rad_seek_origin_t`. -/
inductive SeekOrigin where
  | set
  | cur
  | «end»
  deriving DecidableEq, Repr

variable {β : Type} {ops : Nat → BackendOps β} {s t : VfsState β} {c : Credentials}
  {path : List Char} {flags i j : Nat} {file : VfsHandle}

/-! ## Calls on a handle -/

def radVfsRead (s : VfsState β) (file : VfsHandle) (size : Nat) :
    Status × List UInt8 × VfsHandle :=
  if file.flags &&& vfsRead = 0 then (.invalidArgument, [], file)
  else if maxVfsFiles ≤ file.entryIndex then (.invalidArgument, [], file)
  else
    let record := s.files file.entryIndex
    if !record.used then (.notFound, [], file)
    else
      let available := if file.position < record.size then record.size - file.position else 0
      let count := if available < size then available else size
      (.ok, (List.range count).map fun k => record.data (file.position + k),
        { file with position := file.position + count })

/-- `rad_vfs_write`: the status, the number of bytes written, the handle and the table. -/
def radVfsWrite (s : VfsState β) (file : VfsHandle) (buffer : List UInt8) :
    Status × Nat × VfsHandle × VfsState β :=
  if file.flags &&& vfsWrite = 0 then (.invalidArgument, 0, file, s)
  else if maxVfsFiles ≤ file.entryIndex then (.invalidArgument, 0, file, s)
  else
    let record := s.files file.entryIndex
    if !record.used then (.notFound, 0, file, s)
    else
      let file :=
        if file.flags &&& vfsAppend ≠ 0 then { file with position := record.size } else file
      if vfsFileBytes ≤ file.position then (.noMemory, 0, file, s)
      else
        let capacity := vfsFileBytes - file.position
        let count := if capacity < buffer.length then capacity else buffer.length
        let position := file.position + count
        (if count = buffer.length then .ok else .noMemory, count, { file with position := position },
          setFile s file.entryIndex
            { record with
              data := Buffer.store record.data file.position (buffer.take count)
              size := if record.size < position then position else record.size })

/-- `rad_vfs_seek`. The slot is not checked to be in use. -/
def radVfsSeek (s : VfsState β) (file : VfsHandle) (offset : Int) (origin : SeekOrigin) :
    Status × VfsHandle :=
  if maxVfsFiles ≤ file.entryIndex then (.invalidArgument, file)
  else
    let base : Int :=
      match origin with
      | .set => 0
      | .cur => file.position
      | .end => (s.files file.entryIndex).size
    let next := base + offset
    if next < 0 ∨ vfsFileBytes < next then (.invalidArgument, file)
    else (.ok, { file with position := next.toNat })

/-- The record that an in-memory `rad_vfs_open` takes, when it gets as far as the handle. -/
def opened (s : VfsState β) (c : Credentials) (path : List Char) (flags : Nat) : Option Nat :=
  let normalized := normalizePath s.cwd path
  if (providerForPath s normalized).isSome || !mountedPath s normalized then none
  else
    match openRecord s c normalized flags with
    | .error _ => none
    | .ok (i, _) => some i

/-! ## The reference -/

/-- A run of the calls, with the numbers of the files and the byte array of each. -/
structure Watched (β : Type) where
  vfs : VfsState β
  handles : Nat → Option VfsHandle := fun _ => none
  /-- Handles made so far. -/
  made : Nat := 0
  /-- The file that a slot holds. -/
  fileOf : Nat → Nat
  bytes : Nat → List UInt8
  openedOn : Nat → Nat := fun _ => 0
  nextFile : Nat

variable {w v : Watched β} {h : Nat}

namespace Watched

/-- The start: no handle, and the files are what the table says. -/
def begin (s : VfsState β) : Watched β where
  vfs := s
  fileOf := id
  bytes f := if f < maxVfsFiles then Buffer.contents (s.files f).size (s.files f).data else []
  nextFile := maxVfsFiles

/-- After a call: a slot that came into use holds a new file. -/
def created (w : Watched β) (t : VfsState β) : Watched β :=
  { w with
    vfs := t
    fileOf := fun i =>
      if !(w.vfs.files i).used && (t.files i).used then w.nextFile + i else w.fileOf i
    nextFile := w.nextFile + maxVfsFiles }

def setBytes (w : Watched β) (f : Nat) (bytes : List UInt8) : Watched β :=
  { w with bytes := Function.update w.bytes f bytes }

def setHandle (w : Watched β) (h : Nat) (file : Option VfsHandle) : Watched β :=
  { w with handles := Function.update w.handles h file }

/-- A handle on slot `i`, at the end of the file with `RAD_VFS_APPEND`. -/
def addHandle (w : Watched β) (i flags : Nat) : Watched β :=
  let position := if flags &&& vfsAppend ≠ 0 then (w.vfs.files i).size else 0
  { w with
    handles := Function.update w.handles w.made
      (some { entryIndex := i, position := position, flags := flags })
    openedOn := Function.update w.openedOn w.made (w.fileOf i)
    made := w.made + 1 }

end Watched

inductive FileCall where
  | tree (k : TreeCall)
  | truncate (c : Credentials) (path : List Char) (size : Nat)
  | close (h : Nat)
  | read (h size : Nat)
  | write (h : Nat) (buffer : List UInt8)
  | seek (h : Nat) (offset : Int) (origin : SeekOrigin)

/-- A call, and what it does to the byte arrays. A write puts as many bytes as it says into the
array of the handle's file, after a gap of zeros when it starts past the end. -/
def watch (ops : Nat → BackendOps β) (w : Watched β) : FileCall → Watched β
  | .tree k =>
    let t := w.created (performTree ops w.vfs k).2
    match k with
    | .open c path flags allocated =>
      match opened w.vfs c path flags with
      | none => t
      | some i =>
        let t := if flags &&& vfsTruncate ≠ 0 then t.setBytes (t.fileOf i) [] else t
        if allocated then t.addHandle i flags else t
    | _ => t
  | .truncate c path size =>
    let (status, t) := radVfsTruncate ops w.vfs c path size
    let normalized := normalizePath w.vfs.cwd path
    let v := { w with vfs := t }
    match providerForPath w.vfs normalized, findFileOrDir w.vfs normalized with
    | none, some i =>
      let f := w.fileOf i
      if status = .ok then v.setBytes f (Buffer.resize 0 size (w.bytes f)) else v
    | _, _ => v
  | .close h => w.setHandle h none
  | .read h size =>
    match w.handles h with
    | none => w
    | some file => w.setHandle h (some (radVfsRead w.vfs file size).2.2)
  | .write h buffer =>
    match w.handles h with
    | none => w
    | some file =>
      let (status, count, file', t) := radVfsWrite w.vfs file buffer
      let f := w.openedOn h
      let position :=
        if file.flags &&& vfsAppend ≠ 0 then (w.bytes f).length else file.position
      let w := { w with vfs := t }.setHandle h (some file')
      if status = .ok ∨ count ≠ 0 then
        w.setBytes f (Buffer.overwrite 0 position (buffer.take count) (w.bytes f))
      else w
  | .seek h offset origin =>
    match w.handles h with
    | none => w
    | some file => w.setHandle h (some (radVfsSeek w.vfs file offset origin).2)

/-- A read that succeeds is of the file that the handle was opened on, and returns the bytes of
its array. -/
def Refines (w : Watched β) : Prop :=
  ∀ h file size, w.handles h = some file → (radVfsRead w.vfs file size).1 = .ok →
    w.fileOf file.entryIndex = w.openedOn h ∧
      (radVfsRead w.vfs file size).2.1 =
        ((w.bytes (w.openedOn h)).drop file.position).take size

/-- No open handle refers to the slot. -/
def Unheld (w : Watched β) (i : Nat) : Prop :=
  ∀ h file, w.handles h = some file → file.entryIndex ≠ i

/-- A slot that comes into use is no open handle's, and where a write starts past the end the
buffer holds zeros up to there. -/
def Tidy (w : Watched β) : FileCall → Prop
  | .tree (.open c path flags _) => flags &&& vfsCreate ≠ 0 →
      ∀ i, Adds w.vfs c (normalizePath w.vfs.cwd path) i → Unheld w i
  | .tree (.mkdir c path) => ∀ i, Adds w.vfs c (normalizePath w.vfs.cwd path) i → Unheld w i
  | .write h _ => ∀ file, w.handles h = some file → (w.vfs.files file.entryIndex).used = true →
      file.flags &&& vfsWrite ≠ 0 → file.flags &&& vfsAppend = 0 →
      file.position < vfsFileBytes → ∀ k, (w.vfs.files file.entryIndex).size ≤ k →
      k < file.position → (w.vfs.files file.entryIndex).data k = 0
  | _ => True

/-! ## The invariant -/

/-- The byte array of the file in a slot is what the slot stores, two slots hold two files, and
a handle whose slot is in use is on the file there. -/
structure Stored (w : Watched β) : Prop where
  fits : ∀ i < maxVfsFiles, (w.vfs.files i).size ≤ vfsFileBytes
  stored : ∀ i, InUse w.vfs i →
    w.bytes (w.fileOf i) = Buffer.contents (w.vfs.files i).size (w.vfs.files i).data
  apart : ∀ i j, InUse w.vfs i → InUse w.vfs j → w.fileOf i = w.fileOf j → i = j
  known : ∀ i, InUse w.vfs i → w.fileOf i < w.nextFile
  unborn : ∀ f, w.nextFile ≤ f → w.bytes f = []
  handle : ∀ h file, w.handles h = some file → file.entryIndex < maxVfsFiles ∧
    (InUse w.vfs file.entryIndex → w.fileOf file.entryIndex = w.openedOn h)

variable {size : Nat}

theorem radVfsRead_ok (h : (radVfsRead s file size).1 = .ok) :
    InUse s file.entryIndex ∧ (radVfsRead s file size).2.1 =
      ((Buffer.contents (s.files file.entryIndex).size
        (s.files file.entryIndex).data).drop file.position).take size := by
  have hflags : file.flags &&& vfsRead ≠ 0 := fun hflags => by simp [radVfsRead, hflags] at h
  have hslot : ¬ maxVfsFiles ≤ file.entryIndex := fun hslot => by
    simp [radVfsRead, hflags, hslot] at h
  have hused : (s.files file.entryIndex).used = true := by
    rw [← Bool.not_eq_false]
    intro hused
    simp [radVfsRead, hflags, hslot, hused] at h
  refine ⟨⟨by omega, hused⟩, ?_⟩
  rw [← Buffer.contents_read]
  simp only [radVfsRead, hflags, hslot, hused, if_false, Bool.not_true, Bool.false_eq_true]
  congr 2
  grind

theorem Stored.refines (hw : Stored w) : Refines w := by
  intro h file size hfile hok
  obtain ⟨huse, hbytes⟩ := radVfsRead_ok hok
  have hfileOf := (hw.handle h file hfile).2 huse
  exact ⟨hfileOf, by rw [hbytes, ← hfileOf, hw.stored _ huse]⟩

variable {r : VfsFileRecord}

section
variable (hw : Stored w)
include hw

/-- One slot changes, and with it the number or the array of the file in it. -/
theorem Stored.update
    (hfiles : v.vfs.files = Function.update w.vfs.files i r) (hfits : r.size ≤ vfsFileBytes)
    (hothers : ∀ j, InUse w.vfs j → j ≠ i → v.fileOf j = w.fileOf j ∧
      v.bytes (w.fileOf j) = w.bytes (w.fileOf j))
    (hnext : w.nextFile ≤ v.nextFile)
    (hself : InUse v.vfs i → v.bytes (v.fileOf i) = Buffer.contents r.size r.data ∧
      v.fileOf i < v.nextFile ∧ ∀ j, InUse w.vfs j → j ≠ i → w.fileOf j ≠ v.fileOf i)
    (hunborn : ∀ f, v.nextFile ≤ f → v.bytes f = [])
    (hhandle : ∀ h file, v.handles h = some file → file.entryIndex < maxVfsFiles ∧
      (InUse v.vfs file.entryIndex → v.fileOf file.entryIndex = v.openedOn h)) : Stored v := by
  have hi : v.vfs.files i = r := by rw [hfiles, Function.update_self]
  have hj : ∀ j, j ≠ i → (InUse v.vfs j ↔ InUse w.vfs j) ∧ v.vfs.files j = w.vfs.files j :=
    fun j hj => ⟨inUse_update_of_ne hfiles hj, files_update_of_ne hfiles hj⟩
  constructor
  case fits =>
    intro j hlt
    by_cases hji : j = i
    · rwa [hji, hi]
    · rw [(hj j hji).2]
      exact hw.fits j hlt
  case stored =>
    intro j huse
    by_cases hji : j = i
    · subst hji
      rw [hi]
      exact (hself huse).1
    · have huse' := (hj j hji).1.1 huse
      rw [(hj j hji).2, (hothers j huse' hji).1, (hothers j huse' hji).2]
      exact hw.stored j huse'
  case apart =>
    intro j k huseJ huseK hsame
    by_cases hji : j = i <;> by_cases hki : k = i
    · rw [hji, hki]
    · subst hji
      have huse := (hj k hki).1.1 huseK
      rw [(hothers k huse hki).1] at hsame
      exact absurd hsame.symm ((hself huseJ).2.2 k huse hki)
    · subst hki
      have huse := (hj j hji).1.1 huseJ
      rw [(hothers j huse hji).1] at hsame
      exact absurd hsame ((hself huseK).2.2 j huse hji)
    · have huseJ' := (hj j hji).1.1 huseJ
      have huseK' := (hj k hki).1.1 huseK
      rw [(hothers j huseJ' hji).1, (hothers k huseK' hki).1] at hsame
      exact hw.apart j k huseJ' huseK' hsame
  case known =>
    intro j huse
    by_cases hji : j = i
    · subst hji
      exact (hself huse).2.1
    · have huse' := (hj j hji).1.1 huse
      rw [(hothers j huse' hji).1]
      exact Nat.lt_of_lt_of_le (hw.known j huse') hnext
  case unborn => exact hunborn
  case handle => exact hhandle

theorem Stored.rewrite {bytes : List UInt8} (hi : InUse w.vfs i) (hfits : r.size ≤ vfsFileBytes)
    (hbytes : bytes = Buffer.contents r.size r.data)
    (hfiles : t.files = Function.update w.vfs.files i r) :
    Stored ({ w with vfs := t }.setBytes (w.fileOf i) bytes) := by
  have huse : ∀ j, InUse t j → InUse w.vfs j := by
    intro j hj
    by_cases hji : j = i
    · exact hji ▸ hi
    · exact (inUse_update_of_ne hfiles hji).1 hj
  have hne : ∀ j, InUse w.vfs j → j ≠ i → w.fileOf j ≠ w.fileOf i := fun j hj hji hsame =>
    hji (hw.apart j i hj hi hsame)
  refine hw.update hfiles hfits (fun j hj hji => ⟨rfl, ?_⟩) (Nat.le_refl _)
    (fun _ => ⟨?_, hw.known i hi, hne⟩) (fun f hf => ?_) fun h file hfile => ?_
  · exact Function.update_of_ne (hne j hj hji) _ _
  · rw [← hbytes]
    exact Function.update_self _ _ _
  · have hknown := hw.known i hi
    have hlater : f ≠ w.fileOf i := by
      rintro rfl
      exact absurd hf (Nat.not_le.2 hknown)
    exact (Function.update_of_ne hlater _ _).trans (hw.unborn f hf)
  · obtain ⟨hslot, hon⟩ := hw.handle h file hfile
    exact ⟨hslot, fun hin => hon (huse _ hin)⟩

/-- The table changes in names and owners only. -/
theorem Stored.congr (ht : ∀ j, (t.files j).used = (w.vfs.files j).used ∧
    (t.files j).size = (w.vfs.files j).size ∧ (t.files j).data = (w.vfs.files j).data) :
    Stored { w with vfs := t } := by
  have huse : ∀ j, InUse t j ↔ InUse w.vfs j := fun j => by rw [InUse, InUse, (ht j).1]
  constructor
  case fits =>
    intro j hj
    rw [(ht j).2.1]
    exact hw.fits j hj
  case stored =>
    intro j hj
    rw [(ht j).2.1, (ht j).2.2]
    exact hw.stored j ((huse j).1 hj)
  case apart => exact fun j k hj hk => hw.apart j k ((huse j).1 hj) ((huse k).1 hk)
  case known => exact fun j hj => hw.known j ((huse j).1 hj)
  case unborn => exact hw.unborn
  case handle =>
    intro h file hfile
    obtain ⟨hslot, hon⟩ := hw.handle h file hfile
    exact ⟨hslot, fun hin => hon ((huse _).1 hin)⟩

theorem Stored.drop (ht : t.files = Function.update w.vfs.files i {}) :
    Stored { w with vfs := t } := by
  have hfree : ¬ InUse t i := by simp [InUse, ht]
  refine hw.update ht (Nat.zero_le _) (fun _ _ _ => ⟨rfl, rfl⟩) (Nat.le_refl _)
    (fun hi => absurd hi hfree) hw.unborn fun h file hfile => ?_
  obtain ⟨hslot, hon⟩ := hw.handle h file hfile
  refine ⟨hslot, fun hin => hon ?_⟩
  have hne : file.entryIndex ≠ i := by
    rintro rfl
    exact hfree hin
  exact (inUse_update_of_ne ht hne).1 hin

/-- Numbers of files may be passed over. -/
theorem Stored.later : Stored { w with nextFile := w.nextFile + maxVfsFiles } where
  fits := hw.fits
  stored := hw.stored
  apart := hw.apart
  known i hi := Nat.lt_add_right _ (hw.known i hi)
  unborn f hf := hw.unborn f (Nat.le_of_add_right_le hf)
  handle := hw.handle

end

/-- No slot comes into use: the slots hold the files they held. -/
theorem Watched.created_eq (ht : ∀ j, (t.files j).used = true → (w.vfs.files j).used = true) :
    w.created t = { w with vfs := t, nextFile := w.nextFile + maxVfsFiles } := by
  have hsame : ∀ j, (!(w.vfs.files j).used && (t.files j).used) = false := by
    intro j
    cases hused : (t.files j).used with
    | false => simp
    | true => simp [ht j hused]
  simp [Watched.created, hsame]

/-- A slot comes into use that no handle refers to. -/
theorem Stored.add (hw : Stored w) (hfree : freeFile w.vfs = some i)
    (hunheld : Unheld w i) (ht : t.files = Function.update w.vfs.files i r)
    (hsize : r.size = 0) (hused : r.used = true) : Stored (w.created t) := by
  obtain ⟨hi, hunused⟩ := freeFile_some hfree
  have hfileOf : (w.created t).fileOf i = w.nextFile + i := by
    simp [Watched.created, hunused, ht, hused]
  have hothers : ∀ j, j ≠ i → (w.created t).fileOf j = w.fileOf j := by
    intro j hji
    cases hj : (w.vfs.files j).used <;> simp [Watched.created, ht, hji, hj]
  refine hw.update ht (by omega) (fun j _ hji => ⟨hothers j hji, rfl⟩) (Nat.le_add_right _ _)
    (fun _ => ⟨?_, ?_, fun j hj _ => ?_⟩) (fun f hf => hw.unborn f (Nat.le_of_add_right_le hf))
    fun h file hfile => ?_
  · rw [hfileOf, hsize]
    exact hw.unborn _ (Nat.le_add_right _ _)
  · rw [hfileOf]
    exact Nat.add_lt_add_left hi _
  · have hknown := hw.known j hj
    omega
  · obtain ⟨hslot, hon⟩ := hw.handle h file hfile
    have hne := hunheld h file hfile
    refine ⟨hslot, fun hin => ?_⟩
    rw [hothers _ hne]
    exact hon ((inUse_update_of_ne ht hne).1 hin)

theorem Stored.addHandle (hw : Stored w) (hi : InUse w.vfs i) (flags : Nat) :
    Stored (w.addHandle i flags) where
  fits := hw.fits
  stored := hw.stored
  apart := hw.apart
  known := hw.known
  unborn := hw.unborn
  handle h file hfile := by
    by_cases hh : h = w.made
    · subst hh
      simp only [Watched.addHandle, Function.update_self, Option.some.injEq] at hfile ⊢
      subst hfile
      exact ⟨hi.1, fun _ => rfl⟩
    · simp only [Watched.addHandle, Function.update_of_ne hh] at hfile ⊢
      exact hw.handle h file hfile

/-- A handle may be closed or moved to another position. -/
theorem Stored.setHandle {next : Option VfsHandle} (hw : Stored w)
    (hnext : ∀ file', next = some file' →
      ∃ file, w.handles h = some file ∧ file'.entryIndex = file.entryIndex) :
    Stored (w.setHandle h next) where
  fits := hw.fits
  stored := hw.stored
  apart := hw.apart
  known := hw.known
  unborn := hw.unborn
  handle h' file hfile := by
    by_cases hh : h' = h
    · subst hh
      simp only [Watched.setHandle, Function.update_self] at hfile
      obtain ⟨file', hfile', hindex⟩ := hnext file hfile
      rw [hindex]
      exact hw.handle h' file' hfile'
    · simp only [Watched.setHandle, Function.update_of_ne hh] at hfile
      exact hw.handle h' file hfile

/-! ## Steps -/

theorem opened_some (h : opened s c path flags = some i) :
    providerForPath s (normalizePath s.cwd path) = none ∧
      mountedPath s (normalizePath s.cwd path) = true ∧
      ∃ t, openRecord s c (normalizePath s.cwd path) flags = .ok (i, t) := by
  simp only [opened] at h
  split_ifs at h with hpath
  simp only [Bool.or_eq_true, not_or, Bool.not_eq_true, Option.isSome_eq_false_iff,
    Option.isNone_iff_eq_none, Bool.not_eq_false'] at hpath
  cases hopen : openRecord s c (normalizePath s.cwd path) flags with
  | error status => simp [hopen] at h
  | ok r =>
    obtain ⟨j, t⟩ := r
    obtain rfl : j = i := by simpa [hopen] using h
    exact ⟨hpath.1, hpath.2, t, rfl⟩

theorem opened_none {allocated : Bool} (h : opened s c path flags = none) :
    (radVfsOpen ops s c path flags allocated).2.files = s.files := by
  cases hp : providerForPath s (normalizePath s.cwd path) with
  | some r => simp only [radVfsOpen, hp, apply_ite Prod.snd, apply_ite VfsState.files, ite_self]
  | none =>
    cases hmount : mountedPath s (normalizePath s.cwd path) with
    | false => simp [radVfsOpen, hp, hmount]
    | true =>
      cases hopen : openRecord s c (normalizePath s.cwd path) flags with
      | error status => simp [radVfsOpen, hp, hmount, hopen]
      | ok r => simp [opened, hp, hmount, hopen] at h

section
variable (hw : Stored w)
include hw

theorem Stored.created_keep (ht : ∀ j, (t.files j).used = (w.vfs.files j).used ∧
    (t.files j).size = (w.vfs.files j).size ∧ (t.files j).data = (w.vfs.files j).data) :
    Stored (w.created t) := by
  rw [Watched.created_eq fun j hj => by rwa [(ht j).1] at hj]
  exact hw.later.congr ht

theorem Stored.created_same (ht : t.files = w.vfs.files) : Stored (w.created t) :=
  hw.created_keep fun j => by simp [ht]

theorem Stored.created_drop (ht : t.files = Function.update w.vfs.files i {}) :
    Stored (w.created t) := by
  rw [Watched.created_eq]
  · exact hw.later.drop ht
  · intro j hj
    by_cases hji : j = i
    · simp [ht, hji] at hj
    · rwa [files_update_of_ne ht hji] at hj

theorem Stored.empty (hi : InUse w.vfs i) (hsize : r.size = 0)
    (ht : t.files = Function.update w.vfs.files i r) :
    Stored ({ w with vfs := t }.setBytes (w.fileOf i) []) :=
  hw.rewrite hi (by omega) (by simp [hsize, Buffer.contents]) ht

/-- After `rad_vfs_open` has found or made the record, with `RAD_VFS_TRUNCATE` carried out. -/
theorem Stored.openRecord (hp : providerForPath w.vfs (normalizePath w.vfs.cwd path) = none)
    (hmount : mountedPath w.vfs (normalizePath w.vfs.cwd path) = true)
    (hopen : openRecord w.vfs c (normalizePath w.vfs.cwd path) flags = .ok (i, t))
    (htidy : flags &&& vfsCreate ≠ 0 →
      ∀ i, Adds w.vfs c (normalizePath w.vfs.cwd path) i → Unheld w i) :
    InUse t i ∧ Stored (if flags &&& vfsTruncate ≠ 0 then
      (w.created t).setBytes ((w.created t).fileOf i) [] else w.created t) := by
  obtain ⟨hfind, rfl⟩ | ⟨hfind, hcreate, hd, hfree, rfl⟩ := openRecord_cases hopen
  · have hi := (findFileOrDir_some hfind).1
    by_cases htruncate : flags &&& vfsTruncate ≠ 0
    · have hfiles : (truncateRecord flags i w.vfs).files =
          Function.update w.vfs.files i { w.vfs.files i with size := 0 } := by
        simp only [truncateRecord, if_pos htruncate, setFile]
      refine ⟨by simp [InUse, hfiles, hi.1, hi.2], ?_⟩
      rw [if_pos htruncate, Watched.created_eq]
      · exact hw.later.empty hi rfl hfiles
      · intro j hj
        by_cases hji : j = i
        · exact hji ▸ hi.2
        · rwa [files_update_of_ne hfiles hji] at hj
    · have hsame : truncateRecord flags i w.vfs = w.vfs := by
        simp only [truncateRecord, if_neg htruncate]
      rw [hsame, if_neg htruncate]
      exact ⟨hi, hw.created_same rfl⟩
  · generalize hr : newFile (w.vfs.files i) c (normalizePath w.vfs.cwd path) false = r
    have hsize : r.size = 0 := by rw [← hr]; rfl
    have hused : r.used = true := by rw [← hr]; rfl
    have hadded : Stored (w.created (setFile w.vfs i r)) :=
      hw.add hfree (htidy hcreate i ⟨hp, hmount, hfind, hfree, hd⟩) rfl hsize hused
    have hi : InUse (setFile w.vfs i r) i := by
      simp [InUse, setFile, hused, (freeFile_some hfree).1]
    refine ⟨hi, ?_⟩
    split_ifs
    · refine hadded.empty hi ?_ (Function.update_eq_self i _).symm
      simpa [Watched.created, setFile] using hsize
    · exact hadded

theorem Stored.tree {k : TreeCall} (hk : Tidy w (.tree k)) : Stored (watch ops w (.tree k)) := by
  have he := performTree_effect ops w.vfs k
  cases k with
  | «open» c path flags allocated =>
    cases hopened : opened w.vfs c path flags with
    | none =>
      simp only [watch, hopened]
      exact hw.created_same (opened_none hopened)
    | some i =>
      obtain ⟨hp, hmount, t, hopen⟩ := opened_some hopened
      have ht : (performTree ops w.vfs (.open c path flags allocated)).2 = t := by
        simp only [performTree, radVfsOpen_opened hp hmount hopen]
      obtain ⟨hi, hstored⟩ := hw.openRecord hp hmount hopen hk
      simp only [watch, hopened, ht]
      cases allocated with
      | false => exact hstored
      | true =>
        refine hstored.addHandle ?_ flags
        split_ifs <;> exact hi
  | mkdir c path =>
    cases he with
    | same ht => exact hw.created_same ht
    | made hi ht => exact hw.add hi.2.2.2.1 (hk _ hi) ht rfl rfl
  | remove c path =>
    cases he with
    | same ht => exact hw.created_same ht
    | removed hi ht => exact hw.created_drop ht
  | rmdir c path =>
    cases he with
    | same ht => exact hw.created_same ht
    | removedDir hi ht => exact hw.created_drop ht
  | rename c oldPath newPath =>
    cases he with
    | same ht => exact hw.created_same ht
    | @renamed _ _ _ _ i hi ht =>
      refine hw.created_keep fun j => ?_
      by_cases hj : j = i <;> simp [ht, hj]

end

theorem radVfsTruncate_cases (ops : Nat → BackendOps β) (c : Credentials) (size : Nat)
    (hp : providerForPath s (normalizePath s.cwd path) = none)
    (hfind : findFileOrDir s (normalizePath s.cwd path) = some i) :
    ((radVfsTruncate ops s c path size).1 ≠ .ok ∧ (radVfsTruncate ops s c path size).2 = s) ∨
    (size ≤ vfsFileBytes ∧ radVfsTruncate ops s c path size = (.ok, setFile s i
      { s.files i with
        data := fun k => if (s.files i).size ≤ k ∧ k < size then 0 else (s.files i).data k
        size := size })) := by
  simp only [radVfsTruncate, hp, hfind]
  split_ifs with hsize hdir hwrite
  · exact .inl ⟨by simp, rfl⟩
  · exact .inl ⟨by simp, rfl⟩
  · exact .inl ⟨by simp, rfl⟩
  · exact .inr ⟨Nat.le_of_not_lt hsize, rfl⟩

theorem Stored.truncate (hw : Stored w) : Stored (watch ops w (.truncate c path size)) := by
  cases hp : providerForPath w.vfs (normalizePath w.vfs.cwd path) with
  | some r =>
    simp only [watch, hp]
    refine hw.congr fun j => ?_
    simp [radVfsTruncate, hp]
  | none =>
    cases hfind : findFileOrDir w.vfs (normalizePath w.vfs.cwd path) with
    | none =>
      simp only [watch, hp, hfind]
      refine hw.congr fun j => ?_
      simp only [radVfsTruncate, hp, hfind]
      split_ifs <;> exact ⟨rfl, rfl, rfl⟩
    | some i =>
      simp only [watch, hp, hfind]
      obtain ⟨hstatus, ht⟩ | ⟨hsize, ht⟩ := radVfsTruncate_cases ops c size hp hfind
      · rw [if_neg hstatus, ht]
        exact hw
      · have hi := (findFileOrDir_some hfind).1
        rw [ht, if_pos rfl]
        refine hw.rewrite hi hsize ?_ rfl
        rw [hw.stored i hi]
        exact Buffer.contents_resize.symm

/-- A write changes nothing, or puts a number of bytes into a record in use. -/
theorem radVfsWrite_cases (s : VfsState β) (file : VfsHandle) (buffer : List UInt8) :
    let r := s.files file.entryIndex
    let (status, count, file', t) := radVfsWrite s file buffer
    file'.entryIndex = file.entryIndex ∧
    ((status ≠ .ok ∧ count = 0 ∧ t = s) ∨
      ∃ position, position = (if file.flags &&& vfsAppend ≠ 0 then r.size else file.position) ∧
        InUse s file.entryIndex ∧ file.flags &&& vfsWrite ≠ 0 ∧ position < vfsFileBytes ∧
        position + (buffer.take count).length ≤ vfsFileBytes ∧ (status = .ok ∨ count ≠ 0) ∧
        t = setFile s file.entryIndex
          { r with
            data := Buffer.store r.data position (buffer.take count)
            size := max r.size (position + (buffer.take count).length) }) := by
  simp only [radVfsWrite]
  by_cases hflags : file.flags &&& vfsWrite = 0
  · simp [hflags]
  by_cases hslot : maxVfsFiles ≤ file.entryIndex
  · simp [hflags, hslot]
  cases hused : (s.files file.entryIndex).used with
  | false => simp [hflags, hslot]
  | true =>
    -- with `RAD_VFS_APPEND` the handle first moves to the end
    obtain ⟨moved, hmoved, hindex, hposition⟩ : ∃ moved : VfsHandle,
        (if file.flags &&& vfsAppend ≠ 0 then
          { file with position := (s.files file.entryIndex).size } else file) = moved ∧
        moved.entryIndex = file.entryIndex ∧ moved.position =
          if file.flags &&& vfsAppend ≠ 0 then (s.files file.entryIndex).size else file.position :=
      ⟨_, rfl, by split_ifs <;> rfl, by split_ifs <;> rfl⟩
    simp only [hflags, hslot, if_false, Bool.not_true, Bool.false_eq_true, hmoved]
    by_cases hfull : vfsFileBytes ≤ moved.position
    · simp [hfull, hindex]
    · have hcount : (if vfsFileBytes - moved.position < buffer.length then
          vfsFileBytes - moved.position else buffer.length) =
          min (vfsFileBytes - moved.position) buffer.length := by
        split_ifs <;> omega
      have hlen : (buffer.take (min (vfsFileBytes - moved.position) buffer.length)).length =
          min (vfsFileBytes - moved.position) buffer.length := by
        rw [List.length_take]
        omega
      simp only [hfull, if_false, hcount, hlen]
      refine ⟨hindex, .inr ⟨moved.position, hposition, ⟨by omega, hused⟩, hflags, by omega,
        by omega, ?_, ?_⟩⟩
      · grind
      · rw [hindex]
        congr 2
        grind

theorem Stored.write {buffer : List UInt8} (hw : Stored w) (hk : Tidy w (.write h buffer)) :
    Stored (watch ops w (.write h buffer)) := by
  cases hfile : w.handles h with
  | none => simpa only [watch, hfile] using hw
  | some file =>
    have hcases := radVfsWrite_cases w.vfs file buffer
    simp only [watch, hfile]
    generalize radVfsWrite w.vfs file buffer = result at hcases ⊢
    obtain ⟨status, count, file', t⟩ := result
    obtain ⟨hindex, ⟨hstatus, rfl, rfl⟩ |
      ⟨position, hposition, hi, hwrite, hlt, hroom, hdone, rfl⟩⟩ := hcases
    · rw [if_neg (by simp [hstatus])]
      exact hw.setHandle fun _ hnext => ⟨file, hfile, by rw [← Option.some.inj hnext, hindex]⟩
    · have hon := (hw.handle h file hfile).2 hi
      have hsize := hw.fits file.entryIndex hi.1
      have hbytes := hw.stored file.entryIndex hi
      have hend : (if file.flags &&& vfsAppend ≠ 0 then (w.bytes (w.openedOn h)).length
          else file.position) = position := by
        rw [← hon, hbytes, Buffer.length_contents, hposition]
      have hgap : ∀ k, (w.vfs.files file.entryIndex).size ≤ k → k < position →
          (w.vfs.files file.entryIndex).data k = 0 := by
        intro k hlow hhigh
        by_cases happend : file.flags &&& vfsAppend ≠ 0
        · rw [if_pos happend] at hposition
          omega
        · rw [if_neg happend] at hposition
          subst hposition
          exact hk file hfile hi.2 hwrite (not_not.1 happend) hlt k hlow hhigh
      have harray := Buffer.contents_store (buffer.take count) hgap
      rw [← hbytes, hon] at harray
      rw [if_pos hdone, hend]
      have hrewritten := hw.rewrite (t := setFile w.vfs file.entryIndex
        { w.vfs.files file.entryIndex with
          data := Buffer.store (w.vfs.files file.entryIndex).data position (buffer.take count)
          size := max (w.vfs.files file.entryIndex).size
            (position + (buffer.take count).length) }) hi
        (Nat.max_le.2 ⟨hsize, hroom⟩) harray.symm rfl
      rw [hon] at hrewritten
      exact hrewritten.setHandle fun _ hnext =>
        ⟨file, hfile, by rw [← Option.some.inj hnext, hindex]⟩

theorem radVfsRead_entryIndex (s : VfsState β) (file : VfsHandle) (size : Nat) :
    (radVfsRead s file size).2.2.entryIndex = file.entryIndex := by
  simp only [radVfsRead]
  split_ifs <;> rfl

theorem radVfsSeek_entryIndex (s : VfsState β) (file : VfsHandle) (offset : Int)
    (origin : SeekOrigin) : (radVfsSeek s file offset origin).2.entryIndex = file.entryIndex := by
  simp only [radVfsSeek]
  split_ifs <;> rfl

theorem Stored.step {k : FileCall} (hw : Stored w) (hk : Tidy w k) : Stored (watch ops w k) := by
  cases k with
  | tree k => exact hw.tree hk
  | truncate c path size => exact hw.truncate
  | close h => exact hw.setHandle (by simp)
  | read h size =>
    cases hfile : w.handles h with
    | none => simpa only [watch, hfile] using hw
    | some file =>
      simp only [watch, hfile]
      refine hw.setHandle fun _ hnext => ⟨file, hfile, ?_⟩
      rw [← Option.some.inj hnext, radVfsRead_entryIndex]
  | write h buffer => exact hw.write hk
  | seek h offset origin =>
    cases hfile : w.handles h with
    | none => simpa only [watch, hfile] using hw
    | some file =>
      simp only [watch, hfile]
      refine hw.setHandle fun _ hnext => ⟨file, hfile, ?_⟩
      rw [← Option.some.inj hnext, radVfsSeek_entryIndex]

/-! ## Runs -/

/-- A table whose files fit their buffers, before any handle is open. -/
def Closed (w : Watched β) : Prop :=
  ∃ s : VfsState β, (∀ i < maxVfsFiles, (s.files i).size ≤ vfsFileBytes) ∧ w = .begin s

theorem Closed.stored (hw : Closed w) : Stored w := by
  obtain ⟨s, hfits, rfl⟩ := hw
  constructor
  case fits => exact hfits
  case stored => exact fun i hi => if_pos hi.1
  case apart => exact fun i j _ _ hsame => hsame
  case known => exact fun i hi => hi.1
  case unborn => exact fun f hf => if_neg (Nat.not_lt.2 hf)
  case handle => exact fun h file hfile => by simp [Watched.begin] at hfile

/-- While no slot is given away under a handle and no write uncovers old bytes, every handle
reads the byte array of the file it was opened on. -/
theorem refines_of_run (ops : Nat → BackendOps β) (w : Watched β)
    (h : Run (Obeys (watch ops) Tidy) Closed w) : Refines w := by
  have hstored : Stored w := by
    refine h.invariant (fun w hw => hw.stored) fun w k v hw hn => ?_
    obtain ⟨hk, rfl⟩ := hn
    exact hw.step hk
  exact hstored.refines

theorem closed_freshTree : Closed (.begin freshTree) := ⟨freshTree, by decide +kernel, rfl⟩

def watchFresh (ks : List FileCall) : Watched Unit :=
  ks.foldl (watch fun _ => absent) (.begin freshTree)

def readWriteCreate : Nat := vfsRead ||| vfsWrite ||| vfsCreate

/-- A file is made, written, and read from its start. -/
theorem refines_writtenOnce : Refines (watchFresh
    [.tree (.open {} "/a".toList readWriteCreate true), .write 0 [7, 8], .seek 0 0 .set]) := by
  refine refines_of_run (fun _ => absent) _ (Run.along _ (.start closed_freshTree) ?_)
  refine ⟨fun _ i _ h file hfile => ?_, fun file hfile _ _ _ _ k _ hlt => ?_, trivial, trivial⟩
  · simp [Watched.begin] at hfile
  · have hstart : ({ entryIndex := 1, position := 0, flags := readWriteCreate } : VfsHandle) = file :=
      Option.some.inj (Eq.trans (by decide +kernel) hfile)
    subst hstart
    exact absurd hlt (Nat.not_lt_zero k)

/-- A removed file's slot goes to another file, which the old handle then reads. -/
theorem not_refines_reusedSlot : ¬ ∀ (ops : Nat → BackendOps Unit) (w : Watched Unit),
    Run (Obeys (watch ops) fun _ _ => True) Closed w → Refines w := by
  intro h
  have hrefines := h (fun _ => absent) (watchFresh
    [.tree (.open {} "/a".toList readWriteCreate true), .tree (.remove {} "/a".toList),
      .tree (.open {} "/b".toList readWriteCreate true), .write 1 [7]])
    (Run.along _ (.start closed_freshTree) (by simp [Along]))
  have hread := (hrefines 0 { entryIndex := 1, position := 0, flags := readWriteCreate } 1
    (by decide +kernel) (by decide +kernel)).2
  exact absurd hread (by decide +kernel)

end RadKernel.Vfs
