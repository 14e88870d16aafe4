import RadKernel.Fat.Bytes
import RadKernel.Fat.Listing

/-!
# Files as byte arrays

A file that `fat_open` made, used through one handle at a time. The root directory has one cluster.
Beside the driver runs a byte array with a position.
-/

namespace RadKernel.Fat

open Kernel Prog Buffer

variable {g : FatContext} {d d' : Disk} {name path : List UInt8} {s t : FatState}
  {j n first flags : Nat} {h : Fin maxOpenFiles} {l : List Nat}
  {bytes data : List UInt8} {offset : Int} {origin : SeekOrigin}

def fatTell (s : FatState) (h : Fin maxOpenFiles) : Nat :=
  if (s.files h).used then (s.files h).position else 0

/-! ## Byte arrays -/

/-- A byte array and a position in it or behind it. -/
structure ByteFile where
  bytes : List UInt8 := []
  position : Nat := 0
  deriving DecidableEq, Repr

namespace ByteFile

variable (f : ByteFile)

def target (offset : Int) : SeekOrigin → Int
  | .set => offset
  | .current => f.position + offset
  | .fromEnd => f.bytes.length + offset

def seek (offset : Int) (origin : SeekOrigin) : ByteFile :=
  { f with position := (f.target offset origin).toNat }

/-- The bytes that are read, at most `n`. -/
def taken (n : Nat) : List UInt8 := (f.bytes.drop f.position).take n

def read (n : Nat) : ByteFile := { f with position := f.position + (f.taken n).length }

/-- A gap before the position is filled with zeros. -/
def write (data : List UInt8) : ByteFile where
  bytes := overwrite 0 f.position data f.bytes
  position := f.position + data.length

def reopen (flags : Nat) : ByteFile :=
  let bytes := if Truncates flags then [] else f.bytes
  { bytes, position := if flags &&& vfsAppend ≠ 0 then bytes.length else 0 }

end ByteFile

variable {f : ByteFile}

/-! ## Runs -/

inductive FileCall where
  | seek (offset : Int) (origin : SeekOrigin)
  | read (n : Nat)
  | write (data : List UInt8)
  | close
  | reopen (path : List UInt8) (flags : Nat)
  deriving Repr

/-- The driver, the handle when the file is open, and the byte array. -/
structure FileRun where
  fat : FatState
  handle : Option (Fin maxOpenFiles)
  file : ByteFile

namespace FileRun

/-- A successful call, on the driver and on the byte array. -/
def step (g : FatContext) (w : FileRun) : FileCall → Option FileRun
  | .seek offset origin => do
    let h ← w.handle
    match fatSeek h offset origin w.fat with
    | some (.ok _, t) => some { w with fat := t, file := w.file.seek offset origin }
    | _ => none
  | .read n => do
    let h ← w.handle
    match fatRead g h n w.fat with
    | some (.ok _, t) => some { w with fat := t, file := w.file.read n }
    | _ => none
  | .write data => do
    let h ← w.handle
    match fatWrite g h data w.fat with
    | some (.ok _, t) => some { w with fat := t, file := w.file.write data }
    | _ => none
  | .close => do
    let h ← w.handle
    match fatClose g h w.fat with
    | some (.ok _, t) => some { w with fat := t, handle := none }
    | _ => none
  | .reopen path flags =>
    if w.handle.isSome then none
    else
      match fatOpen g path flags w.fat with
      | some (.ok h, t) => some { fat := t, handle := some h, file := w.file.reopen flags }
      | _ => none

/-- Positions and sizes stay below `2 ^ 32`, and a file whose name counts as deleted is not opened
again when it has bytes. -/
def Allowed (name : List UInt8) (w : FileRun) : FileCall → Prop
  | .seek offset origin => w.file.target offset origin < 2 ^ 32
  | .read _ => True
  | .write data => data ≠ [] ∧ w.file.position + data.length < 2 ^ 32
  | .close => True
  | .reopen path _ => makeShortName path = some name ∧
      (name.head? = some 0xe5 → w.file.bytes = [])

instance (name : List UInt8) (w : FileRun) (call : FileCall) : Decidable (w.Allowed name call) :=
  match call with
  | .seek _ _ => inferInstanceAs (Decidable (_ < _))
  | .read _ => inferInstanceAs (Decidable True)
  | .write _ => inferInstanceAs (Decidable (_ ∧ _))
  | .close => inferInstanceAs (Decidable True)
  | .reopen _ _ => inferInstanceAs (Decidable (_ ∧ (_ → _)))

def Step (g : FatContext) (name : List UInt8) (w : FileRun) (call : FileCall) (v : FileRun) :
    Prop :=
  w.Allowed name call ∧ w.step g call = some v

/-- The step when it is allowed. -/
def perform (g : FatContext) (name : List UInt8) (w : FileRun) (call : FileCall) : Option FileRun :=
  if w.Allowed name call then w.step g call else none

end FileRun

/-- The root directory has one cluster. -/
structure OneCluster (g : FatContext) (d : Disk) : Prop where
  root : InRange g g.rootCluster
  last : isEoc (links g d g.rootCluster) = true

/-- The file was just made by `fat_open`, which did not find its name. -/
def JustCreated (g : FatContext) (name : List UInt8) (w : FileRun) : Prop :=
  w.file = {} ∧ ∃ s path flags h, OneCluster g s.disk ∧ makeShortName path = some name ∧
    (∀ j, ¬FirstNamed g s.disk name g.rootCluster j) ∧ flags &&& vfsCreate ≠ 0 ∧
    fatOpen g path flags s = some (.ok h, w.fat) ∧ w.handle = some h

/-- What the calls return on the handle is what they return on the byte array. -/
structure Refines (g : FatContext) (s : FatState) (h : Fin maxOpenFiles) (f : ByteFile) : Prop where
  tell : fatTell s h = f.position
  size : (s.files h).size = f.bytes.length
  read : ∀ n, (s.files h).flags &&& vfsRead ≠ 0 →
    ∃ t, fatRead g h n s = some (.ok (f.taken n), t)
  write : ∀ data n t, fatWrite g h data s = some (.ok n, t) →
    f.position + data.length < 2 ^ 32 → n = data.length
  seek : ∀ offset origin t, fatSeek h offset origin s = some (.ok (), t) →
    ((fatTell t h : Int) = f.target offset origin ↔ f.target offset origin < 2 ^ 32)

/-! ## The invariant -/

/-- The file that begins with cluster `first` has the bytes, and zeros behind them. -/
structure Stored (g : FatContext) (d : Disk) (first : Nat) (l : List Nat) (bytes : List UInt8) :
    Prop where
  clusters : Clusters g d first l
  byte : ∀ i, fileByte g d l i = bytes[i]?.getD 0
  covers : bytes.length ≤ l.length * g.clusterBytes

/-- Entry `j` is that of a file with the name, and no entry before it. -/
structure HasEntry (g : FatContext) (d : Disk) (name : List UInt8) (j : Nat) : Prop where
  lt : j < slots g
  before : ∀ i < j, rootSlot g d i 0 ≠ 0 ∧ ¬Names (rootSlot g d i) name
  fits : Fits (rootSlot g d j) name
  attr : (rootSlot g d j).attr &&& attrDirectory = 0

/-- The handle has the file: the size, the position and the clusters. -/
structure Open (g : FatContext) (name : List UInt8) (s : FatState) (h : Fin maxOpenFiles)
    (f : ByteFile) : Prop where
  root : OneCluster g s.disk
  used : (s.files h).used = true
  dirCluster : (s.files h).dirCluster = g.rootCluster
  entry : ∃ j, (s.files h).dirOffset = entrySize * j ∧ HasEntry g s.disk name j
  stored : ∃ l, Stored g s.disk (s.files h).firstCluster l f.bytes
  size : (s.files h).size = f.bytes.length
  position : (s.files h).position = f.position
  sizeLt : f.bytes.length < 2 ^ 32
  positionLt : f.position < 2 ^ 32

theorem OneCluster.links_ne_zero (h : OneCluster g d) : links g d g.rootCluster ≠ 0 := by
  intro hzero
  have hlast := h.last
  rw [hzero] at hlast
  exact absurd hlast (by decide)

theorem OneCluster.congr (h : OneCluster g d) (hsame : SameRoot g d d') : OneCluster g d' :=
  ⟨h.root, by rw [hsame.link]; exact h.last⟩

theorem HasEntry.congr (h : HasEntry g d name j) (hsame : SameRoot g d d') :
    HasEntry g d' name j := by
  have hslot : ∀ i ≤ j, rootSlot g d' i = rootSlot g d i := fun i hi =>
    slot_eq_of_data hsame.data (by have := h.lt; omega)
  refine ⟨h.lt, fun i hi => ?_, ?_, ?_⟩
  · rw [hslot i (by omega)]
    exact h.before i hi
  · rw [hslot j (Nat.le_refl j)]
    exact h.fits
  · rw [hslot j (Nat.le_refl j)]
    exact h.attr

theorem Stored.contents (h : Stored g d first l bytes) :
    contents bytes.length (fileByte g d l) = bytes := by
  refine List.ext_getElem? fun i => ?_
  rw [getElem?_contents, h.byte]
  split_ifs with hi
  · rw [List.getElem?_eq_getElem hi]
    rfl
  · rw [List.getElem?_eq_none (by omega)]

/-- Nothing is in no clusters. -/
theorem stored_nil (g : FatContext) (d : Disk) : Stored g d 0 [] [] :=
  ⟨⟨.inl ⟨rfl, rfl⟩, by simp, by simp⟩, fun _ => by simp [fileByte], by simp⟩

theorem Stored.length_taken (f : ByteFile) (n : Nat) :
    (f.taken n).length = min (f.bytes.length - f.position) n := by
  rw [ByteFile.taken, List.length_take, List.length_drop, Nat.min_comm]

theorem Stored.contents_write (h : Stored g d first l bytes) (p : Nat) (data : List UInt8) :
    Buffer.contents (max bytes.length (p + data.length)) (store (fileByte g d l) p data) =
      overwrite 0 p data bytes := by
  have hgap : ∀ k, bytes.length ≤ k → k < p → fileByte g d l k = 0 := fun k hk _ => by
    rw [h.byte, List.getElem?_eq_none hk, Option.getD_none]
  rw [contents_store data hgap, h.contents]

theorem Stored.length_write (h : Stored g d first l bytes) (p : Nat) (data : List UInt8) :
    (overwrite 0 p data bytes).length = max bytes.length (p + data.length) := by
  rw [← h.contents_write, length_contents]

theorem Stored.write (h : Stored g d first l bytes) {first' p : Nat} {l' : List Nat}
    (hl' : Clusters g d' first' l') (hbytes : fileByte g d' l' = store (fileByte g d l) p data)
    (hle : l.length ≤ l'.length) (hreaches : p + data.length ≤ l'.length * g.clusterBytes) :
    Stored g d' first' l' (overwrite 0 p data bytes) := by
  refine ⟨hl', fun i => ?_, ?_⟩
  · rw [hbytes, ← h.contents_write, getElem?_contents]
    split_ifs with hi
    · rfl
    · rw [store_above (by omega), h.byte, List.getElem?_eq_none (by omega)]
  · have hcovers := h.covers
    have := Nat.mul_le_mul_right g.clusterBytes hle
    rw [h.length_write]
    omega

/-! ## Reading, writing and seeking -/

namespace Open

variable (hs : Open g name s h f)
include hs

theorem fatRead_eq (hg : Layout g) (n : Nat) (hflags : (s.files h).flags &&& vfsRead ≠ 0) :
    fatRead g h n s = some (.ok (f.taken n), moved s h (f.position + (f.taken n).length)) := by
  obtain ⟨l, hl⟩ := hs.stored
  have hlength := Stored.length_taken f n
  have hrounds : readRounds g h f.position (min (f.bytes.length - f.position) n)
      (min (f.bytes.length - f.position) n) [] s = some (.ok (f.taken n), s) := by
    by_cases hzero : min (f.bytes.length - f.position) n = 0
    · rw [hzero] at hlength ⊢
      rw [List.length_eq_zero_iff.1 hlength]
      rfl
    · have hcovers := hl.covers
      have hlt := hs.sizeLt
      rw [readRounds_eq hg hl.clusters (by omega) (by omega) (Nat.zero_le _) (by simp)]
      simp only [List.nil_append, List.length_nil, Nat.sub_zero, Nat.add_zero]
      rw [contents_read, hl.contents, ByteFile.taken]
  have hposition : u32 (f.position + (f.taken n).length) = f.position + (f.taken n).length := by
    have := hs.sizeLt
    have := hs.positionLt
    exact Nat.mod_eq_of_lt (by omega)
  have hnot : ¬((s.files h).used = false ∨ (s.files h).flags &&& vfsRead = 0) := by
    simp [hs.used, hflags]
  rw [fatRead, bind_apply, read_apply]
  dsimp only
  rw [if_neg hnot, hs.size, hs.position, bind_apply, hrounds]
  dsimp only
  rw [hposition]
  rfl

theorem fatWrite_ok (hg : Layout g) (hlt : f.position + data.length < 2 ^ 32)
    (hrun : fatWrite g h data s = some (.ok n, t)) : n = data.length ∧
      (data ≠ [] → Open g name t h (f.write data)) := by
  obtain ⟨l, hl⟩ := hs.stored
  rw [fatWrite, bind_apply, read_apply] at hrun
  dsimp only at hrun
  split_ifs at hrun with hflags
  · cases hrun
  rw [bind_apply, hs.position] at hrun
  cases hrounds : writeRounds g h f.position data data.length 0 s with
  | none =>
    rw [hrounds] at hrun
    cases hrun
  | some out =>
  obtain ⟨r, u⟩ := out
  rw [hrounds] at hrun
  cases r with
  | error e => cases hrun
  | ok m =>
  obtain ⟨rfl, l', hwrote⟩ := writeRounds_eq hg hs.root.links_ne_zero hl.clusters (by omega)
    (Nat.zero_le _) (by omega) hrounds
  cases hrun
  refine ⟨rfl, fun hne => ?_⟩
  have hself : u.files h = { s.files h with firstCluster := (u.files h).firstCluster } := by
    have hfiles := congrFun hwrote.files h
    rwa [Function.update_self] at hfiles
  have hused := (congrArg FatFile.used hself).trans hs.used
  have hcluster := (congrArg FatFile.dirCluster hself).trans hs.dirCluster
  have hposition : u32 (f.position + data.length) = f.position + data.length :=
    Nat.mod_eq_of_lt hlt
  have hsize := hl.length_write f.position data
  obtain ⟨j, hoffset, hentry⟩ := hs.entry
  have hsizeLt := hs.sizeLt
  constructor
  case root => exact hs.root.congr hwrote.root
  case entry =>
    refine ⟨j, ?_, hentry.congr hwrote.root⟩
    simpa using (congrArg FatFile.dirOffset hself).trans hoffset
  case stored =>
    refine ⟨l', ?_⟩
    simpa [ByteFile.write] using
      hl.write hwrote.clusters hwrote.bytes hwrote.longer.length_le (hwrote.reaches hne)
  case size => simpa [ByteFile.write, hs.size, hposition] using hsize.symm
  case position => simp [ByteFile.write, hposition]
  case sizeLt =>
    simp only [ByteFile.write]
    omega
  case positionLt => exact hlt
  all_goals simpa

theorem moved (position : Nat) (hlt : position < 2 ^ 32) :
    Open g name (Fat.moved s h position) h { f with position } := by
  constructor
  case root => exact hs.root
  case entry => simpa using hs.entry
  case stored => simpa using hs.stored
  case sizeLt => exact hs.sizeLt
  case positionLt => exact hlt
  all_goals simp [hs.used, hs.dirCluster, hs.size]

theorem fatSeek_ok (hrun : fatSeek h offset origin s = some (.ok (), t)) :
    0 ≤ f.target offset origin ∧ t = Fat.moved s h (u32 (f.target offset origin).toNat) := by
  have hused : ¬(s.files h).used = false := by simp [hs.used]
  cases origin
  all_goals
    simp only [fatSeek, bind_apply, read_apply, if_neg hused, hs.size, hs.position,
      Int.zero_add] at hrun
    split_ifs at hrun with hneg
    · cases hrun
    · cases hrun
      exact ⟨by simp only [ByteFile.target]; omega, by simp [Fat.moved, ByteFile.target, hs.size]⟩

theorem tell : fatTell s h = f.position := by
  rw [fatTell, if_pos hs.used, hs.position]

/-- On an open handle the calls return what they return on the byte array. -/
theorem refines (hg : Layout g) : Refines g s h f := by
  refine ⟨hs.tell, hs.size, fun n hflags => ⟨_, hs.fatRead_eq hg n hflags⟩,
    fun data n t hrun hlt => (hs.fatWrite_ok hg hlt hrun).1, fun offset origin t hrun => ?_⟩
  obtain ⟨hnonneg, rfl⟩ := hs.fatSeek_ok hrun
  have htell : fatTell (Fat.moved s h (u32 (f.target offset origin).toNat)) h =
      u32 (f.target offset origin).toNat := by
    simp [fatTell, hs.used]
  rw [htell, u32]
  omega

end Open

end RadKernel.Fat
