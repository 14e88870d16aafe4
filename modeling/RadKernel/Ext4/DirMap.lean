import RadKernel.Ext4.FileBytes
import RadKernel.Ext4.Records

/-!
# Directories are finite maps

The entries of a directory are those of its blocks, one block after the other. On a
directory whose blocks are tiled by records with distinct names, `lookup_child` looks a name
up in the list of entries, `add_dirent` adds an entry to it and `remove_dirent` takes one
away, each in one block.
-/

namespace RadKernel.Ext4

open Kernel Ownership Prog Function List

variable {g : Geometry} {init : Nat → Area} {d d' : Disk} {I I' : Inode}
  {n l b k child fileType : Nat} {name m : List UInt8} {f : Nat → UInt8}
  {es es' : List Entry} {content early later : List (List Entry)}

/-- The blocks of the directory, all of them mapped, hold the entries `content`. -/
structure DirHolds (g : Geometry) (d : Disk) (I : Inode) (content : List (List Entry)) : Prop where
  size : I.size = content.length * g.blockSize
  block : ∀ l es, content[l]? = some es → ∃ b, fileBlockNumber I l d = some (.ok b) ∧ b ≠ 0 ∧
    Holds (d.blocks b) g.blockSize es

/-- A directory whose blocks are tiled by records with distinct names. -/
def TiledDir (g : Geometry) (d : Disk) (I : Inode) : Prop :=
  inodeIsDir I = true ∧ ∃ content, DirHolds g d I content ∧ content.flatten.NodupKeys

theorem DirHolds.middle (h : DirHolds g d I (early ++ es :: later)) :
    ∃ b, fileBlockNumber I early.length d = some (.ok b) ∧ b ≠ 0 ∧
      Holds (d.blocks b) g.blockSize es :=
  h.block _ _ (by simp)

theorem DirHolds.length_le (h : DirHolds g d I content) : content.length * 1024 ≤ I.size := by
  have hsize := g.blockSize_eq
  rw [h.size]
  exact Nat.mul_le_mul_left _ (by omega)

/-- The blocks of a directory determine its entries. -/
theorem DirHolds.unique (h : DirHolds g d I early) (h' : DirHolds g d I later) : early = later := by
  have hlength : early.length = later.length :=
    Nat.eq_of_mul_eq_mul_right g.blockSize_pos (h.size.symm.trans h'.size)
  refine ext_getElem hlength fun l hl hl' => ?_
  obtain ⟨b, hb, -, hholds⟩ := h.block l _ (List.getElem?_eq_getElem hl)
  obtain ⟨b', hb', -, hholds'⟩ := h'.block l _ (List.getElem?_eq_getElem hl')
  obtain rfl : b = b' := by simpa [hb] using hb'
  exact hholds.unique hholds'

theorem DirHolds.blocksBelow_eq (h : DirHolds g d I content) :
    blocksBelow g I.size = content.length := by
  have hpos := g.blockSize_pos
  unfold blocksBelow
  rw [h.size, Nat.add_sub_assoc hpos, Nat.mul_comm, Nat.mul_add_div hpos,
    Nat.div_eq_of_lt (by omega), Nat.add_zero]

/-! ## Lookup -/

theorem ends_block (g : Geometry) (l : Nat) :
    Ends g (l * g.blockSize) g.blockSize (g.blockSize + 1) 0 := by
  have hsize := g.blockSize_eq
  have hcopy : copyLen g (l * g.blockSize) g.blockSize 0 = g.blockSize := by
    simp only [copyLen, Nat.sub_zero, Nat.add_zero, Nat.mul_mod_left]
    rw [u32, Nat.mod_eq_of_lt (by omega), Nat.min_self]
  obtain ⟨k, hk⟩ := Nat.exists_eq_succ_of_ne_zero (Nat.ne_of_gt g.blockSize_pos)
  refine .inr ⟨by omega, ?_⟩
  rw [hcopy, hk]
  exact .inl (by omega)

theorem readInodeData_block (hfile : fileBlockNumber I l d = some (.ok b)) (hb : b ≠ 0)
    (hl : l < 2 ^ 32) (hsize : l * g.blockSize + g.blockSize ≤ I.size) :
    ∃ bytes, readInodeData g I (l * g.blockSize) g.blockSize d = some (.ok (g.blockSize, bytes)) ∧
      Agree (d.blocks b) bytes 0 g.blockSize := by
  have hbytes : ∀ k, k < g.blockSize →
      byteAt g I (l * g.blockSize + k) d = some (.ok (d.blocks b k)) := by
    intro k hk
    obtain ⟨hdiv, hmod⟩ := Geometry.div_mod_of_lt hk
    rw [byteAt, hdiv, hmod, u32, Nat.mod_eq_of_lt hl, blockByte_of_file hfile, if_neg hb]
  obtain ⟨bytes, hread, hall⟩ := readInodeData_ok hsize (ends_block g l) hbytes
  exact ⟨bytes, hread, fun i _ hi => hall i hi⟩

/-- What a search for a name returns. -/
def lookupResult (found : Option Nat) : Option (Except Status Nat) :=
  match found with
  | some k => some (.ok k)
  | none => some (.error .notFound)

theorem lookupFrom_eq {fuel : Nat} (h : DirHolds g d I (early ++ later)) (hsize : I.size < 2 ^ 32)
    (hfuel : later.length ≤ fuel) : lookupFrom g I name fuel (early.length * g.blockSize) d =
      lookupResult (later.flatten.dlookup name) := by
  induction later generalizing early fuel with
  | nil =>
    have hend : I.size ≤ early.length * g.blockSize := by
      have := h.size
      simp at this
      omega
    cases fuel with
    | zero => rfl
    | succ fuel =>
      unfold lookupFrom
      rw [if_pos hend]
      rfl
  | cons es later ih =>
    have hlen := h.length_le
    have hall := h.size
    simp only [length_append, length_cons, Nat.add_mul, Nat.one_mul] at hlen hall
    have hpos := g.blockSize_eq
    have hleft : min g.blockSize (u32 (I.size - early.length * g.blockSize)) = g.blockSize := by
      rw [u32, Nat.mod_eq_of_lt (by omega)]
      omega
    obtain ⟨b, hfile, hb, hholds⟩ := h.middle
    obtain ⟨bytes, hread, hagree⟩ :=
      readInodeData_block (g := g) hfile hb (by omega) (by omega)
    obtain ⟨fuel, rfl⟩ : ∃ k, fuel = k + 1 := ⟨fuel - 1, by simp at hfuel; omega⟩
    have hfind := (hholds.congr hagree).find name
    have hrest : lookupFrom g I name fuel ((early ++ [es]).length * g.blockSize) d =
        lookupResult (later.flatten.dlookup name) := ih (by simpa using h) (by simpa using hfuel)
    rw [length_append, length_singleton, Nat.add_mul, Nat.one_mul] at hrest
    unfold lookupFrom
    rw [if_neg (by omega), hleft, Query.bind_of_ok hread]
    simp only [show ¬g.blockSize < 8 by omega, if_false, flatten_cons, dlookup_append]
    rw [← hfind]
    cases hscan : findIn 8 (isNamed name) bytes g.blockSize with
    | some pos => rfl
    | none => exact hrest

theorem lookupChild_eq (hn : n ≠ 0) (hstored : d.inodes n = I) (hdir : inodeIsDir I = true)
    (h : DirHolds g d I content) (hsize : I.size < 2 ^ 32) :
    lookupChild g n name d = lookupResult (content.flatten.dlookup name) := by
  have hread : readInode n d = some (.ok I) := by
    simp [readInode, hn, Query.bind_apply, hstored]
  have hlen := h.length_le
  have hfrom := @lookupFrom_eq g d I name [] content I.size h hsize (by omega)
  rw [length_nil, Nat.zero_mul] at hfrom
  rw [lookupChild, Query.bind_of_ok hread]
  simp only [hdir, Bool.not_true]
  exact hfrom

/-! ## Changing one block -/

theorem ensureInodeBlock_found (hfile : fileBlockNumber I l d = some (.ok b)) (hb : b ≠ 0) :
    ensureInodeBlock g l (I, d) = some (.ok b, I, d) := by
  simp [ensureInodeBlock, Prog.bind_apply, queryDisk_apply, hfile, hb]

theorem writeBlock_apply (b : Nat) (f : Nat → UInt8) (d : Disk) :
    writeBlock g b f d = some (.ok (), d.setBlock b (overlay (d.blocks b) 0 g.blockSize f)) := rfl

theorem overlay_agree (base f : Nat → UInt8) (len : Nat) :
    Agree f (overlay base 0 len f) 0 len := by
  intro i _ hi
  rw [overlay_of_mem (Nat.zero_le _) (by omega), Nat.sub_zero]

/-- One block of the directory replaced. -/
theorem DirHolds.set (h : DirHolds g d I (early ++ es :: later)) (hw : Writable g init n (I, d))
    (hfile : fileBlockNumber I early.length d = some (.ok b)) (hb : b ≠ 0)
    (hholds : Holds f g.blockSize es') :
    DirHolds g (d.setBlock b (overlay (d.blocks b) 0 g.blockSize f)) I (early ++ es' :: later) := by
  refine ⟨by simpa using h.size, fun l es₁ hl => ?_⟩
  obtain ⟨-, hmap⟩ := hw.write hfile hb (overlay (d.blocks b) 0 g.blockSize f)
  by_cases hsame : l = early.length
  · subst hsame
    obtain rfl : es' = es₁ := by simpa using hl
    refine ⟨b, (hmap _).trans hfile, hb, ?_⟩
    simp only [Disk.setBlock, update_self]
    exact hholds.congr (overlay_agree _ _ _)
  · have hold : (early ++ es :: later)[l]? = some es₁ := by
      rw [← hl, List.getElem?_append, List.getElem?_append]
      by_cases hbefore : l < early.length
      · simp [hbefore]
      · obtain ⟨k, hk⟩ : ∃ k, l - early.length = k + 1 := ⟨l - early.length - 1, by omega⟩
        simp [hbefore, hk]
    obtain ⟨c, hc, hc0, hcholds⟩ := h.block l es₁ hold
    refine ⟨c, (hmap l).trans hc, hc0, ?_⟩
    have hne : c ≠ b := by
      rintro rfl
      exact hsame (hw.inj hc hfile hb)
    simpa [Disk.setBlock, update_of_ne hne] using hcholds

/-- The map of a copy does not see the inode table, nor fields other than the blocks. -/
theorem DirHolds.congr (h : DirHolds g d I content) (harea : I'.area = I.area)
    (hsize : I'.size = I.size) (hblocks : d'.blocks = d.blocks) : DirHolds g d' I' content := by
  refine ⟨hsize ▸ h.size, fun l es hl => ?_⟩
  obtain ⟨b, hb, hb0, hholds⟩ := h.block l es hl
  refine ⟨b, ?_, hb0, hblocks ▸ hholds⟩
  have hsame : fileBlockNumber I' l = fileBlockNumber I l := by
    unfold fileBlockNumber
    rw [harea]
  rw [hsame, fileBlockNumber_congr (d := d) fun _ _ _ => by rw [hblocks]]
  exact hb

/-- A changed block reordered: the entries of the directory change by the same entry. -/
theorem flatten_perm {e : Entry} (h : es'.Perm (e :: es)) :
    (early ++ es' :: later).flatten.Perm (e :: (early ++ es :: later).flatten) := by
  simp only [flatten_append, flatten_cons]
  refine ((h.append_right later.flatten).append_left early.flatten).trans ?_
  exact perm_middle

/-! ## Insertion -/

/-- The state between the calls on a directory: the copy is the inode on disk, and it can be
written through. -/
structure DirState (g : Geometry) (init : Nat → Area) (n : Nat) (content : List (List Entry))
    (s : Inode × Disk) : Prop where
  stored : s.2.inodes n = s.1
  isDir : inodeIsDir s.1 = true
  writable : Writable g init n s
  holds : DirHolds g s.2 s.1 content
  distinct : content.flatten.NodupKeys

theorem writeCopy_apply (hn : n ≠ 0) : writeCopy n (I, d) = some (.ok (), I, d.setInode n I) := by
  simp [writeCopy, Prog.bind_apply, runDisk_apply, writeInode, hn]

theorem Writable.writeStore (h : Writable g init n (I, d))
    (hfile : fileBlockNumber I l d = some (.ok b)) (hb : b ≠ 0) (f : Nat → UInt8)
    (harea : I'.area = I.area) : Writable g init n (I', (d.setBlock b f).setInode n I') :=
  ((h.write hfile hb f).1.setCopy harea).commit

/-- The loop of `add_dirent`: no block has room, or the first with room takes the entry. -/
theorem addToBlocks_ok (fileType : Nat) (hn : n ≠ 0) (hw : Writable g init n (I, d))
    (h : DirHolds g d I (early ++ later)) (hchild : 0 < child) (hchild32 : child < 2 ^ 32)
    (hname : name.length ≤ ext4NameMax) :
    (addToBlocks g n child name fileType later.length early.length (I, d) =
        some (.ok false, I, d) ∧
      ∀ l b, early.length ≤ l → l < early.length + later.length →
        fileBlockNumber I l d = some (.ok b) →
        findIn 1 (hasRoom (direntLen name.length)) (d.blocks b) g.blockSize = none) ∨
    ∃ d' content', addToBlocks g n child name fileType later.length early.length (I, d) =
        some (.ok true, I, d') ∧
      d'.inodes n = I ∧ Writable g init n (I, d') ∧ DirHolds g d' I content' ∧
      content'.flatten.Perm (⟨name, child⟩ :: (early ++ later).flatten) := by
  induction later generalizing early with
  | nil => exact .inl ⟨rfl, fun l b hl hl' => absurd hl' (by simp; omega)⟩
  | cons es later ih =>
    obtain ⟨b, hfile, hb, hholds⟩ := h.middle
    have hsize := g.blockSize_eq
    rw [length_cons]
    unfold addToBlocks
    rw [Prog.bind_apply, ensureInodeBlock_found hfile hb]
    simp only [Prog.bind_apply, Prog.read_apply]
    cases hscan : findIn 1 (hasRoom (direntLen name.length)) (d.blocks b) g.blockSize with
    | some pos =>
      obtain ⟨es', hholds', hperm⟩ :=
        hholds.insert fileType hscan hchild hchild32 hname (by omega)
      refine .inr ⟨_, early ++ es' :: later, ?_, update_self ..,
        hw.writeStore hfile hb (overlay (d.blocks b) 0 g.blockSize
          (insertEntry (d.blocks b) pos child name fileType)) rfl,
        (h.set hw hfile hb hholds').congr rfl rfl rfl, flatten_perm hperm⟩
      simp only [Prog.bind_apply, runDisk_apply, writeBlock_apply, Option.map_some,
        writeCopy_apply hn, Prog.pure_apply]
    | none =>
      have hrest := @ih (early ++ [es]) (by simpa using h)
      simp only [length_append, length_singleton, append_assoc, singleton_append] at hrest
      refine hrest.imp (fun ⟨hrun, hnone⟩ => ⟨hrun, fun l c hl hl' hc => ?_⟩) id
      by_cases hhere : l = early.length
      · subst hhere
        obtain rfl : b = c := by simpa [hfile] using hc
        exact hscan
      · exact hnone l c (by omega) (by omega) hc

/-- A block of the directory has room for a record of the name. -/
def Roomy (g : Geometry) (name : List UInt8) (s : Inode × Disk) : Prop :=
  ∃ l b, l * g.blockSize < s.1.size ∧ fileBlockNumber s.1 l s.2 = some (.ok b) ∧
    findIn 1 (hasRoom (direntLen name.length)) (s.2.blocks b) g.blockSize ≠ none

theorem searchedBlocks_eq (h : DirHolds g d I content) (hne : content ≠ [])
    (hsize : I.size < 2 ^ 32) : searchedBlocks g I = content.length := by
  have hpos := g.blockSize_eq
  have hlen : 0 < content.length := List.length_pos_iff.2 hne
  have hle := h.length_le
  have hblocks : (I.size + g.blockSize - 1) / g.blockSize = content.length := by
    rw [h.size, Nat.add_sub_assoc g.blockSize_pos, Nat.mul_comm,
      Nat.mul_add_div g.blockSize_pos, Nat.div_eq_of_lt (by omega), Nat.add_zero]
  unfold searchedBlocks
  rw [u64, Nat.mod_eq_of_lt (by omega), hblocks, u32, Nat.mod_eq_of_lt (by omega)]
  omega

theorem DirHolds.append {I₁ : Inode} {d₁ : Disk} (h : DirHolds g d I content)
    (hw : Writable g init n (I₁, d₁)) (hb : b ≠ 0) (hensured : Ensured g content.length I d b I₁ d₁)
    (hholds : Holds f g.blockSize es) :
    DirHolds g (d₁.setBlock b (overlay (d₁.blocks b) 0 g.blockSize f))
      (inodeSetSize I₁ ((content.length + 1) * g.blockSize)) (content ++ [es]) ↔
    u64 ((content.length + 1) * g.blockSize) = (content.length + 1) * g.blockSize := by
  refine ⟨fun h => by simpa [inodeSetSize] using h.size, fun hsize => ?_⟩
  refine ⟨by simpa [inodeSetSize] using hsize, fun l es₁ hl => ?_⟩
  have hmap := (hw.write hensured.file hb (overlay (d₁.blocks b) 0 g.blockSize f)).2 l
  have hsame : fileBlockNumber (inodeSetSize I₁ ((content.length + 1) * g.blockSize)) l =
      fileBlockNumber I₁ l := rfl
  rw [hsame, hmap]
  by_cases hlast : l = content.length
  · subst hlast
    obtain rfl : es = es₁ := by simpa using hl
    refine ⟨b, hensured.file, hb, ?_⟩
    simp only [Disk.setBlock, update_self]
    exact hholds.congr (overlay_agree _ _ _)
  · have hold : content[l]? = some es₁ := by
      have hlt : l < content.length := by
        have := (List.getElem?_eq_some_iff.1 hl).1
        simp at this
        omega
      rwa [List.getElem?_append_left hlt] at hl
    obtain ⟨c, hc, hc0, hcholds⟩ := h.block l es₁ hold
    have hc₁ := (hensured.other hlast).trans hc
    refine ⟨c, hc₁, hc0, ?_⟩
    have hcb : c ≠ b := by
      rintro rfl
      exact hlast (hw.inj hc₁ hensured.file hb)
    simpa [Disk.setBlock, update_of_ne hcb, hensured.bytes hc hc0] using hcholds

/-- An addition that returns adds its entry, in the room it found or in a block behind the
others. -/
theorem addDirent_ok (hn : n ≠ 0) (h : DirState g init n content (I, d)) (hne : content ≠ [])
    (hsize : I.size < 2 ^ 32) (habsent : name ∉ content.flatten.keys) (hchild : 0 < child)
    (hchild32 : child < 2 ^ 32)
    (hx : addDirent g n child name fileType (I, d) = some (.ok (), I', d')) :
    ∃ content', DirState g init n content' (I', d') ∧ content' ≠ [] ∧
      content'.flatten.Perm (⟨name, child⟩ :: content.flatten) ∧
      (I' = I ∨ I'.size = I.size + g.blockSize ∧ ¬Roomy g name (I, d)) := by
  have hpos := g.blockSize_eq
  have hdistinct : ∀ {es : List Entry}, es.Perm (⟨name, child⟩ :: content.flatten) →
      es.NodupKeys := fun hperm =>
    (perm_nodupKeys hperm).2 (List.nodupKeys_cons.2 ⟨habsent, h.distinct⟩)
  unfold addDirent at hx
  split at hx
  · cases hx
  case isFalse hlong =>
    have hname : name.length ≤ ext4NameMax := Nat.le_of_not_lt hlong
    simp only [Prog.bind_apply, Prog.read_apply, searchedBlocks_eq h.holds hne hsize] at hx
    have hloop := @addToBlocks_ok g init d I n child name [] content fileType hn h.writable
      h.holds hchild hchild32 hname
    rw [length_nil] at hloop
    rcases hloop with ⟨hrun, hnone⟩ | ⟨d₁, content', hrun, hstored, hw, hholds, hperm⟩
    · simp only [hrun] at hx
      rw [if_neg Bool.false_ne_true, Prog.bind_apply] at hx
      cases hensure : ensureInodeBlock g content.length (I, d) with
      | none => simp [hensure] at hx
      | some out =>
        obtain ⟨out, I₁, d₁⟩ := out
        rw [hensure] at hx
        cases out with
        | error e => simp at hx
        | ok b =>
          have hlen : content.length * 1024 ≤ I.size := h.holds.length_le
          obtain ⟨hw₁, hb, hensured⟩ := ensureInodeBlock_ok h.writable (by omega) hensure
          simp only [Prog.bind_apply, modifyCopy, Prog.modify_apply, runDisk_apply,
            writeBlock_apply, Option.map_some, writeCopy_apply hn, Option.some.injEq,
            Prod.mk.injEq] at hx
          obtain ⟨-, rfl, rfl⟩ := hx
          have hcount : u32 (content.length + 1) = content.length + 1 :=
            Nat.mod_eq_of_lt (by omega)
          have hall : I.size = content.length * g.blockSize := h.holds.size
          have hbig : (content.length + 1) * g.blockSize < 2 ^ 64 := by
            rw [Nat.add_mul, ← hall]
            omega
          have hholds := ((h.holds.append hw₁ hb hensured
            (freshBlock_holds g fileType hchild hchild32 hname)).2
            (Nat.mod_eq_of_lt hbig))
          have hperm : (content ++ [[(⟨name, child⟩ : Entry)]]).flatten.Perm
              (⟨name, child⟩ :: content.flatten) := by
            simp
          rw [hcount]
          refine ⟨content ++ [[(⟨name, child⟩ : Entry)]], ⟨update_self .., ?_,
            hw₁.writeStore hensured.file hb _ rfl, hholds.congr rfl rfl rfl, hdistinct hperm⟩,
            by simp, hperm, .inr ⟨?_, ?_⟩⟩
          · have hdir := h.isDir
            unfold inodeIsDir at hdir ⊢
            rw [← hdir]
            simp only [inodeSetSize, hensured.mode_eq]
          · simp only [inodeSetSize, u64, Nat.add_mul, hall]
            omega
          · rintro ⟨l, c, hl, hc, hroom⟩
            refine hroom (hnone l c (Nat.zero_le _) ?_ hc)
            rw [hall] at hl
            simpa using Nat.lt_of_mul_lt_mul_right hl
    · simp only [hrun, if_true, Prog.pure_apply, Option.some.injEq, Prod.mk.injEq] at hx
      obtain ⟨-, rfl, rfl⟩ := hx
      refine ⟨content', ⟨hstored, h.isDir, hw, hholds, hdistinct hperm⟩, ?_, hperm, .inl rfl⟩
      rintro rfl
      simpa using hperm.length_eq

/-! ## Removal -/

theorem removeFromBlocks_ok (hn : n ≠ 0) (hw : Writable g init n (I, d))
    (h : DirHolds g d I (early ++ later)) (hsize : I.size < 2 ^ 32)
    (hfound : later.flatten.dlookup name ≠ none) :
    ∃ d' content' k,
      removeFromBlocks g n name later.length early.length (I, d) =
        some (.ok true, { I with mtime := 1, ctime := 1 }, d') ∧
      d'.inodes n = { I with mtime := 1, ctime := 1 } ∧
      Writable g init n ({ I with mtime := 1, ctime := 1 }, d') ∧
      DirHolds g d' { I with mtime := 1, ctime := 1 } content' ∧ content' ≠ [] ∧
      (early ++ later).flatten.Perm (⟨name, k⟩ :: content'.flatten) := by
  induction later generalizing early with
  | nil => exact absurd rfl hfound
  | cons es later ih =>
    obtain ⟨b, hfile, hb, hholds⟩ := h.middle
    have hlen := h.length_le
    simp only [length_append, length_cons] at hlen
    have hlogical : u32 early.length = early.length := Nat.mod_eq_of_lt (by omega)
    have hfind := hholds.find name
    rw [length_cons]
    unfold removeFromBlocks
    simp only [Prog.bind_apply, Prog.read_apply, queryDisk_apply, hlogical, hfile, Option.map_some,
      hb, if_false]
    cases hscan : findIn 8 (isNamed name) (d.blocks b) g.blockSize with
    | some pos =>
      obtain ⟨es', hholds', hperm⟩ := hholds.remove hscan
      refine ⟨_, early ++ es' :: later, _, ?_, update_self ..,
        hw.writeStore hfile hb (overlay (d.blocks b) 0 g.blockSize (putLe 4 (d.blocks b) pos 0)) rfl,
        (h.set hw hfile hb hholds').congr rfl rfl rfl, by simp, flatten_perm hperm⟩
      simp only [Prog.bind_apply, runDisk_apply, writeBlock_apply, Option.map_some, modifyCopy,
        Prog.modify_apply, writeCopy_apply hn, Prog.pure_apply]
    | none =>
      have hnone : es.dlookup name = none := by
        rw [← hfind, hscan]
        rfl
      have hlater : later.flatten.dlookup name ≠ none := by
        simpa [dlookup_append, hnone] using hfound
      obtain ⟨d', content', k, hrun, hrest⟩ := @ih (early ++ [es]) (by simpa using h) hlater
      rw [length_append, length_singleton] at hrun
      rw [append_assoc, singleton_append] at hrest
      exact ⟨d', content', k, hrun, hrest⟩

/-- The removal of a name that is there succeeds and takes its entry away. -/
theorem removeDirent_ok (hn : n ≠ 0) (h : DirState g init n content (I, d))
    (hsize : I.size < 2 ^ 32) (hfound : content.flatten.dlookup name ≠ none) :
    ∃ I' d' content' k, removeDirent g n name (I, d) = some (.ok (), I', d') ∧
      DirState g init n content' (I', d') ∧ content' ≠ [] ∧
      I' = { I with mtime := 1, ctime := 1 } ∧
      content.flatten.Perm (⟨name, k⟩ :: content'.flatten) := by
  obtain ⟨d', content', k, hrun, hstored, hw, hholds, hne, hperm⟩ :=
    @removeFromBlocks_ok g init d I n name [] content hn h.writable h.holds hsize hfound
  have hblocks : blocksBelow g I.size = content.length := h.holds.blocksBelow_eq
  refine ⟨_, d', content', k, ?_, ⟨hstored, h.isDir, hw, hholds, ?_⟩, hne, rfl, hperm⟩
  · rw [length_nil] at hrun
    unfold removeDirent
    simp only [Prog.bind_apply, Prog.read_apply, hblocks, hrun]
    rfl
  · exact (List.nodupKeys_cons.1 ((perm_nodupKeys hperm).1 h.distinct)).2

/-! ## Runs -/

inductive DirCall where
  | add (child : Nat) (name : List UInt8) (fileType : Nat)
  | remove (name : List UInt8)

/-- A call on the directory with inode number `n` and on the caller's copy of its inode. -/
def performDir (g : Geometry) (n : Nat) : DirCall → CopyM Unit
  | .add child name fileType => addDirent g n child name fileType
  | .remove name => removeDirent g n name

/-- An absent name is added for an inode number, or a name that is there is removed. -/
def DirCall.Proper (g : Geometry) (n : Nat) (s : Inode × Disk) : DirCall → Prop
  | .add child name _ => 0 < child ∧ child < 2 ^ 32 ∧
      lookupChild g n name s.2 = some (.error .notFound)
  | .remove name => ∃ k, lookupChild g n name s.2 = some (.ok k)

/-- The effect of a call on the map from names to inodes. -/
def DirCall.Maps (g : Geometry) (n : Nat) (s s' : Inode × Disk) : DirCall → Prop
  | .add child name _ => lookupChild g n name s'.2 = some (.ok child) ∧
      ∀ m, m ≠ name → lookupChild g n m s'.2 = lookupChild g n m s.2
  | .remove name => lookupChild g n name s'.2 = some (.error .notFound) ∧
      ∀ m, m ≠ name → lookupChild g n m s'.2 = lookupChild g n m s.2

/-- What keeps a call on a directory from breaking it: the directory has a block, and it
stays below `2 ^ 32` bytes, also when the name needs another block. -/
def DirCall.Meets (g : Geometry) (s : Inode × Disk) : DirCall → Prop
  | .add _ name _ => 0 < s.1.size ∧ s.1.size < 2 ^ 32 ∧
      (Roomy g name s ∨ s.1.size + g.blockSize < 2 ^ 32)
  | .remove _ => s.1.size < 2 ^ 32

/-- The states that proper calls which return lead to, with `P` of every call and of the
state it is made in. -/
inductive DirReached (g : Geometry) (n : Nat) (P : Inode × Disk → DirCall → Prop)
    (start : Inode × Disk) : Inode × Disk → Prop
  | start : DirReached g n P start start
  | call {s s' : Inode × Disk} {c : DirCall} (before : DirReached g n P start s)
      (proper : c.Proper g n s) (hp : P s c) (run : performDir g n c s = some (.ok (), s')) :
      DirReached g n P start s'

variable {s : Inode × Disk} {c : DirCall}

theorem DirState.tiled (h : DirState g init n content s) :
    TiledDir g s.2 s.1 := ⟨h.isDir, content, h.holds, h.distinct⟩

theorem DirState.lookup (h : DirState g init n content s) (hn : n ≠ 0)
    (hsize : s.1.size < 2 ^ 32) (m : List UInt8) :
    lookupChild g n m s.2 = lookupResult (content.flatten.dlookup m) :=
  lookupChild_eq hn h.stored h.isDir h.holds hsize

variable {found : Option Nat}

theorem lookupResult_notFound
    (h : lookupResult found = some (.error .notFound)) : found = none := by
  cases found with
  | none => rfl
  | some k => cases h

theorem lookupResult_ok (h : lookupResult found = some (.ok k)) : found ≠ none := by
  rintro rfl
  cases h

theorem DirCall.Proper.pos (h : c.Proper g n s) : n ≠ 0 := by
  rintro rfl
  cases c with
  | add child name fileType => simp [DirCall.Proper, lookupChild, readInode, Query.bind_apply] at h
  | remove name => simp [DirCall.Proper, lookupChild, readInode, Query.bind_apply] at h

theorem ne_nil_of_size (h : DirHolds g d I content) (hsize : 0 < I.size) : content ≠ [] := by
  rintro rfl
  simp [h.size] at hsize

/-- One call: the map changes at one name, and the directory is as it should be again. -/
theorem performDir_ok {s' : Inode × Disk} (h : DirState g init n content s)
    (hproper : c.Proper g n s) (hmeets : c.Meets g s)
    (hx : performDir g n c s = some (.ok (), s')) :
    ∃ content', DirState g init n content' s' ∧ c.Maps g n s s' := by
  have hn := hproper.pos
  obtain ⟨I, d⟩ := s
  obtain ⟨I', d'⟩ := s'
  cases c with
  | add child name fileType =>
    obtain ⟨hchild, hchild32, habsent⟩ := hproper
    obtain ⟨hpos, hsize, hroom⟩ := hmeets
    rw [h.lookup hn hsize] at habsent
    have hnone := List.dlookup_eq_none.1 (lookupResult_notFound habsent)
    obtain ⟨content', h', -, hperm, hgrown⟩ := addDirent_ok hn h (ne_nil_of_size h.holds hpos) hsize
      hnone hchild hchild32 hx
    have hsize' : I'.size < 2 ^ 32 := by
      rcases hgrown with rfl | ⟨hmore, hfull⟩
      · omega
      · have hnext : I.size + g.blockSize < 2 ^ 32 := hroom.resolve_left hfull
        omega
    have hlookup : ∀ m, content'.flatten.dlookup m =
        ((⟨name, child⟩ : Entry) :: content.flatten).dlookup m := fun m =>
      perm_dlookup m h'.distinct hperm
    refine ⟨content', h', ?_, fun m hm => ?_⟩
    · rw [h'.lookup hn hsize', hlookup, dlookup_cons_eq]
      rfl
    · rw [h'.lookup hn hsize', h.lookup hn hsize, hlookup, dlookup_cons_ne _ _ hm]
  | remove name =>
    obtain ⟨k, hpresent⟩ := hproper
    have hsize : I.size < 2 ^ 32 := hmeets
    rw [h.lookup hn hsize] at hpresent
    have hfound := lookupResult_ok hpresent
    obtain ⟨I₁, d₁, content', k, hrun, h', -, hsame, hperm⟩ := removeDirent_ok hn h hsize hfound
    obtain ⟨rfl, rfl⟩ : I₁ = I' ∧ d₁ = d' := by simpa [performDir, hrun] using hx
    have hlookup : ∀ m, content.flatten.dlookup m =
        ((⟨name, k⟩ : Entry) :: content'.flatten).dlookup m := fun m =>
      perm_dlookup m h.distinct hperm
    have hgone : name ∉ content'.flatten.keys :=
      (List.nodupKeys_cons.1 ((perm_nodupKeys hperm).1 h.distinct)).1
    have hsize' : (I₁, d₁).1.size < 2 ^ 32 := by
      rw [hsame]
      exact hsize
    refine ⟨content', h', ?_, fun m hm => ?_⟩
    · rw [h'.lookup hn hsize', List.dlookup_eq_none.2 hgone]
      rfl
    · rw [h'.lookup hn hsize', h.lookup hn hsize, hlookup, dlookup_cons_ne _ _ hm]

theorem dirState_of_reached {start : Inode × Disk} (h : DirState g init n content start)
    (hrun : DirReached g n (DirCall.Meets g ·) start s) :
    ∃ content', DirState g init n content' s := by
  induction hrun with
  | start => exact ⟨content, h⟩
  | call before proper hp run ih =>
    obtain ⟨content₁, h₁⟩ := ih
    obtain ⟨content₂, h₂, -⟩ := performDir_ok h₁ proper hp run
    exact ⟨content₂, h₂⟩

/-- The directory of an image as a starting point. -/
theorem DirState.start (hc : Consistent g d) (htiled : TiledDir g d (d.inodes n))
    (hends : (d.inodes n).area.EndsInRange) :
    ∃ content, DirState g (fun n => (d.inodes n).area) n content (d.inodes n, d) := by
  obtain ⟨hdir, content, hholds, hdistinct⟩ := htiled
  exact ⟨content, rfl, hdir, hc.writable hends, hholds, hdistinct⟩

/-- In every run the blocks stay tiled, the names distinct, and every call changes the map
at its own name only; a removal of a name that is there always succeeds. -/
theorem finiteMap_of_run {s : Inode × Disk} (hc : Consistent g d)
    (htiled : TiledDir g d (d.inodes n)) (hends : (d.inodes n).area.EndsInRange)
    (hrun : DirReached g n (DirCall.Meets g ·) (d.inodes n, d) s) :
    TiledDir g s.2 s.1 ∧ s.2.inodes n = s.1 ∧
      (∀ c s', c.Proper g n s → c.Meets g s → performDir g n c s = some (.ok (), s') →
        c.Maps g n s s' ∧ TiledDir g s'.2 s'.1) ∧
      ∀ name, (DirCall.remove name).Proper g n s → s.1.size < 2 ^ 32 →
        ∃ s', performDir g n (.remove name) s = some (.ok (), s') := by
  obtain ⟨content, hstart⟩ := DirState.start hc htiled hends
  obtain ⟨content', h⟩ := dirState_of_reached hstart hrun
  refine ⟨h.tiled, h.stored, fun c s' hproper hmeets hx => ?_, fun name hproper hsize => ?_⟩
  · obtain ⟨content₂, h₂, hmaps⟩ := performDir_ok h hproper hmeets hx
    exact ⟨hmaps, h₂.tiled⟩
  · have hn := hproper.pos
    obtain ⟨k, hpresent⟩ := hproper
    rw [h.lookup hn hsize] at hpresent
    obtain ⟨I', d', -, -, hremove, -⟩ := removeDirent_ok hn h hsize (lookupResult_ok hpresent)
    exact ⟨(I', d'), hremove⟩

theorem oneFile_holds : Holds (insertEntry (dotBlock smallVolume 2 2) 12 12 [97] ext4FtRegular) 1024
    [⟨[dot], 2⟩, ⟨[dot, dot], 2⟩, ⟨[97], 12⟩] :=
  ⟨[0, 12, 24], .record (by decide +kernel) (by decide +kernel) (.record (by decide +kernel)
    (by decide +kernel) (.record (by decide +kernel) (by decide +kernel) .done)), by decide +kernel⟩

/-- The directory `/` of a small volume: a name is added to it. -/
theorem finiteMap_added : ∃ s : Inode × Disk, ∃ c : DirCall,
    TiledDir smallVolume s.2 s.1 ∧ ∃ s', performDir smallVolume 2 c s = some (.ok (), s') ∧
      c.Maps smallVolume 2 s s' := by
  let s : Inode × Disk := (oneFile.inodes 2, oneFile)
  let c : DirCall := .add 13 [98] ext4FtRegular
  have hfile : fileBlockNumber (oneFile.inodes 2) 0 oneFile = some (.ok 10) := by decide +kernel
  have hblock : oneFile.blocks 10 =
      insertEntry (dotBlock smallVolume 2 2) 12 12 [97] ext4FtRegular := by
    simp only [oneFile, if_true]
  have htiled : TiledDir smallVolume oneFile (oneFile.inodes 2) := by
    refine ⟨by decide, [[⟨[dot], 2⟩, ⟨[dot, dot], 2⟩, ⟨[97], 12⟩]], ⟨by decide, ?_⟩,
      (by decide : ([[dot], [dot, dot], [97]] : List (List UInt8)).Nodup)⟩
    rintro l es hl
    obtain ⟨rfl, rfl⟩ : l = 0 ∧ [⟨[dot], 2⟩, ⟨[dot, dot], 2⟩, ⟨[97], 12⟩] = es := by
      cases l with
      | zero => simpa using hl
      | succ l => simp at hl
    exact ⟨10, hfile, by decide, hblock ▸ oneFile_holds⟩
  have hends : (oneFile.inodes 2).area.EndsInRange := by
    rintro node hnode - e he
    cases hnode
    obtain rfl : e = ⟨0, 1, 0, 10⟩ := by simpa using he
    decide
  have habsent : lookupChild smallVolume 2 [98] oneFile = some (.error .notFound) := by
    decide +kernel
  have hrun : (performDir smallVolume 2 c s).map (fun out => out.1.toOption.isSome) =
      some true := by decide +kernel
  obtain ⟨⟨out, s'⟩, hx, hout⟩ := Option.map_eq_some_iff.1 hrun
  cases out with
  | error e => cases hout
  | ok u =>
    obtain ⟨htiled', -, hstep, -⟩ := finiteMap_of_run oneFile_consistent htiled hends .start
    exact ⟨s, c, htiled', s', hx, (hstep c s' ⟨by decide, by decide, habsent⟩
      ⟨by decide, by decide, .inr (by decide)⟩ hx).1⟩

/-! ## Directories that break -/

theorem Holds.recLen_ge {limit : Nat} (h : Holds f limit es) (hlimit : 0 < limit) :
    8 ≤ recLen f 0 := by
  obtain ⟨ps, htiles, -⟩ := h
  cases htiles with
  | done => omega
  | record need =>
    have := eight_le_recNeed f 0
    omega

/-- An inode without blocks put into a consistent volume. -/
theorem Consistent.setInode (hc : Consistent g d) (hnot : ¬I.area.IsIndex)
    (hleaf : I.area.leaf = []) : Consistent g (d.setInode n I) := by
  have hrefs : ∀ {k p b}, slotRefs (d.setInode n I) k p b → slotRefs d k p b := by
    intro k p b hr
    by_cases hk : k = n
    · subst hk
      simp only [slotRefs, Disk.setInode, update_self] at hr
      have hmem := mem_of_ofList ((areaRefs_iff_leaf hnot).1 hr)
      simp [hleaf] at hmem
    · simpa only [slotRefs, Disk.setInode, update_of_ne hk] using hr
  refine ⟨hc.owned.mono (fun k p b hk hr => ⟨hk, hrefs hr⟩) fun _ _ _ _ _ hm => hm,
    ⟨fun k hk => ?_, hc.clean.2⟩, fun k p hr => hc.unnamed k p (hrefs hr), hc.zero⟩
  by_cases hkn : k = n
  · subst hkn
    simpa only [Disk.setInode, update_self] using ⟨hnot, hleaf⟩
  · simpa only [Disk.setInode, update_of_ne hkn] using hc.clean.1 k hk

/-- A directory without blocks. -/
def noBlocks : Inode := { mode := 0x41ed, linksCount := 2, area := .extents emptyNode }

/-- An addition to a directory of size zero: the block of zeros it allocates to search it
becomes the first block of the directory, without a record. -/
theorem not_tiled_noBlocks : ¬∀ (g : Geometry) (d : Disk) (n : Nat) (s : Inode × Disk),
    Consistent g d → TiledDir g d (d.inodes n) → (d.inodes n).area.EndsInRange →
    DirReached g n (fun _ _ => True) (d.inodes n, d) s → TiledDir g s.2 s.1 := by
  intro hall
  let d : Disk := oneFile.setInode 12 noBlocks
  let c : DirCall := .add 13 [98] ext4FtRegular
  have hc : Consistent smallVolume d := oneFile_consistent.setInode
    (by simp [noBlocks, Area.IsIndex, emptyNode]) (by decide)
  have htiled : TiledDir smallVolume d (d.inodes 12) :=
    ⟨by decide, [], ⟨by decide, fun l es hl => by simp at hl⟩, List.nodupKeys_nil⟩
  have hends : (d.inodes 12).area.EndsInRange := by
    rintro node hnode - e he
    obtain rfl : emptyNode = node := by simpa [d, Disk.setInode, noBlocks] using hnode
    simp [emptyNode] at he
  have habsent : lookupChild smallVolume 12 [98] d = some (.error .notFound) := by
    decide +kernel
  have hrun : (performDir smallVolume 12 c (d.inodes 12, d)).map (fun out =>
      (out.1.toOption.isSome, out.2.1.size,
        (fileBlockNumber out.2.1 0 out.2.2).bind Except.toOption, recLen (out.2.2.blocks 33) 0)) =
      some (true, 2048, some 33, 0) := by decide +kernel
  obtain ⟨⟨out, s'⟩, hx, hfacts⟩ := Option.map_eq_some_iff.1 hrun
  simp only [Prod.mk.injEq] at hfacts
  obtain ⟨hout, hsize, hfile, hrec⟩ := hfacts
  cases out with
  | error e => cases hout
  | ok u =>
    obtain ⟨-, content, hholds, -⟩ := hall smallVolume d 12 s' hc htiled hends
      (.call (c := c) .start ⟨by decide, by decide, habsent⟩ trivial hx)
    have hlen : 0 < content.length := by
      have hcount : s'.1.size = content.length * 1024 := hholds.size
      omega
    obtain ⟨b, hb, -, hblock⟩ := hholds.block 0 _ (List.getElem?_eq_getElem hlen)
    obtain rfl : b = 33 := by
      rw [hb] at hfile
      exact Option.some.inj hfile
    have := hblock.recLen_ge (by decide)
    omega

end RadKernel.Ext4
