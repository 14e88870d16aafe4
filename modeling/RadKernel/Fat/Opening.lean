import RadKernel.Fat.Owners
import RadKernel.Fat.Search

/-!
# Opening files

`fat_open` finds or makes the entry, frees its chain when it truncates, and takes a handle.
-/

namespace RadKernel.Fat

open Kernel Prog Buffer

variable {g : FatContext} {d : Disk} {h : Fin maxOpenFiles} {s t : FatState} {j flags : Nat}
  {name path : List UInt8}

/-! ## Names -/

theorem toUpperAscii_pos {ch : UInt8} (h : ¬toUpperAscii ch ≤ 32) : toUpperAscii ch ≠ 0 := by
  intro hzero
  rw [hzero] at h
  exact h (by decide)

theorem shortNameParts_some {base ext base' ext' : List UInt8} {inExt : Bool}
    (h : shortNameParts base ext inExt path = some (base', ext')) (hbase : ∀ ch ∈ base, ch ≠ 0)
    (hlength : base.length ≤ 8) (hext : ext.length ≤ 3) :
    (∀ ch ∈ base', ch ≠ 0) ∧ base'.length ≤ 8 ∧ ext'.length ≤ 3 := by
  induction path generalizing base ext inExt with
  | nil =>
    obtain ⟨rfl, rfl⟩ := Prod.mk.inj (Option.some.inj h)
    exact ⟨hbase, hlength, hext⟩
  | cons p rest ih =>
    unfold shortNameParts at h
    dsimp only at h
    split_ifs at h with _ _ hbad
    · exact ih h hbase hlength hext
    · refine ih h ?_ (by simp; omega) hext
      intro ch hch
      rcases List.mem_append.1 hch with hch | hch
      · exact hbase ch hch
      · obtain rfl := List.mem_singleton.1 hch
        exact toUpperAscii_pos fun hle => hbad (.inl hle)
    · exact ih h hbase hlength (by simp; omega)

/-- A short name has eleven characters and does not begin with a zero. -/
theorem makeShortName_some (h : makeShortName path = some name) :
    name.length = 11 ∧ ∃ ch rest, name = ch :: rest ∧ ch ≠ 0 := by
  unfold makeShortName at h
  dsimp only at h
  split_ifs at h
  split at h
  · cases h
  case h_2 base ext hparts =>
    split_ifs at h with hnil
    obtain ⟨hbase, hlength, hext⟩ := shortNameParts_some hparts (by simp) (by simp) (by simp)
    obtain rfl := Option.some.inj h
    refine ⟨by simp [padded]; omega, ?_⟩
    obtain ⟨ch, rest, rfl⟩ := List.exists_cons_of_ne_nil hnil
    exact ⟨ch, _, rfl, hbase ch (by simp)⟩

theorem newEntry_zero (h : makeShortName path = some name) : newEntry name 0 ≠ 0 := by
  obtain ⟨-, ch, rest, rfl, hch⟩ := makeShortName_some h
  have hfirst : newEntry (ch :: rest) 0 = ch := by simp [newEntry, store]
  rwa [hfirst]

section
variable (hname : name.length = 11)
include hname

theorem newEntry_high {i : Nat} (hi : 12 ≤ i) : newEntry name i = 0 := by
  rw [newEntry, store_above (by simp; omega), store_above (by omega)]

theorem firstCluster_newEntry : (newEntry name).firstCluster = 0 := by
  simp [FatDirEntry.firstCluster, le16, newEntry_high hname]

theorem size_newEntry : (newEntry name).size = 0 := by
  simp [FatDirEntry.size, le32, le16, newEntry_high hname]

end

/-! ## Making and truncating an entry -/

variable {e : FatDirEntry}

/-- The chain of a closed file, if it had one, was freed, and its entry is written without it. -/
theorem Good.putCleared (hg : Layout g) (hgood : Good g s) {first : Holder → Nat}
    (hvolume : Volume g (· = g.rootCluster) s.disk first d) (hj : j < slots g)
    (hfirst : ∀ o, o ≠ .entry j → first o = holds g s o) (hcluster : e.firstCluster = 0)
    (hne : e 0 ≠ 0) (hbefore : ∀ i < j, rootSlot g s.disk i 0 ≠ 0) :
    Good g { s with disk := Fat.putEntry g d g.rootCluster (entrySize * j) e } := by
  set t : FatState := { s with disk := Fat.putEntry g d g.rootCluster (entrySize * j) e } with ht
  have hholds : ∀ o, holds g t o ≠ 0 → holds g t o = first o := by
    intro o hne
    by_cases ho : o = .entry j
    · subst ho
      have hsame : SameEntry e (rootSlot g t.disk j) := entryAt_putEntry_self
      rw [holds_closed (closed_of_holds hne), hsame.firstCluster, hcluster] at hne
      exact absurd rfl hne
    · rw [hfirst o ho]
      cases o with
      | handle k => rfl
      | entry i =>
        exact holds_putEntry_other hgood hvolume hj (by simpa using ho) rfl Iff.rfl
  exact hgood.putEntry hg hvolume hj rfl (fun i hi _ => hbefore i hi)
    (fun hzero => absurd hzero hne) id hholds (fun o o' _ _ heq => heq) hgood.handles hgood.once

/-- An entry that is in use is not behind the end of the directory. -/
theorem Good.before (hgood : Good g s) (hj : j < slots g) (hne : rootSlot g s.disk j 0 ≠ 0) :
    ∀ i < j, rootSlot g s.disk i 0 ≠ 0 :=
  fun i hij hzero => hne (hgood.dirEnd i j hij hj hzero)

theorem Good.freeChain (hg : Layout g) (hgood : Good g s) (hclosed : Closed g s j)
    (hne : (rootSlot g s.disk j).firstCluster ≠ 0) :
    ∃ d', freeChain g (rootSlot g s.disk j).firstCluster s.disk = some (.ok (), d') ∧
      Volume g (· = g.rootCluster) s.disk (Function.update (holds g s) (.entry j) 0) d' := by
  have hholds := holds_closed hclosed
  rw [← hholds] at hne ⊢
  obtain ⟨l, hl, hall⟩ := hgood.volume.held.chain _ hne
  exact freeRounds_volume hg hgood.volume hne hl (length_le_maxRounds hg hl fun c hc => (hall c hc).1)

theorem Good.truncateEntry (hg : Layout g) (hgood : Good g s) (hj : j < slots g)
    (hsame : SameEntry e (rootSlot g s.disk j)) (hne : e 0 ≠ 0)
    (hlive : e.firstCluster ≠ 0 → Live e)
    (hclosed : flags &&& vfsTruncate ≠ 0 → flags &&& vfsWrite ≠ 0 → e.firstCluster ≠ 0 →
      ¬Opened s.files j) :
    ∃ e' d', truncateEntry g e (entrySize * j) flags s.disk = some (.ok e', d') ∧
      Good g { s with disk := d' } ∧ SameEntry e' (rootSlot g d' j) ∧
      (e'.firstCluster ≠ 0 → Live e') := by
  have hroot := hgood.root_inRange
  by_cases htruncate : flags &&& vfsTruncate ≠ 0 ∧ flags &&& vfsWrite ≠ 0
  case neg =>
    refine ⟨e, s.disk, ?_, hgood, hsame, hlive⟩
    exact truncateEntry_keep htruncate
  set e' := (e.setSize 0).setFirstCluster 0 with he'
  have hcluster' : e'.firstCluster = 0 := firstCluster_setFirstCluster (by decide)
  have hne' : e' 0 ≠ 0 := by
    exact hne
  have hslotNe : rootSlot g s.disk j 0 ≠ 0 := by
    rw [hsame 0 (by decide)]
    exact hne
  by_cases hcluster : e.firstCluster = 0
  · refine ⟨e', _, ?_, hgood.putCleared hg hgood.volume hj (fun _ _ => rfl) hcluster' hne'
      (hgood.before hj hslotNe), entryAt_putEntry_self, fun h => absurd hcluster' h⟩
    exact truncateEntry_empty hg hroot hj htruncate hcluster
  · have hslotClosed : Closed g s j :=
      ⟨hj, hsame.live.2 (hlive hcluster), hclosed htruncate.1 htruncate.2 hcluster⟩
    obtain ⟨d', hfree, hvolume⟩ := hgood.freeChain hg hslotClosed (by rwa [hsame.firstCluster])
    rw [hsame.firstCluster] at hfree
    refine ⟨e', _, ?_, hgood.putCleared hg hvolume hj (fun o ho => Function.update_of_ne ho ..)
      hcluster' hne' (hgood.before hj hslotNe), entryAt_putEntry_self, fun h => absurd hcluster' h⟩
    exact truncateEntry_freed hg hroot hj htruncate hcluster hfree

/-! ## The call -/

/-- `fat_open` truncates a file on which a handle is open. -/
def TruncatesOpened (g : FatContext) (s : FatState) (path : List UInt8) (flags : Nat) : Prop :=
  flags &&& vfsTruncate ≠ 0 ∧ flags &&& vfsWrite ≠ 0 ∧
    ∃ name j, makeShortName path = some name ∧ FirstNamed g s.disk name g.rootCluster j ∧
      (rootSlot g s.disk j).attr &&& attrDirectory = 0 ∧ (rootSlot g s.disk j).firstCluster ≠ 0 ∧
      Opened s.files j

/-- The entry that was found or made, on the disk that is left. -/
structure Ready (g : FatContext) (d : Disk) (e : FatDirEntry) (offset : Nat) (j : Nat) : Prop where
  offset : offset = entrySize * j
  lt : j < slots g
  same : SameEntry e (rootSlot g d j)
  live : e.firstCluster ≠ 0 → Live e

section
variable (hg : Layout g) (hgood : Good g s) (hname : makeShortName path = some name)
include hg hgood hname

theorem Good.findOrCreate (flags : Nat) :
    ∃ r d', findOrCreate g name flags s.disk = some (r, d') ∧ Good g { s with disk := d' } ∧
      ∀ e off, r = .ok (e, off) → ∃ j, Ready g d' e off j ∧ e 0 ≠ 0 ∧
        (e.firstCluster ≠ 0 → FirstNamed g s.disk name g.rootCluster j ∧
          e = rootSlot g s.disk j) := by
  have hroot := hgood.root_inRange
  obtain ⟨found, hfind, hfound⟩ := findEntry_cases hg (.last hgood.rootEnd)
    (by simpa using hroot) name
  simp only [Fat.findOrCreate, bind_apply, Prog.query, hfind, Option.map_some]
  cases found with
  | entry e off =>
    obtain ⟨c, j, hmatch, rfl, rfl⟩ := hfound
    obtain rfl := List.mem_singleton.1 hmatch.mem
    have hfirst := hmatch.firstNamed
    refine ⟨_, _, rfl, hgood, ?_⟩
    rintro e' off' heq
    cases heq
    exact ⟨j, ⟨rfl, hfirst.lt, SameEntry.refl _, fun _ => hfirst.named.1⟩, hfirst.named.1.used,
      fun _ => ⟨hfirst, rfl⟩⟩
  | missing free =>
    cases free with
    | none =>
      refine ⟨_, _, rfl, hgood, ?_⟩
      rintro e off heq
      cases heq
    | some off =>
      by_cases hcreate : flags &&& vfsCreate = 0
      · simp only [if_pos hcreate]
        refine ⟨_, _, rfl, hgood, ?_⟩
        rintro e off heq
        cases heq
      obtain ⟨-, free, hfree, hspace⟩ := hfound
      obtain ⟨c, j, hspace, rfl⟩ := hspace off hfree.symm
      obtain rfl := List.mem_singleton.1 hspace.mem
      have hfirst := hspace.firstFree
      have hcluster := firstCluster_newEntry (makeShortName_some hname).1
      have hbefore : ∀ i < j, rootSlot g s.disk i 0 ≠ 0 := by
        intro i hi hzero
        exact (hfirst.before i hi).1 (.inl hzero)
      simp only [if_neg hcreate, bind_apply, writeDirEntry_eq hg hroot hfirst.lt, pure_apply]
      refine ⟨_, _, rfl, hgood.putCleared hg hgood.volume hfirst.lt (fun _ _ => rfl) hcluster
        (newEntry_zero hname) hbefore, ?_⟩
      rintro e off heq
      cases heq
      exact ⟨j, ⟨rfl, hfirst.lt, entryAt_putEntry_self, fun hne => absurd hcluster hne⟩,
        newEntry_zero hname, fun hne => absurd hcluster hne⟩

theorem Good.openEntry (hflags : ¬TruncatesOpened g s path flags) :
    ∃ r d', openEntry g name flags s.disk = some (r, d') ∧ Good g { s with disk := d' } ∧
      ∀ e off, r = .ok (e, off) → ∃ j, Ready g d' e off j := by
  obtain ⟨r, d₁, hrun, hgood₁, hready⟩ := hgood.findOrCreate hg hname flags
  rw [Fat.openEntry, bind_apply, hrun]
  cases r with
  | error e =>
    refine ⟨_, _, rfl, hgood₁, ?_⟩
    rintro e off heq
    cases heq
  | ok found =>
    obtain ⟨e, off⟩ := found
    obtain ⟨j, hj, hne, hsource⟩ := hready e off rfl
    dsimp only
    by_cases hdirectory : e.attr &&& attrDirectory ≠ 0
    · rw [if_pos hdirectory]
      refine ⟨_, _, rfl, hgood₁, ?_⟩
      rintro e off heq
      cases heq
    rw [if_neg hdirectory]
    obtain ⟨e', d', htruncate, hgood', hsame', hlive'⟩ := hgood₁.truncateEntry hg hj.lt hj.same hne
      hj.live fun htr hwr hcluster hopened => by
        obtain ⟨hfirst, rfl⟩ := hsource hcluster
        exact hflags ⟨htr, hwr, name, j, hname, hfirst, by simpa using hdirectory, hcluster, hopened⟩
    rw [hj.offset, bind_apply, htruncate]
    refine ⟨_, _, rfl, hgood', ?_⟩
    rintro e'' off'' heq
    cases heq
    exact ⟨j, rfl, hj.lt, hsame', hlive'⟩

end

theorem freeFile_some (hfree : freeFile s = some h) : (s.files h).used = false := by
  have := List.find?_some hfree
  simpa using this

/-- `fat_open` returns, and the volume is good when it left at most one handle on each entry. -/
theorem Good.open (hg : Layout g) (hgood : Good g s) (hflags : ¬TruncatesOpened g s path flags) :
    ∃ r t, fatOpen g path flags s = some (r, t) ∧ (AtMostOne t → Good g t) := by
  unfold fatOpen
  cases hname : makeShortName path with
  | none => exact ⟨_, _, rfl, fun _ => hgood⟩
  | some name =>
    obtain ⟨r, d', hrun, hgood', hready⟩ := hgood.openEntry hg hname hflags
    have hdisk : withDisk (Fat.openEntry g name flags) s = some (r, { s with disk := d' }) := by
      rw [withDisk, Prog.focus, hrun]
      rfl
    dsimp only
    rw [bind_apply, hdisk]
    cases r with
    | error e => exact ⟨_, _, rfl, fun _ => hgood'⟩
    | ok found =>
      obtain ⟨e, off⟩ := found
      obtain ⟨j, hj⟩ := hready e off rfl
      simp only [bind_apply, read_apply]
      cases hfree : freeFile { s with disk := d' } with
      | none => exact ⟨_, _, rfl, fun _ => hgood'⟩
      | some h =>
        refine ⟨_, _, rfl, fun honce => ?_⟩
        refine hgood'.giveHandle (freeFile_some hfree) ?_ ?_ hj.lt ?_ ?_ rfl rfl honce
        · rfl
        · rfl
        · exact hj.offset
        · intro hne
          exact ⟨hj.same.live.2 (hj.live hne), hj.same.firstCluster.symm⟩

end RadKernel.Fat
