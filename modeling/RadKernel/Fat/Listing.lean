import RadKernel.Fat.Names
import RadKernel.Fat.Walks

/-!
# Names after `fat_open`

`fat_open` with `RAD_VFS_CREATE` writes the entry of a missing name, or of a file that it
truncates, into the first cluster of the root directory, where `fat_list` comes to it.
-/

namespace RadKernel.Fat

open Kernel Prog Buffer

variable {g : FatContext} {d d' : Disk} {name path : List UInt8} {R : List Nat} {s t : FatState}
  {c j flags off start : Nat} {e : FatDirEntry} {h : Fin maxOpenFiles}

/-! ## Directories -/

/-- The root directory has the clusters `R`, and the links of its files are in the table. -/
structure Directory (g : FatContext) (R : List Nat) (d : Disk) : Prop where
  layout : Layout g
  chain : ChainOf g d g.rootCluster R
  range : ∀ c ∈ R, InRange g c
  files : ∀ c j, Listed g d R c j → ClearsLinks g d (slot g d c j).firstCluster

theorem linkAt_eq (hg : Layout g) (hc : InRange g c) : linkAt g d c = links g d c := by
  have hread := @fatEntry_eq g d c hg hc
  rw [fatEntry_apply hc.1, ← links_of_inRange hc] at hread
  exact Except.ok.inj (Option.some.inj hread)

variable {l : List Nat} {n : Nat}

section
variable (hg : Layout g) (hl : ChainOf g d start l) (hrange : ∀ x ∈ l, InRange g x)
include hg hl hrange

theorem linkWalk_mem (hn : ∀ k ≤ n, IsCluster (linkWalk g d start k)) :
    linkWalk g d start n ∈ l := by
  induction n with
  | zero => exact hl.head_mem
  | succ n ih =>
    have hmem := ih fun k hk => hn k (by omega)
    have hcluster := hn (n + 1) (Nat.le_refl _)
    rw [linkWalk_succ, linkAt_eq hg (hrange _ hmem)] at hcluster ⊢
    exact hl.next_mem hmem hcluster.2

theorem clearsLinks_of_chain : ClearsLinks g d start := by
  intro n hn p hp
  have hclusters : ∀ k ≤ n, IsCluster (linkWalk g d start k) := by
    intro k hk
    rcases Nat.eq_or_lt_of_le hk with rfl | hlt
    · exact hn.2
    · exact (hn.1 k hlt).1
  have hin := hrange _ (linkWalk_mem hg hl hrange hclusters)
  have htable := hg.link_lt hin
  refine .inl ⟨n, hclusters, ?_, hp⟩
  unfold u32 sectorSize
  omega

end

theorem clearsLinks_zero (g : FatContext) (d : Disk) : ClearsLinks g d 0 := by
  intro n hn
  have hfirst : IsCluster (linkWalk g d 0 0) := by
    cases n with
    | zero => exact hn.2
    | succ n => exact (hn.1 0 (by omega)).1
  exact absurd hfirst.1 (show ¬2 ≤ 0 by decide)

theorem WellFormed.directory (hw : WellFormed g R s) : Directory g R s.disk := by
  refine ⟨hw.layout, hw.root, hw.rootRange, fun c j hlisted => ?_⟩
  by_cases hzero : (slot g s.disk c j).firstCluster = 0
  · rw [hzero]
    exact clearsLinks_zero g s.disk
  · obtain ⟨l, hl, hall⟩ := hw.chain c j hlisted hzero
    exact clearsLinks_of_chain hw.layout hl fun x hx => (hall x hx).1

theorem FirstMatch.listed (h : FirstMatch g d name l c j) : Listed g d l c j := by
  induction h with
  | here h => exact .here h.lt (fun i hi => (h.before i hi).1) h.named.1
  | later hpassed _ ih => exact .later (fun i hi => (hpassed i hi).1) ih

/-- A chain whose links are in the table is freed without a change of any cluster. -/
theorem freeChain_data (hg : Layout g) (hlinks : ClearsLinks g d start) :
    ∃ d', freeChain g start d = some (.ok (), d') ∧ ∀ s, g.firstDataSector ≤ s → d' s = d s := by
  obtain ⟨N, d', hrun, hclears, hblank⟩ := freeChain_clears g d start
  refine ⟨d', hrun, fun s hs => funext fun i => ?_⟩
  by_contra hne
  obtain ⟨p, ⟨n, -, htable, hp⟩, rfl, -⟩ := (onlyLinks_iff hclears hblank).2 hlinks s i hne
  obtain ⟨fat, hfat, rfl⟩ := List.mem_map.1 hp
  have hfirst := hg.firstDataSector_eq
  have hlt : (fat + 1) * g.fatSize ≤ g.fatCount * g.fatSize :=
    Nat.mul_le_mul_right _ (List.mem_range.1 hfat)
  have hsector : (linkPlace g fat (linkWalk g d start n)).1 ≤ g.reservedSectors +
      fat * g.fatSize + u32 (linkWalk g d start n * 4) / sectorSize := by
    have hfat' := Nat.mod_le (fat * g.fatSize) (2 ^ 32)
    refine (Nat.mod_le _ _).trans ?_
    unfold u32 at hfat' ⊢
    omega
  rw [Nat.succ_mul] at hlt
  omega

/-! ## Searching -/

variable {free : Option Nat}

theorem scanCluster_found {offset : Nat}
    (h : scanCluster g name c n offset free d = some (.ok (.found e off))) : Names e name := by
  induction n generalizing offset free with
  | zero => cases h
  | succ n ih =>
    obtain ⟨entry, hentry, h⟩ := Query.bind_eq_ok.1 h
    split_ifs at h with hend hdeleted hlong hname
    · cases h
    · exact ih h
    · exact ih h
    · cases h
      exact ⟨⟨hend, hdeleted, hlong⟩, hname⟩
    · exact ih h

theorem findRounds_found {rounds : Nat}
    (h : findRounds g name rounds c free d = some (.ok (.entry e off))) : Names e name := by
  induction rounds generalizing c free with
  | zero => cases h
  | succ rounds ih =>
    obtain ⟨r, hscan, h⟩ := Query.bind_eq_ok.1 h
    cases r with
    | found entry offset =>
      cases h
      exact scanCluster_found hscan
    | ended free' => cases h
    | exhausted free' =>
      obtain ⟨next, -, h⟩ := Query.bind_eq_ok.1 h
      split_ifs at h with hend
      · cases h
      · exact ih h

theorem findEntry_first (hg : Layout g) (hroot : InRange g g.rootCluster)
    (hfirst : FirstNamed g d name g.rootCluster j) :
    ∃ e off, findEntry g name d = some (.ok (.entry e off)) := by
  rcases findRounds_step name hg hroot (2 ^ 28) none with
    ⟨r, hrun, hsearched⟩ | ⟨free', hpassed, -⟩
  · cases r with
    | entry e off => exact ⟨e, off, hrun⟩
    | missing free => exact absurd (.here hfirst) ((hsearched []).1 _ j)
  · exact absurd hfirst.named (hpassed j hfirst.lt).2

theorem exists_firstNamed (hlt : j < slots g) (hbefore : ∀ i < j, rootSlot g d i 0 ≠ 0)
    (hnamed : Names (rootSlot g d j) name) : ∃ i, FirstNamed g d name g.rootCluster i := by
  induction j using Nat.strong_induction_on with
  | _ j ih =>
    by_cases hearlier : ∃ i < j, Names (rootSlot g d i) name
    · obtain ⟨i, hi, hnames⟩ := hearlier
      exact ih i hi (by omega) (fun k hk => hbefore k (by omega)) hnames
    · push Not at hearlier
      exact ⟨j, hlt, hnamed, fun i hi => ⟨hbefore i hi, hearlier i hi⟩⟩

/-! ## The calls -/

/-- `fat_stat` knows the path. -/
def StatOk (g : FatContext) (path : List UInt8) (d : Disk) : Prop :=
  ∃ st, fatStat g path d = some (.ok st)

theorem statOk_iff (hname : makeShortName path = some name) :
    StatOk g path d ↔ ∃ e off, findEntry g name d = some (.ok (.entry e off)) := by
  have hpath : ¬(path = [] ∨ path = [47]) := by
    rintro (rfl | rfl) <;> cases hname
  unfold StatOk
  rw [fatStat, if_neg hpath, hname]
  constructor
  · rintro ⟨st, hrun⟩
    obtain ⟨found, hfind, h⟩ := Query.bind_eq_ok.1 hrun
    cases found with
    | entry e off => exact ⟨e, off, hfind⟩
    | missing free => cases h
  · rintro ⟨e, off, hfind⟩
    exact ⟨entryStat e, Query.bind_of_ok hfind⟩

/-- The name of the entry is one that `make_short_name` makes. -/
def Created (e : FatDirEntry) : Prop := ∃ path, makeShortName path = some e.name

/-- `fat_stat` succeeds, `fat_list` reports a text of the name, and what `fat_list` reports of a
file that has a name of the driver is found by `fat_stat`. -/
structure NamesAgree (g : FatContext) (path name : List UInt8) (d : Disk) : Prop where
  stat : StatOk g path d
  listed : ∃ reports, fatList g [] (fun _ => true) d = some (.ok reports) ∧
    ∃ r ∈ reports, makeShortName r.name = some name
  found : ∀ root goOn reports, fatList g root goOn d = some (.ok reports) → ∀ r ∈ reports,
    (∃ j, Lists g d j ∧ r = reported (rootSlot g d j)) ∧
    ∀ j, Lists g d j → r = reported (rootSlot g d j) → Created (rootSlot g d j) →
      StatOk g r.name d

/-- `fat_list` comes to an entry whose text gives the name. -/
def Shown (g : FatContext) (d : Disk) (name : List UInt8) : Prop :=
  ∃ j, Lists g d j ∧ makeShortName (reported (rootSlot g d j)).name = some name

/-- The flags with which `fat_open` truncates. -/
abbrev Truncates (flags : Nat) : Prop := flags &&& vfsTruncate ≠ 0 ∧ flags &&& vfsWrite ≠ 0

theorem namesAgree_of_shown (hg : Layout g) (hroot : InRange g g.rootCluster) :
    NamesAgree g path name d ↔ StatOk g path d ∧ Shown g d name := by
  constructor
  · rintro ⟨hstat, ⟨reports, hrun, r, hr, htext⟩, hfound⟩
    obtain ⟨⟨j, hlists, rfl⟩, -⟩ := hfound _ _ _ hrun r hr
    exact ⟨hstat, j, hlists, htext⟩
  · rintro ⟨hstat, j, hlists, htext⟩
    obtain ⟨reports, hrun, -, hall⟩ :=
      @fatList_apply g d [] hg hroot (fun _ => true) (.inl rfl)
    refine ⟨hstat, ⟨reports, hrun, _, hall (fun _ => rfl) j hlists, htext⟩, ?_⟩
    intro root goOn reports' hrun' r hr
    have hpath : root = [] ∨ root = [47] := by
      by_contra hnot
      rw [fatList, if_pos (by tauto)] at hrun'
      cases hrun'
    obtain ⟨reports'', hrun'', honly, -⟩ := fatList_apply hg hroot goOn hpath
    cases hrun'.symm.trans hrun''
    refine ⟨honly r hr, ?_⟩
    rintro i hi rfl ⟨path', hpath'⟩
    obtain ⟨k, hk⟩ := exists_firstNamed hi.lt hi.before ⟨hi.live, rfl⟩
    exact (statOk_iff (makeShortName_text hpath' rfl)).2 (findEntry_first hg hroot hk)

/-! ## Opening -/

/-- Entry `j` of the first cluster was written for the name, before the end of the directory. -/
structure Placed (g : FatContext) (d : Disk) (name : List UInt8) (j : Nat) : Prop where
  lt : j < slots g
  before : ∀ i < j, rootSlot g d i 0 ≠ 0
  fits : Fits (rootSlot g d j) name

theorem placed_put (hroot : InRange g g.rootCluster) (hlt : j < slots g)
    (hbefore : ∀ i < j, rootSlot g d i 0 ≠ 0) (hfits : Fits e name) :
    Placed g (putEntry g d g.rootCluster (entrySize * j) e) name j := by
  refine ⟨hlt, fun i hi => ?_, entryAt_putEntry_self.fits hfits⟩
  have hsame := entryAt_putEntry_other (d := d) (e := e) hroot hroot hlt (k := i) (by omega)
    (.inr (by omega)) 0 (by decide)
  exact fun hzero => hbefore i hi (hsame.symm.trans hzero)

/-- Where the entries of the first cluster are used up to the place of a match or of the new
entry. -/
theorem FirstMatch.before (h : FirstMatch g d name (g.rootCluster :: l) c j) :
    j < slots g ∧ ∀ i < j, rootSlot g d i 0 ≠ 0 := by
  cases h with
  | here h => exact ⟨h.lt, fun i hi => (h.before i hi).1⟩
  | later hpassed h =>
    have hlt := h.firstNamed.lt
    exact ⟨hlt, fun i hi => (hpassed i (by omega)).1⟩

theorem FirstSpace.before (h : FirstSpace g d name (g.rootCluster :: l) c j) :
    j < slots g ∧ ∀ i < j, rootSlot g d i 0 ≠ 0 := by
  cases h with
  | here h => exact ⟨h.lt, fun i hi hzero => (h.before i hi).1 (.inl hzero)⟩
  | later hpassed _ h =>
    have hlt := h.firstFree.lt
    exact ⟨hlt, fun i hi => (hpassed i (by omega)).1⟩

theorem truncateEntry_placed (hg : Layout g) (hroot : InRange g g.rootCluster)
    (htruncates : Truncates flags) (hlt : j < slots g) (hbefore : ∀ i < j, rootSlot g d i 0 ≠ 0)
    (hfits : Fits e name) (hlinks : ClearsLinks g d e.firstCluster) :
    ∃ e' d', truncateEntry g e (entrySize * j) flags d = some (.ok e', d') ∧
      Placed g d' name j := by
  set e' := (e.setSize 0).setFirstCluster 0 with he'
  by_cases hcluster : e.firstCluster ≠ 0
  · obtain ⟨d', hfree, hdata⟩ := freeChain_data hg hlinks
    refine ⟨e', putEntry g d' g.rootCluster (entrySize * j) e', ?_,
      placed_put hroot hlt (fun i hi => ?_) (hfits.setFields 0 0)⟩
    · exact truncateEntry_freed hg hroot hlt htruncates hcluster hfree
    · have hsector : d' (firstSector g g.rootCluster + entrySize * i / sectorSize) =
          d (firstSector g g.rootCluster + entrySize * i / sectorSize) :=
        hdata _ (slot_inCluster (show i < slots g by omega) g.rootCluster).data
      have hbyte := hbefore i hi
      unfold rootSlot slot entryAt at hbyte ⊢
      rwa [hsector]
  · refine ⟨e', putEntry g d g.rootCluster (entrySize * j) e', ?_,
      placed_put hroot hlt hbefore (hfits.setFields 0 0)⟩
    exact truncateEntry_empty hg hroot hlt htruncates (not_not.1 hcluster)

/-- The first entry with the name, when there is one, is kept by an open that does not truncate. -/
def KeepsMatch (g : FatContext) (R : List Nat) (d : Disk) (name : List UInt8) (flags : Nat) :
    Prop :=
  (∃ c j, FirstMatch g d name R c j) ∧ ¬Truncates flags

theorem Directory.openEntry (hdir : Directory g R d) (hname : makeShortName path = some name)
    (hcreate : flags &&& vfsCreate ≠ 0)
    (hopen : openEntry g name flags d = some (.ok (e, off), d')) :
    KeepsMatch g R d name flags ∧ d' = d ∨
      ¬KeepsMatch g R d name flags ∧ ∃ j, Placed g d' name j := by
  have hg := hdir.layout
  have hroot := hdir.range _ hdir.chain.head_mem
  obtain ⟨rest, hR⟩ : ∃ rest, R = g.rootCluster :: rest := by
    cases hdir.chain with
    | last => exact ⟨[], rfl⟩
    | link => exact ⟨_, rfl⟩
  obtain ⟨found, hfind, hsearched⟩ := findEntry_cases hg hdir.chain hdir.range name
  rw [Fat.openEntry, bind_apply, findOrCreate, bind_apply, Prog.query, hfind] at hopen
  cases found with
  | entry e₁ off₁ =>
    obtain ⟨c, j, hmatch, rfl, rfl⟩ := hsearched
    have hlinks := hdir.files c j hmatch.listed
    simp only [Option.map_some, pure_apply] at hopen
    split_ifs at hopen with hdirectory
    · cases hopen
    rw [bind_apply] at hopen
    by_cases htruncates : Truncates flags
    · refine .inr ⟨fun hkeeps => hkeeps.2 htruncates, ?_⟩
      obtain ⟨hlt, hbefore⟩ := (hR ▸ hmatch).before
      obtain ⟨e', d'', hrun, hplaced⟩ := truncateEntry_placed hg hroot htruncates hlt hbefore
        (.inl hmatch.firstNamed.named) hlinks
      rw [hrun] at hopen
      cases hopen
      exact ⟨j, hplaced⟩
    · rw [truncateEntry, if_neg htruncates] at hopen
      cases hopen
      exact .inl ⟨⟨⟨c, j, hmatch⟩, htruncates⟩, rfl⟩
  | missing free =>
    obtain ⟨hnone, _, rfl, hspace⟩ := hsearched
    have hfresh : ¬KeepsMatch g R d name flags := by
      rintro ⟨⟨c, j, hmatch⟩, -⟩
      exact hnone c j hmatch
    refine .inr ⟨hfresh, ?_⟩
    cases free with
    | none =>
      cases hopen
    | some off₁ =>
      obtain ⟨c, j, hfirst, rfl⟩ := hspace off₁ rfl
      obtain ⟨hlt, hbefore⟩ := (hR ▸ hfirst).before
      have hcluster := firstCluster_newEntry (makeShortName_some hname).1
      have hplaced := placed_put hroot hlt hbefore (newEntry_fits hname)
      simp only [Option.map_some, if_neg hcreate, bind_apply,
        writeDirEntry_eq hg hroot hlt, pure_apply] at hopen
      split_ifs at hopen with hdirectory
      · cases hopen
      rw [bind_apply] at hopen
      by_cases htruncates : Truncates flags
      · obtain ⟨e', d'', hrun, hplaced'⟩ := truncateEntry_placed hg hroot htruncates hlt
          hplaced.before (newEntry_fits hname) (by rw [hcluster]; exact clearsLinks_zero g _)
        rw [hrun] at hopen
        cases hopen
        exact ⟨j, hplaced'⟩
      · rw [truncateEntry, if_neg htruncates] at hopen
        cases hopen
        exact ⟨j, hplaced⟩

/-- The handle that `fat_open` makes of an entry. -/
def openedFile (g : FatContext) (e : FatDirEntry) (off flags : Nat) : FatFile where
  used := true
  firstCluster := e.firstCluster
  size := e.size
  position := if flags &&& vfsAppend ≠ 0 then e.size else 0
  dirCluster := g.rootCluster
  dirOffset := off
  flags := flags

theorem fatOpen_ok (hname : makeShortName path = some name)
    (hopen : fatOpen g path flags s = some (.ok h, t)) :
    ∃ e off, openEntry g name flags s.disk = some (.ok (e, off), t.disk) ∧
      t.files = Function.update s.files h (openedFile g e off flags) := by
  rw [fatOpen, hname] at hopen
  dsimp only at hopen
  rw [bind_apply, withDisk, Prog.focus] at hopen
  cases hrun : openEntry g name flags s.disk with
  | none =>
    rw [hrun] at hopen
    cases hopen
  | some out =>
    obtain ⟨r, d'⟩ := out
    rw [hrun] at hopen
    cases r with
    | error e => cases hopen
    | ok found =>
      simp only [Option.map_some, bind_apply, read_apply] at hopen
      cases hfree : freeFile { s with disk := d' } with
      | none =>
        rw [hfree] at hopen
        cases hopen
      | some k =>
        rw [hfree] at hopen
        cases hopen
        exact ⟨found.1, found.2, rfl, rfl⟩

/-- The condition under which the calls agree. -/
def Agrees (g : FatContext) (R : List Nat) (d : Disk) (name : List UInt8) (flags : Nat) : Prop :=
  name.head? ≠ some 0xe5 ∧ (KeepsMatch g R d name flags → Shown g d name)

/-- After an open with `RAD_VFS_CREATE` the calls agree on the name just when it does not count as
deleted, and a file that is not truncated was shown before. -/
theorem namesAgree_iff (hdir : Directory g R s.disk) (hname : makeShortName path = some name)
    (hcreate : flags &&& vfsCreate ≠ 0) (hopen : fatOpen g path flags s = some (.ok h, t)) :
    NamesAgree g path name t.disk ↔ Agrees g R s.disk name flags := by
  have hg := hdir.layout
  have hroot := hdir.range _ hdir.chain.head_mem
  obtain ⟨e, off, hentry, -⟩ := fatOpen_ok hname hopen
  rw [namesAgree_of_shown hg hroot, statOk_iff hname, Agrees]
  rcases hdir.openEntry hname hcreate hentry with ⟨hkeeps, hdisk⟩ | ⟨hnot, j, hplaced⟩
  · obtain ⟨c, j, hmatch⟩ := hkeeps.1
    obtain ⟨found, hfind, hsearched⟩ := findEntry_cases hg hdir.chain hdir.range name
    have hfound : ∃ e off, findEntry g name s.disk = some (.ok (.entry e off)) := by
      cases found with
      | entry e off => exact ⟨e, off, hfind⟩
      | missing free => exact absurd hmatch (hsearched.1 c j)
    have hhead : name.head? ≠ some 0xe5 :=
      fun hhead => not_names_of_head hhead hmatch.firstNamed.named
    rw [hdisk]
    exact ⟨fun hboth => ⟨hhead, fun _ => hboth.2⟩, fun hagrees => ⟨hfound, hagrees.2 hkeeps⟩⟩
  · constructor
    · rintro ⟨⟨e', off', hfind⟩, -⟩
      exact ⟨fun hhead => not_names_of_head hhead (findRounds_found hfind),
        fun hkeeps => absurd hkeeps hnot⟩
    · rintro ⟨hhead, -⟩
      have hnames : Names (rootSlot g t.disk j) name :=
        hplaced.fits.resolve_right fun hdeleted => hhead hdeleted.1
      obtain ⟨i, hfirst⟩ := exists_firstNamed hplaced.lt hplaced.before hnames
      exact ⟨findEntry_first hg hroot hfirst, j, ⟨hplaced.lt, hplaced.before, hnames.1⟩,
        makeShortName_text hname hnames.2⟩

/-- `I` is created. -/
theorem namesAgree_newName :
    ∃ h t, fatOpen demoContext [73] vfsCreate demoStart = some (.ok h, t) ∧
      NamesAgree demoContext [73] (letterName 8) t.disk := by
  have hopens : (fatOpen demoContext [73] vfsCreate demoStart).map
      (fun out => decide (out.1 = .ok firstFile)) = some true := by decide +kernel
  obtain ⟨⟨r, t⟩, hopen, hr⟩ := Option.map_eq_some_iff.1 hopens
  obtain rfl := of_decide_eq_true hr
  refine ⟨firstFile, t, hopen, (namesAgree_iff wellFormed_demoStart.directory (by decide)
    (by decide) hopen).2 ⟨by decide, fun hkeeps => ?_⟩⟩
  obtain ⟨c, j, hmatch⟩ := hkeeps.1
  have hnamed := hmatch.firstNamed
  have hnone : ∀ j < 16, (slot demoContext demoDisk 2 j).name ≠ letterName 8 := by decide +kernel
  rw [List.mem_singleton.1 hmatch.mem] at hnamed
  exact absurd hnamed.named.2 (hnone j hnamed.lt)

/-- A name that begins with 0xe5 is created, and not found. -/
theorem not_namesAgree_deleted :
    ¬ ∀ g R s path name flags h t, Directory g R s.disk → makeShortName path = some name →
      flags &&& vfsCreate ≠ 0 → fatOpen g path flags s = some (.ok h, t) →
      NamesAgree g path name t.disk := by
  intro hall
  have hopens : (fatOpen demoContext [0xe5] vfsCreate demoStart).map
      (fun out => decide (out.1 = .ok firstFile)) = some true := by decide +kernel
  obtain ⟨⟨r, t⟩, hopen, hr⟩ := Option.map_eq_some_iff.1 hopens
  obtain rfl := of_decide_eq_true hr
  have hname : makeShortName [0xe5] = some (0xe5 :: List.replicate 10 32) := by decide
  obtain ⟨e, off, hfind⟩ := (statOk_iff hname).1 (hall _ _ _ _ _ _ _ _
    wellFormed_demoStart.directory hname (by decide) hopen).stat
  exact not_names_of_head rfl (findRounds_found hfind)

end RadKernel.Fat
