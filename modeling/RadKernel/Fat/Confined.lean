import RadKernel.Fat.Target
import RadKernel.Fat.Chains

/-!
# What calls on one name change

Runs of calls on one name, on a volume whose root directory may have many clusters. `find_entry`
looks into all of them, but reports only the offset in a cluster, and `fat_open` takes it for one
in the first cluster.
-/

namespace RadKernel.Fat

open Kernel Prog Buffer Function

variable {g : FatContext} {d d' d₀ : Disk} {name path : List UInt8} {e e' : FatDirEntry}
  {j c flags : Nat} {h : Fin maxOpenFiles} {s t : FatState} {kept : Nat → Prop}
  {first first' : Nat → Nat}

/-! ## The chains of the name -/

/-- The chain from `c` on, if there is one, is its own owner. -/
def Owned (first : Nat → Nat) (c : Nat) : Prop := c = 0 ∨ first c = c

/-- Every handle is open on the entry of the name, and its chain and that of the entry are apart
from what is kept. Chains that were left behind may be among the owners. -/
structure Owns (g : FatContext) (name : List UInt8) (kept : Nat → Prop) (first : Nat → Nat)
    (s : FatState) : Prop where
  root : ∃ l, ChainOf g s.disk g.rootCluster l ∧ ∀ c ∈ l, kept c
  self : ∀ r, first r = 0 ∨ first r = r
  volume : Volume g kept s.disk first s.disk
  entry : ∀ j, FirstNamed g s.disk name g.rootCluster j →
    Owned first (rootSlot g s.disk j).firstCluster
  handle : ∀ h, (s.files h).used = true → Owned first (s.files h).firstCluster
  opened : ∀ h, (s.files h).used = true → (s.files h).dirCluster = g.rootCluster ∧
    ∃ j, Present g s.disk name j ∧ (s.files h).dirOffset = entrySize * j

/-- The name has its own chains after the call, and nothing else changed. -/
def Keeps (g : FatContext) (name : List UInt8) (kept : Nat → Prop) (s t : FatState) : Prop :=
  (∃ first, Owns g name kept first t) ∧ OnlyTarget g name kept s.disk t.disk

namespace Owns

variable (howns : Owns g name kept first s)
include howns

theorem kept_root : kept g.rootCluster := by
  obtain ⟨l, hl, hall⟩ := howns.root
  exact hall _ hl.head_mem

theorem keeps : Keeps g name kept s s := ⟨⟨first, howns⟩, OnlyTarget.refl _⟩

theorem rootChain (honly : OnlyTarget g name kept s.disk d) :
    ∃ l, ChainOf g d g.rootCluster l ∧ ∀ c ∈ l, kept c := by
  obtain ⟨l, hl, hall⟩ := howns.root
  exact ⟨l, hl.congr fun c hc => honly.link c (hall c hc), hall⟩

theorem lt_of_owned (hg : Layout g) (hc : Owned first c) : c < 2 ^ 32 := by
  rcases hc with rfl | hc
  · decide
  by_cases hzero : c = 0
  · omega
  obtain ⟨l, hl, hall⟩ := howns.volume.held.chain c (by rwa [hc])
  have hlt := (hall _ hl.head_mem).1.2
  have := hg.marks
  omega

/-- The open handles change. -/
theorem setFiles (hdisk : t.disk = s.disk)
    (hhandle : ∀ h, (t.files h).used = true → Owned first (t.files h).firstCluster)
    (hopened : ∀ h, (t.files h).used = true → (t.files h).dirCluster = g.rootCluster ∧
      ∃ j, Present g s.disk name j ∧ (t.files h).dirOffset = entrySize * j) :
    Owns g name kept first t := by
  rw [← hdisk] at hopened
  refine ⟨?_, howns.self, ?_, ?_, hhandle, hopened⟩
  all_goals rw [hdisk]
  · exact howns.root
  · exact howns.volume
  · exact howns.entry

/-- The chains of the name change, and then its entry is written. -/
theorem put (hg : Layout g) (hself : ∀ r, first' r = 0 ∨ first' r = r)
    (hvolume : Volume g kept s.disk first' d)
    (hhandle : ∀ h, (s.files h).used = true → Owned first' (s.files h).firstCluster)
    (ht : Target g s.disk name j) (hfits : Fits e name) (hfirst : Owned first' e.firstCluster) :
    Owns g name kept first' { s with disk := putEntry g d g.rootCluster (entrySize * j) e } ∧
      OnlyTarget g name kept s.disk (putEntry g d g.rootCluster (entrySize * j) e) ∧
      Present g (putEntry g d g.rootCluster (entrySize * j) e) name j := by
  have hroot := howns.kept_root
  have hrange : ∀ c, kept c → InRange g c := fun c => howns.volume.kept_inRange
  have hsame : ∀ i < slots g, rootSlot g d i = rootSlot g s.disk i :=
    fun i hi => slot_eq_of_data (hvolume.data _ hroot) hi
  have ht' : Target g d name j := ht.congr hsame
  have hpresent := ht'.present_put (hrange _ hroot) hfits
  have hleft : OnlyTarget g name kept s.disk d := .of_volume hroot hvolume
  have honly := hleft.trans (OnlyTarget.put hg hrange hroot ht' hfits)
  refine ⟨⟨howns.rootChain honly, hself, hvolume.rebase hg sameTable_putEntry, fun i hi => ?_,
    hhandle, fun h hused => ?_⟩, honly, hpresent⟩
  · obtain rfl := (show Target g _ name i from .inl hi).unique hpresent.target
    have hentry : SameEntry e (rootSlot g (putEntry g d g.rootCluster (entrySize * i) e) i) :=
      entryAt_putEntry_self
    rwa [hentry.firstCluster]
  · obtain ⟨hcluster, k, hk, hoffset⟩ := howns.opened h hused
    obtain rfl := hk.target.unique ht
    exact ⟨hcluster, k, hpresent, hoffset⟩

end Owns

/-! ## Calls on handles -/

theorem Owns.moved (howns : Owns g name kept first s) (position : Nat) :
    Keeps g name kept s (Fat.moved s h position) := by
  have hfile : ∀ k, ((Fat.moved s h position).files k).used = (s.files k).used ∧
      ((Fat.moved s h position).files k).firstCluster = (s.files k).firstCluster ∧
      ((Fat.moved s h position).files k).dirCluster = (s.files k).dirCluster ∧
      ((Fat.moved s h position).files k).dirOffset = (s.files k).dirOffset := by
    intro k
    by_cases hk : k = h
    · subst hk
      rw [moved_files_self]
      exact ⟨rfl, rfl, rfl, rfl⟩
    · rw [moved_files_of_ne hk]
      exact ⟨rfl, rfl, rfl, rfl⟩
  refine ⟨⟨first, howns.setFiles rfl (fun k hk => ?_) fun k hk => ?_⟩, OnlyTarget.refl _⟩
  · obtain ⟨hused, hfirst, -⟩ := hfile k
    rw [hused] at hk
    rw [hfirst]
    exact howns.handle k hk
  · obtain ⟨hused, -, hcluster, hoffset⟩ := hfile k
    rw [hused] at hk
    rw [hcluster, hoffset]
    exact howns.opened k hk

theorem owned_started {x : Nat} (hself : ∀ r, first r = 0 ∨ first r = r) (hx : x ≠ 0)
    (hv : Volume g kept d₀ (update first 0 x) d) : Volume g kept d₀ (update first x x) d := by
  have hzero : first 0 = 0 := by simpa using hself 0
  refine hv.reindex (fun k => if k = x then 0 else k) (fun k hk => ?_) fun k k' hk hk' heq => ?_
  · by_cases hkx : k = x
    · rw [if_pos hkx, hkx, update_self, update_self]
    · rw [update_of_ne hkx] at hk ⊢
      have hk0 : k ≠ 0 := by
        rintro rfl
        exact hk hzero
      rw [if_neg hkx, update_of_ne hk0]
  · have hnone : update first x x 0 = 0 := by
      rw [update_of_ne (Ne.symm hx), hzero]
    grind

theorem Owns.write (hg : Layout g) (howns : Owns g name kept first s) {bytes : List UInt8}
    {r : Except Status Nat} (hrun : fatWrite g h bytes s = some (r, t)) : Keeps g name kept s t := by
  by_cases hused : (s.files h).used = true
  case neg =>
    rw [fatWrite_unused hused] at hrun
    cases hrun
    exact howns.keeps
  have hroot := howns.kept_root
  -- the owner of the chain of the handle, 0 when it has none
  have howner : first (s.files h).firstCluster = (s.files h).firstCluster := by
    rcases howns.handle h hused with hzero | hfirst
    · rw [hzero]
      simpa using howns.self 0
    · exact hfirst
  have hstart : Writing g kept s.disk first (s.files h).firstCluster s.files h s := by
    refine ⟨fun _ _ => rfl, SameHandle.refl _, fun _ => howner.symm, ?_⟩
    rw [Function.update_eq_self_iff.2 howner.symm]
    exact howns.volume
  have hend : Writing g kept s.disk first (s.files h).firstCluster s.files h t := by
    cases r with
    | ok n => exact (fatWrite_writing hg).ok hstart hrun
    | error e => exact (fatWrite_writing hg).error hstart hrun
  have honly : OnlyTarget g name kept s.disk t.disk := .of_volume hroot hend.volume
  have hsame : ∀ i < slots g, rootSlot g t.disk i = rootSlot g s.disk i :=
    fun i hi => slot_eq_of_data (hend.volume.data _ hroot) hi
  -- the owners after the call
  have hafter : ∃ first', (∀ r, first' r = 0 ∨ first' r = r) ∧ Volume g kept s.disk first' t.disk ∧
      (∀ c, Owned first c → Owned first' c) ∧ Owned first' (t.files h).firstCluster := by
    by_cases hnone : (s.files h).firstCluster = 0
    · by_cases hstill : (t.files h).firstCluster = 0
      · refine ⟨first, howns.self, ?_, fun _ => id, .inl hstill⟩
        have hvolume := hend.volume
        rw [hstill, hnone, Function.update_eq_self_iff.2 (by simpa [eq_comm] using howns.self 0)] at hvolume
        exact hvolume
      · have hvolume := hend.volume
        rw [hnone] at hvolume
        refine ⟨_, fun r => ?_, owned_started howns.self hstill hvolume, fun c hc => ?_,
          .inr (update_self ..)⟩
        · have := howns.self r
          grind
        · unfold Owned at hc ⊢
          grind
    · have hkept : (t.files h).firstCluster = (s.files h).firstCluster :=
        (hend.started (by rwa [howner])).trans howner
      refine ⟨first, howns.self, ?_, fun _ => id, ?_⟩
      · have hvolume := hend.volume
        rw [hkept, Function.update_eq_self_iff.2 howner.symm] at hvolume
        exact hvolume
      · rw [hkept]
        exact .inr howner
  obtain ⟨first', hself, hvolume, howned, hhandle⟩ := hafter
  refine ⟨⟨first', howns.rootChain honly, hself, hvolume.rebase hg fun _ _ => rfl, fun j hj => ?_,
    fun k hk => ?_, fun k hk => ?_⟩, honly⟩
  · have hj' := hj.congr fun i hi => (hsame i hi).symm
    rw [hsame j hj.lt]
    exact howned _ (howns.entry j hj')
  · by_cases hkh : k = h
    · subst hkh
      exact hhandle
    · rw [hend.others k hkh] at hk ⊢
      exact howned _ (howns.handle k hk)
  · have hhandle : SameHandle (s.files k) (t.files k) := by
      by_cases hkh : k = h
      · subst hkh
        exact hend.same
      · rw [hend.others k hkh]
        exact SameHandle.refl _
    rw [hhandle.used] at hk
    obtain ⟨hcluster, j, hj, hoffset⟩ := howns.opened k hk
    exact ⟨hhandle.dirCluster.trans hcluster, j, hj.congr hsame, hhandle.dirOffset.trans hoffset⟩

theorem Owns.close (hg : Layout g) (howns : Owns g name kept first s) {r : Except Status Unit}
    (hrun : fatClose g h s = some (r, t)) : Keeps g name kept s t := by
  by_cases hused : (s.files h).used = true
  case neg =>
    rw [fatClose_unused hused] at hrun
    cases hrun
    exact howns.keeps
  obtain ⟨hcluster, j, hj, hoffset⟩ := howns.opened h hused
  have hroot := howns.volume.kept_inRange howns.kept_root
  have ht := congrArg Prod.snd (Option.some.inj (hrun.symm.trans
    (fatClose_eq hg hroot hused hcluster hj.target.lt hoffset)))
  dsimp only at ht
  have howned := howns.handle h hused
  obtain ⟨hput, honly, -⟩ := howns.put hg howns.self howns.volume howns.handle hj.target
    (hj.fits.setFields (s.files h).size (s.files h).firstCluster)
    (by rwa [firstCluster_setFirstCluster (howns.lt_of_owned hg howned)])
  have hother : ∀ k, (t.files k).used = true → t.files k = s.files k ∧ (s.files k).used = true := by
    intro k hk
    by_cases hkh : k = h
    · subst hkh
      rw [ht] at hk
      dsimp only at hk
      rw [update_self] at hk
      cases hk
    · have hsame : t.files k = s.files k := by
        rw [ht]
        exact update_of_ne hkh ..
      exact ⟨hsame, hsame ▸ hk⟩
  refine ⟨⟨first, hput.setFiles (by rw [ht]; rfl) (fun k hk => ?_) fun k hk => ?_⟩, by rwa [ht]⟩
  · obtain ⟨hsame, hk⟩ := hother k hk
    rw [hsame]
    exact hput.handle k hk
  · obtain ⟨hsame, hk⟩ := hother k hk
    rw [hsame]
    exact hput.opened k hk

/-! ## Opening -/

/-- The entry with the name, or the free entry that it gets when there is none, is in the first
cluster of the root directory. -/
def Located (g : FatContext) (d : Disk) (name : List UInt8) (flags : Nat) : Prop :=
  ∀ l, ChainOf g d g.rootCluster l →
    (∀ c j, FirstMatch g d name l c j → (slot g d c j).attr &&& attrDirectory = 0 →
      c = g.rootCluster) ∧
    (flags &&& vfsCreate ≠ 0 → (∀ c j, ¬FirstMatch g d name l c j) →
      ∀ c j, FirstSpace g d name l c j → c = g.rootCluster)

/-- The file is truncated, and a handle has its chain. -/
def TruncatesHeld (g : FatContext) (s : FatState) (name : List UInt8) (flags : Nat) : Prop :=
  flags &&& vfsTruncate ≠ 0 ∧ flags &&& vfsWrite ≠ 0 ∧
    ∃ j h, FirstNamed g s.disk name g.rootCluster j ∧
      (rootSlot g s.disk j).attr &&& attrDirectory = 0 ∧ (rootSlot g s.disk j).firstCluster ≠ 0 ∧
      (s.files h).used = true ∧ (s.files h).firstCluster = (rootSlot g s.disk j).firstCluster

/-- The entry that was found or made. -/
structure Given (g : FatContext) (d : Disk) (name : List UInt8) (first : Nat → Nat)
    (e : FatDirEntry) (offset j : Nat) : Prop where
  offset : offset = entrySize * j
  present : Present g d name j
  same : SameEntry e (rootSlot g d j)
  owned : Owned first e.firstCluster

theorem Owns.findOrCreate (hg : Layout g) (howns : Owns g name kept first s)
    (hname : makeShortName path = some name) (hlocated : Located g s.disk name flags) :
    ∃ r d', findOrCreate g name flags s.disk = some (r, d') ∧
      Owns g name kept first { s with disk := d' } ∧ OnlyTarget g name kept s.disk d' ∧
      ∀ e off, r = .ok (e, off) → e.attr &&& attrDirectory = 0 →
        ∃ j, Given g d' name first e off j ∧ (e.firstCluster ≠ 0 →
          FirstNamed g s.disk name g.rootCluster j ∧ e = rootSlot g s.disk j) := by
  obtain ⟨l, hl, hall⟩ := howns.root
  have hroot := howns.volume.kept_inRange howns.kept_root
  obtain ⟨hmatched, hspaced⟩ := hlocated l hl
  obtain ⟨found, hfind, hfound⟩ := findEntry_cases hg hl
    (fun c hc => howns.volume.kept_inRange (hall c hc)) name
  have hsame : Owns g name kept first { s with disk := s.disk } := howns
  simp only [Fat.findOrCreate, bind_apply, Prog.query, hfind, Option.map_some]
  cases found with
  | entry e off =>
    refine ⟨_, _, rfl, hsame, OnlyTarget.refl _, ?_⟩
    rintro e' off' heq hfile
    cases heq
    obtain ⟨c, j, hmatch, rfl, rfl⟩ := hfound
    obtain rfl := hmatched c j hmatch hfile
    have hfirst := hmatch.firstNamed
    exact ⟨j, ⟨rfl, .inl hfirst, SameEntry.refl _, howns.entry j hfirst⟩, fun _ => ⟨hfirst, rfl⟩⟩
  | missing free =>
    obtain ⟨hnone, free', hfree, hspace⟩ := hfound
    cases free with
    | none =>
      refine ⟨_, _, rfl, hsame, OnlyTarget.refl _, ?_⟩
      rintro e off heq
      cases heq
    | some off =>
      by_cases hcreate : flags &&& vfsCreate = 0
      · simp only [if_pos hcreate]
        refine ⟨_, _, rfl, hsame, OnlyTarget.refl _, ?_⟩
        rintro e off heq
        cases heq
      obtain ⟨c, j, hspace, rfl⟩ := hspace off hfree.symm
      obtain rfl := hspaced hcreate hnone c j hspace
      have hcluster := firstCluster_newEntry (makeShortName_some hname).1
      have ht : Target g s.disk name j := by
        refine .inr ⟨hspace.firstFree, fun i hi => ?_⟩
        cases hl with
        | last => exact hnone _ _ (.here hi)
        | link => exact hnone _ _ (.here hi)
      obtain ⟨hput, honly, hpresent⟩ := howns.put hg howns.self howns.volume howns.handle ht
        (newEntry_fits hname) (.inl hcluster)
      simp only [if_neg hcreate, bind_apply, writeDirEntry_eq hg hroot ht.lt, pure_apply]
      refine ⟨_, _, rfl, hput, honly, ?_⟩
      rintro e off heq -
      cases heq
      exact ⟨j, ⟨rfl, hpresent, entryAt_putEntry_self, .inl hcluster⟩, fun hne => absurd hcluster hne⟩

theorem Owns.truncateEntry (hg : Layout g) (howns : Owns g name kept first s) {offset : Nat}
    (hgiven : Given g s.disk name first e offset j)
    (hheld : flags &&& vfsTruncate ≠ 0 → flags &&& vfsWrite ≠ 0 → e.firstCluster ≠ 0 →
      ∀ h, (s.files h).used = true → (s.files h).firstCluster ≠ e.firstCluster) :
    ∃ first' e' d', truncateEntry g e offset flags s.disk = some (.ok e', d') ∧
      Owns g name kept first' { s with disk := d' } ∧ OnlyTarget g name kept s.disk d' ∧
      Given g d' name first' e' offset j := by
  obtain ⟨rfl, hpresent, hsame, howned⟩ := hgiven
  by_cases htruncate : flags &&& vfsTruncate ≠ 0 ∧ flags &&& vfsWrite ≠ 0
  case neg =>
    refine ⟨first, e, s.disk, ?_, howns, OnlyTarget.refl _, rfl, hpresent, hsame, howned⟩
    exact truncateEntry_keep htruncate
  have hroot := howns.volume.kept_inRange howns.kept_root
  set e' := (e.setSize 0).setFirstCluster 0 with he'
  have hcluster' : e'.firstCluster = 0 := firstCluster_setFirstCluster (by decide)
  have hfits : Fits e' name := (hsame.symm.fits hpresent.fits).setFields 0 0
  by_cases hcluster : e.firstCluster = 0
  · obtain ⟨hput, honly, hpresent'⟩ := howns.put hg howns.self howns.volume howns.handle
      hpresent.target hfits (.inl hcluster')
    refine ⟨first, e', _, ?_, hput, honly, rfl, hpresent', entryAt_putEntry_self, .inl hcluster'⟩
    exact truncateEntry_empty hg hroot hpresent.target.lt htruncate hcluster
  · have hfirst : first e.firstCluster = e.firstCluster := howned.resolve_left hcluster
    obtain ⟨l, hl, hall⟩ := howns.volume.held.chain e.firstCluster (by rwa [hfirst])
    obtain ⟨d', hfree, hvolume⟩ := freeRounds_volume hg howns.volume (by rwa [hfirst]) hl
      (length_le_maxRounds hg hl fun c hc => (hall c hc).1)
    rw [hfirst] at hfree
    -- the chain that was freed has no owner any more
    have hself : ∀ r, update first e.firstCluster 0 r = 0 ∨
        update first e.firstCluster 0 r = r := by
      intro r
      have := howns.self r
      grind
    have hhandle : ∀ k, (s.files k).used = true →
        Owned (update first e.firstCluster 0) (s.files k).firstCluster := by
      intro k hk
      have howned := howns.handle k hk
      unfold Owned at howned ⊢
      rwa [update_of_ne (hheld htruncate.1 htruncate.2 hcluster k hk)]
    obtain ⟨hput, honly, hpresent'⟩ := howns.put hg hself hvolume hhandle hpresent.target hfits
      (.inl hcluster')
    refine ⟨_, e', _, ?_, hput, honly, rfl, hpresent', entryAt_putEntry_self, .inl hcluster'⟩
    exact truncateEntry_freed hg hroot hpresent.target.lt htruncate hcluster hfree

/-- The entry that `fat_open` takes is in the first cluster, and no chain is freed that a handle
has. -/
def SafeOpen (g : FatContext) (s : FatState) (name : List UInt8) (flags : Nat) : Prop :=
  Located g s.disk name flags ∧ ¬TruncatesHeld g s name flags

section
variable (hg : Layout g) (howns : Owns g name kept first s) (hname : makeShortName path = some name)
  (hsafe : SafeOpen g s name flags)
include hg howns hname hsafe

theorem Owns.openEntry :
    ∃ first' r d', openEntry g name flags s.disk = some (r, d') ∧
      Owns g name kept first' { s with disk := d' } ∧ OnlyTarget g name kept s.disk d' ∧
      ∀ e off, r = .ok (e, off) → ∃ j, Given g d' name first' e off j := by
  obtain ⟨hlocated, hheld⟩ := hsafe
  obtain ⟨r, d₁, hrun, howns₁, honly₁, hgiven⟩ := howns.findOrCreate hg hname hlocated
  rw [Fat.openEntry, bind_apply, hrun]
  cases r with
  | error e =>
    refine ⟨first, _, _, rfl, howns₁, honly₁, ?_⟩
    rintro e off heq
    cases heq
  | ok found =>
    obtain ⟨e, off⟩ := found
    dsimp only
    by_cases hdirectory : e.attr &&& attrDirectory ≠ 0
    · rw [if_pos hdirectory]
      refine ⟨first, _, _, rfl, howns₁, honly₁, ?_⟩
      rintro e off heq
      cases heq
    rw [if_neg hdirectory]
    have hfile : e.attr &&& attrDirectory = 0 := by simpa using hdirectory
    obtain ⟨j, hj, hsource⟩ := hgiven e off rfl hfile
    obtain ⟨first', e', d', htruncate, howns', honly', hgiven'⟩ := howns₁.truncateEntry hg hj
      fun htr hwr hcluster k hk heq => by
        obtain ⟨hfirst, rfl⟩ := hsource hcluster
        exact hheld ⟨htr, hwr, j, k, hfirst, hfile, hcluster, hk, heq⟩
    rw [bind_apply, htruncate]
    refine ⟨first', _, _, rfl, howns', honly₁.trans honly', ?_⟩
    rintro e'' off'' heq
    cases heq
    exact ⟨j, hgiven'⟩

theorem Owns.open : ∃ r t, fatOpen g path flags s = some (r, t) ∧ Keeps g name kept s t := by
  obtain ⟨first', r, d', hrun, howns', honly, hgiven⟩ := howns.openEntry hg hname hsafe
  have hdisk : withDisk (Fat.openEntry g name flags) s = some (r, { s with disk := d' }) := by
    rw [withDisk, Prog.focus, hrun]
    rfl
  rw [fatOpen, hname]
  dsimp only
  rw [bind_apply, hdisk]
  cases r with
  | error e => exact ⟨_, _, rfl, ⟨first', howns'⟩, honly⟩
  | ok found =>
    obtain ⟨e, off⟩ := found
    obtain ⟨j, hj⟩ := hgiven e off rfl
    simp only [bind_apply, read_apply]
    cases hfree : freeFile { s with disk := d' } with
    | none => exact ⟨_, _, rfl, ⟨first', howns'⟩, honly⟩
    | some h =>
      refine ⟨_, _, rfl, ⟨first', howns'.setFiles rfl (fun k hk => ?_) fun k hk => ?_⟩, honly⟩
      · by_cases hkh : k = h
        · subst hkh
          dsimp only
          rw [update_self]
          exact hj.owned
        · dsimp only at hk ⊢
          rw [update_of_ne hkh] at hk ⊢
          exact howns'.handle k hk
      · by_cases hkh : k = h
        · subst hkh
          dsimp only
          rw [update_self]
          exact ⟨rfl, j, hj.present, hj.offset⟩
        · dsimp only at hk ⊢
          rw [update_of_ne hkh] at hk ⊢
          exact howns'.opened k hk

end

end RadKernel.Fat
