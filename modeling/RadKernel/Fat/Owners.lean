import RadKernel.Fat.Directory
import RadKernel.Fat.Files

/-!
# Who holds a chain

The first cluster of a file is in its directory entry, and in its handle while it is open: opening
a file moves the chain from the entry to the handle, and closing moves it back. The root directory
has one cluster.
-/

namespace RadKernel.Fat

open Kernel Prog Function

variable {g : FatContext} {d d' d₀ : Disk} {ι κ : Type} {first : ι → Nat} {kept : Nat → Prop}
  {h : Fin maxOpenFiles} {s t : FatState} {j : Nat}

/-! ## Holders -/

/-- What keeps the first cluster of a file: an entry of the root directory or an open handle. -/
inductive Holder where
  | entry (j : Nat)
  | handle (h : Fin maxOpenFiles)
  deriving DecidableEq, Repr

/-- The entry of the root directory. -/
abbrev rootSlot (g : FatContext) (d : Disk) (j : Nat) : FatDirEntry := slot g d g.rootCluster j

/-- A handle is open on the entry. -/
def Opened (files : Fin maxOpenFiles → FatFile) (j : Nat) : Prop :=
  ∃ h, (files h).used = true ∧ (files h).dirOffset = entrySize * j

instance (files : Fin maxOpenFiles → FatFile) (j : Nat) : Decidable (Opened files j) :=
  inferInstanceAs (Decidable (∃ _, _))

/-- The entry is that of a closed file. -/
def Closed (g : FatContext) (s : FatState) (j : Nat) : Prop :=
  j < slots g ∧ Live (rootSlot g s.disk j) ∧ ¬Opened s.files j

instance (g : FatContext) (s : FatState) (j : Nat) : Decidable (Closed g s j) :=
  inferInstanceAs (Decidable (_ ∧ _ ∧ _))

/-- The first cluster of a closed file or of an open handle, 0 for none. -/
def holds (g : FatContext) (s : FatState) : Holder → Nat
  | .entry j => if Closed g s j then (rootSlot g s.disk j).firstCluster else 0
  | .handle h => if (s.files h).used then (s.files h).firstCluster else 0

/-- At most one handle is open on an entry. -/
def AtMostOne (s : FatState) : Prop :=
  ∀ h k, (s.files h).used = true → (s.files k).used = true →
    (s.files h).dirOffset = (s.files k).dirOffset → h = k

/-- The root directory has one cluster and ends at its first unused entry, and every chain is that
of one holder. -/
structure Good (g : FatContext) (s : FatState) : Prop where
  volume : Volume g (· = g.rootCluster) s.disk (holds g s) s.disk
  rootEnd : isEoc (links g s.disk g.rootCluster) = true
  dirEnd : ∀ i j, i < j → j < slots g → rootSlot g s.disk i 0 = 0 → rootSlot g s.disk j 0 = 0
  handles : ∀ h, (s.files h).used = true → (s.files h).dirCluster = g.rootCluster ∧
    ∃ j < slots g, (s.files h).dirOffset = entrySize * j
  once : AtMostOne s

/-! ## Chains change hands -/

theorem Volume.reindex (hv : Volume g kept d₀ first d) {first' : κ → Nat} (f : κ → ι)
    (hfirst : ∀ k, first' k ≠ 0 → first' k = first (f k))
    (hinj : ∀ k k', first' k ≠ 0 → first' k' ≠ 0 → f k = f k' → k = k') :
    Volume g kept d₀ first' d :=
  ⟨hv.copies, hv.held.reindex f hfirst hinj, hv.link, hv.data⟩

/-- Everything below the data and all links are the same. -/
theorem Volume.rebase (hg : Layout g) (hv : Volume g kept d₀ first d) (hd : SameTable g d d') :
    Volume g kept d' first d' := by
  refine ⟨hd.copiesEqual hg hv.copies, ?_, fun _ _ => rfl, fun _ _ _ _ => rfl⟩
  rw [hd.links hg]
  exact hv.held

theorem slot_eq_of_data (h : ∀ x, InCluster g g.rootCluster x → d' x = d x) (hj : j < slots g) :
    rootSlot g d' j = rootSlot g d j := by
  funext i
  rw [rootSlot, rootSlot, slot, slot, entryAt, entryAt, h _ (slot_inCluster hj _)]

variable {i : Nat} {e : FatDirEntry}

theorem entryOffset_inj (h : entrySize * i = entrySize * j) : i = j :=
  Nat.eq_of_mul_eq_mul_left (by decide) h

theorem holds_entry_congr (hslot : j < slots g → SameEntry (rootSlot g s.disk j) (rootSlot g t.disk j))
    (hopened : Opened t.files j ↔ Opened s.files j) :
    holds g t (.entry j) = holds g s (.entry j) := by
  by_cases hj : j < slots g
  · have hsame := hslot hj
    have hclosed : Closed g t j ↔ Closed g s j := by rw [Closed, Closed, hsame.live, hopened]
    simp only [holds, hclosed, hsame.firstCluster]
  · have hs : ¬Closed g s j := fun h => hj h.1
    have ht : ¬Closed g t j := fun h => hj h.1
    simp only [holds, if_neg hs, if_neg ht]

theorem holds_closed (hclosed : Closed g s j) :
    holds g s (.entry j) = (rootSlot g s.disk j).firstCluster := if_pos hclosed

theorem holds_used (hused : (s.files h).used = true) :
    holds g s (.handle h) = (s.files h).firstCluster := if_pos hused

theorem closed_of_holds (hne : holds g s (.entry j) ≠ 0) : Closed g s j := by
  by_contra hclosed
  exact hne (if_neg hclosed)

theorem used_of_holds (hne : holds g s (.handle h) ≠ 0) : (s.files h).used = true := by
  by_contra hused
  exact hne (if_neg hused)

namespace Good

variable (hgood : Good g s)
include hgood

theorem root_inRange : InRange g g.rootCluster := hgood.volume.kept_inRange rfl

/-- The first cluster of an open handle fits into an entry. -/
theorem firstCluster_lt (hg : Layout g) (hused : (s.files h).used = true) :
    (s.files h).firstCluster < 2 ^ 32 := by
  by_cases hzero : (s.files h).firstCluster = 0
  · omega
  have hne : holds g s (.handle h) ≠ 0 := by rwa [holds_used hused]
  obtain ⟨l, hl, hall⟩ := hgood.volume.held.chain _ hne
  obtain ⟨⟨-, hlt⟩, -⟩ := hall _ hl.head_mem
  have := hg.marks
  rw [holds_used hused] at hlt
  omega

/-- The open handles are the same but for their chains and positions, and the root directory is the
same. -/
theorem sameHandles (hhandles : ∀ k, SameHandle (s.files k) (t.files k))
    (hvolume : Volume g (· = g.rootCluster) s.disk (holds g t) t.disk) : Good g t := by
  have hslot : ∀ j < slots g, rootSlot g t.disk j = rootSlot g s.disk j :=
    fun j hj => slot_eq_of_data (hvolume.data _ rfl) hj
  refine ⟨⟨hvolume.copies, hvolume.held, fun _ _ => rfl, fun _ _ _ _ => rfl⟩, ?_, ?_, ?_, ?_⟩
  · rw [hvolume.link _ rfl]
    exact hgood.rootEnd
  · intro i j hij hj hi
    rw [hslot i (by omega)] at hi
    rw [hslot j hj]
    exact hgood.dirEnd i j hij hj hi
  · intro k hk
    rw [(hhandles k).used] at hk
    rw [(hhandles k).dirCluster, (hhandles k).dirOffset]
    exact hgood.handles k hk
  · intro k k' hk hk' hoff
    rw [(hhandles k).used] at hk
    rw [(hhandles k').used] at hk'
    rw [(hhandles k).dirOffset, (hhandles k').dirOffset] at hoff
    exact hgood.once k k' hk hk' hoff

end Good

theorem opened_congr (hhandles : ∀ k, SameHandle (s.files k) (t.files k)) :
    Opened t.files j ↔ Opened s.files j := by
  unfold Opened
  simp only [(hhandles _).used, (hhandles _).dirOffset]

/-! ## Calls on a handle -/

theorem Good.moved (hgood : Good g s) (position : Nat) : Good g (moved s h position) := by
  have hhandles : ∀ k, SameHandle (s.files k) ((Fat.moved s h position).files k) ∧
      ((Fat.moved s h position).files k).firstCluster = (s.files k).firstCluster := by
    intro k
    by_cases hk : k = h
    · subst hk
      rw [moved_files_self]
      exact ⟨⟨rfl, rfl, rfl, rfl⟩, rfl⟩
    · rw [moved_files_of_ne hk]
      exact ⟨SameHandle.refl _, rfl⟩
  have hholds : holds g (Fat.moved s h position) = holds g s := by
    funext o
    cases o with
    | entry j =>
      exact holds_entry_congr (fun _ => SameEntry.refl _) (opened_congr fun k => (hhandles k).1)
    | handle k => simp only [holds, (hhandles k).1.used, (hhandles k).2]
  refine hgood.sameHandles (fun k => (hhandles k).1) ?_
  rw [hholds]
  exact hgood.volume

variable {bytes : List UInt8}

theorem fatWrite_unused (hused : ¬(s.files h).used = true) :
    fatWrite g h bytes s = some (.error .invalidArgument, s) := by
  have hfalse : (s.files h).used = false := by simpa using hused
  simp [fatWrite, bind_apply, hfalse]

theorem Good.write (hg : Layout g) (hgood : Good g s)
    {r : Except Status Nat} (hrun : fatWrite g h bytes s = some (r, t)) : Good g t := by
  by_cases hused : (s.files h).used = true
  case neg =>
    rw [fatWrite_unused hused] at hrun
    cases hrun
    exact hgood
  have hstart : Writing g (· = g.rootCluster) s.disk (holds g s) (.handle h) s.files h s := by
    refine ⟨fun _ _ => rfl, SameHandle.refl _, fun _ => (holds_used hused).symm, ?_⟩
    rw [← holds_used hused, update_eq_self]
    exact hgood.volume
  have hend : Writing g (· = g.rootCluster) s.disk (holds g s) (.handle h) s.files h t := by
    cases r with
    | ok n => exact (fatWrite_writing hg).ok hstart hrun
    | error e => exact (fatWrite_writing hg).error hstart hrun
  have hhandles : ∀ k, SameHandle (s.files k) (t.files k) := by
    intro k
    by_cases hk : k = h
    · subst hk
      exact hend.same
    · rw [hend.others k hk]
      exact SameHandle.refl _
  have hholds : holds g t = update (holds g s) (.handle h) (t.files h).firstCluster := by
    funext o
    cases o with
    | entry j =>
      refine holds_entry_congr (fun hj => ?_) (opened_congr hhandles)
      rw [slot_eq_of_data (hend.volume.data _ rfl) hj]
      exact SameEntry.refl _
    | handle k =>
      by_cases hk : k = h
      · subst hk
        have hused' : (t.files k).used = true := by rwa [hend.same.used]
        rw [update_self, holds_used hused']
      · rw [update_of_ne (by simpa using hk)]
        simp only [holds, hend.others k hk]
  refine hgood.sameHandles hhandles ?_
  rw [hholds]
  exact hend.volume

/-! ## Closing and opening -/

/-- After a change to the chains an entry is written, and then the chains are in other hands. -/
theorem Good.putEntry (hg : Layout g) (hgood : Good g s) {first : Holder → Nat}
    (hvolume : Volume g (· = g.rootCluster) s.disk first d) (hj : j < slots g)
    (hdisk : t.disk = putEntry g d g.rootCluster (entrySize * j) e)
    (hzero : ∀ i, i < j → e 0 ≠ 0 → rootSlot g s.disk i 0 ≠ 0)
    (hend : e 0 = 0 → rootSlot g s.disk j 0 = 0) (f : Holder → Holder)
    (hfirst : ∀ o, holds g t o ≠ 0 → holds g t o = first (f o))
    (hinj : ∀ o o', holds g t o ≠ 0 → holds g t o' ≠ 0 → f o = f o' → o = o')
    (hhandles : ∀ h, (t.files h).used = true → (t.files h).dirCluster = g.rootCluster ∧
      ∃ j < slots g, (t.files h).dirOffset = entrySize * j)
    (honce : AtMostOne t) : Good g t := by
  have hroot := hgood.root_inRange
  have htable : SameTable g d t.disk := hdisk ▸ sameTable_putEntry
  have hself : rootSlot g t.disk j 0 = e 0 := by
    rw [hdisk]
    exact entryAt_putEntry_self 0 (by decide)
  have hother : ∀ i < slots g, i ≠ j → rootSlot g t.disk i 0 = rootSlot g s.disk i 0 := by
    intro i hi hij
    rw [hdisk, ← slot_eq_of_data (hvolume.data _ rfl) hi]
    exact entryAt_putEntry_other hroot hroot hj hi (.inr hij) 0 (by decide)
  refine ⟨(hvolume.rebase hg htable).reindex f hfirst hinj, ?_, ?_, hhandles, honce⟩
  · rw [htable.links hg, hvolume.link _ rfl]
    exact hgood.rootEnd
  · intro i k hik hk hi
    by_cases hij : i = j
    · subst hij
      rw [hself] at hi
      rw [hother k hk (by omega)]
      exact hgood.dirEnd i k hik hk (hend hi)
    rw [hother i (by omega) hij] at hi
    by_cases hkj : k = j
    · subst hkj
      rw [hself]
      by_contra hne
      exact hzero i hik hne hi
    · rw [hother k hk hkj]
      exact hgood.dirEnd i k hik hk hi

theorem holds_putEntry_other (hgood : Good g s) {first : Holder → Nat}
    (hvolume : Volume g (· = g.rootCluster) s.disk first d) (hj : j < slots g)
    (hij : i ≠ j) (hdisk : t.disk = Fat.putEntry g d g.rootCluster (entrySize * j) e)
    (hopened : Opened t.files i ↔ Opened s.files i) :
    holds g t (.entry i) = holds g s (.entry i) := by
  refine holds_entry_congr (fun hi => ?_) hopened
  rw [hdisk, ← slot_eq_of_data (hvolume.data _ rfl) hi]
  exact entryAt_putEntry_other hgood.root_inRange hgood.root_inRange hj hi (.inr hij)

/-- The entry as `fat_close` writes it back. -/
def writtenBack (file : FatFile) (e : FatDirEntry) : FatDirEntry :=
  (e.setSize file.size).setFirstCluster file.firstCluster

theorem fatClose_eq (hg : Layout g) (hroot : InRange g g.rootCluster)
    (hused : (s.files h).used = true) (hcluster : (s.files h).dirCluster = g.rootCluster)
    (hj : j < slots g) (hoffset : (s.files h).dirOffset = entrySize * j) :
    fatClose g h s = some (.ok (), {
      disk := putEntry g s.disk g.rootCluster (entrySize * j)
        (writtenBack (s.files h) (rootSlot g s.disk j))
      files := update s.files h {} }) := by
  have hread := readDirEntry_eq (d := s.disk) hg hroot hj
  have hwrite := writeDirEntry_eq (d := s.disk)
    (e := writtenBack (s.files h) (rootSlot g s.disk j)) hg hroot hj
  have hnot : ¬(s.files h).used = false := by simp [hused]
  simp only [fatClose, bind_apply, read_apply, if_neg hnot, withDisk, Prog.focus, Prog.query, hcluster,
    hoffset, hread, Option.map_some]
  rw [writtenBack, rootSlot, slot] at hwrite
  simp only [hwrite, Option.map_some]
  rfl

theorem fatClose_unused (hused : ¬(s.files h).used = true) : fatClose g h s = some (.ok (), s) := by
  have hfalse : (s.files h).used = false := by simpa using hused
  simp only [fatClose, bind_apply, read_apply, if_pos hfalse, pure_apply]

theorem Good.close (hg : Layout g) (hgood : Good g s) {r : Except Status Unit}
    (hrun : fatClose g h s = some (r, t)) : Good g t := by
  by_cases hused : (s.files h).used = true
  case neg =>
    rw [fatClose_unused hused] at hrun
    cases hrun
    exact hgood
  obtain ⟨hcluster, j, hj, hoffset⟩ := hgood.handles h hused
  have ht := congrArg Prod.snd (Option.some.inj (hrun.symm.trans
    (fatClose_eq hg hgood.root_inRange hused hcluster hj hoffset)))
  have hdisk := congrArg FatState.disk ht
  have hfiles := congrArg FatState.files ht
  dsimp only at hdisk hfiles
  have hself : (t.files h).used = false := by rw [hfiles, update_self]
  have hother : ∀ k, k ≠ h → t.files k = s.files k := by
    intro k hk
    rw [hfiles, update_of_ne hk]
  have hopen : ∀ k, (t.files k).used = true → k ≠ h ∧ (s.files k).used = true := by
    intro k hk
    have hkh : k ≠ h := by
      rintro rfl
      rw [hself] at hk
      cases hk
    rw [hother k hkh] at hk
    exact ⟨hkh, hk⟩
  have hlow : ∀ i < 20, writtenBack (s.files h) (rootSlot g s.disk j) i = rootSlot g s.disk j i :=
    fun i hi => setFields_low hi
  have hopened : ∀ i ≠ j, (Opened t.files i ↔ Opened s.files i) := by
    intro i hij
    constructor
    · rintro ⟨k, hk, hoff⟩
      obtain ⟨hkh, hk'⟩ := hopen k hk
      exact ⟨k, hk', by rwa [← hother k hkh]⟩
    · rintro ⟨k, hk, hoff⟩
      have hkh : k ≠ h := by
        rintro rfl
        exact hij (entryOffset_inj (hoff.symm.trans hoffset))
      exact ⟨k, by rwa [hother k hkh], by rwa [hother k hkh]⟩
  have hentry : holds g t (.entry j) ≠ 0 → holds g t (.entry j) = holds g s (.handle h) := by
    intro hne
    have hsame : SameEntry _ (rootSlot g t.disk j) := hdisk ▸ entryAt_putEntry_self
    rw [holds_closed (closed_of_holds hne), holds_used hused, hsame.firstCluster]
    exact firstCluster_setFirstCluster (hgood.firstCluster_lt hg hused)
  have hhandle : ∀ k, holds g t (.handle k) ≠ 0 → k ≠ h ∧
      holds g t (.handle k) = holds g s (.handle k) := by
    intro k hne
    obtain ⟨hkh, -⟩ := hopen k (used_of_holds hne)
    exact ⟨hkh, by simp only [holds, hother k hkh]⟩
  -- the handle gives its chain to the entry
  refine hgood.putEntry hg hgood.volume hj hdisk ?_ ?_ (fun o => if o = .entry j then .handle h else o) ?_ ?_ ?_ ?_
  · intro i hij hne hzero
    exact hne (hgood.dirEnd i j hij hj hzero)
  · intro hzero
    rwa [hlow 0 (by decide)] at hzero
  · intro o hne
    cases o with
    | entry i =>
      by_cases hij : i = j
      · subst hij
        rw [if_pos rfl]
        exact hentry hne
      · rw [if_neg (by simpa using hij)]
        exact holds_putEntry_other hgood hgood.volume hj hij hdisk (hopened i hij)
    | handle k =>
      exact (hhandle k hne).2
  · intro o o' hne hne' heq
    cases o with
    | entry i =>
      cases o' with
      | entry i' => grind
      | handle k' =>
        grind
    | handle k =>
      cases o' with
      | entry i' => grind
      | handle k' => grind
  · intro k hk
    obtain ⟨hkh, hk'⟩ := hopen k hk
    rw [hother k hkh]
    exact hgood.handles k hk'
  · intro k k' hk hk' hoff
    obtain ⟨hkh, hks⟩ := hopen k hk
    obtain ⟨hkh', hks'⟩ := hopen k' hk'
    rw [hother k hkh, hother k' hkh'] at hoff
    exact hgood.once k k' hks hks' hoff

theorem Good.giveHandle (hgood : Good g s) {file : FatFile} (hfree : (s.files h).used = false)
    (hused : file.used = true) (hcluster : file.dirCluster = g.rootCluster) (hj : j < slots g)
    (hoffset : file.dirOffset = entrySize * j)
    (hfirst : file.firstCluster ≠ 0 →
      Live (rootSlot g s.disk j) ∧ file.firstCluster = (rootSlot g s.disk j).firstCluster)
    (hdisk : t.disk = s.disk) (hfiles : t.files = update s.files h file)
    (honce : AtMostOne t) : Good g t := by
  have hself : t.files h = file := by rw [hfiles, update_self]
  have hother : ∀ k, k ≠ h → t.files k = s.files k := by
    intro k hk
    rw [hfiles, update_of_ne hk]
  have husedSelf : (t.files h).used = true := by rwa [hself]
  have hopen : ∀ k, (s.files k).used = true → k ≠ h := by
    rintro k hk rfl
    rw [hfree] at hk
    cases hk
  have hclosed : ¬Opened s.files j := by
    rintro ⟨k, hk, hoff⟩
    have hkh := hopen k hk
    refine hkh (honce k h (by rwa [hother k hkh]) husedSelf ?_)
    rw [hother k hkh, hself, hoff, hoffset]
  have hopened : ∀ i ≠ j, (Opened t.files i ↔ Opened s.files i) := by
    intro i hij
    constructor
    · rintro ⟨k, hk, hoff⟩
      have hkh : k ≠ h := by
        rintro rfl
        rw [hself, hoffset] at hoff
        exact hij (entryOffset_inj hoff).symm
      rw [hother k hkh] at hk hoff
      exact ⟨k, hk, hoff⟩
    · rintro ⟨k, hk, hoff⟩
      have hkh := hopen k hk
      exact ⟨k, by rwa [hother k hkh], by rwa [hother k hkh]⟩
  have hnone : holds g t (.entry j) = 0 := by
    refine if_neg fun hc => hc.2.2 ⟨h, husedSelf, ?_⟩
    rw [hself, hoffset]
  have hhandle : ∀ k, k ≠ h → holds g t (.handle k) = holds g s (.handle k) := by
    intro k hk
    simp only [holds, hother k hk]
  have hchain : holds g t (.handle h) ≠ 0 → holds g t (.handle h) = holds g s (.entry j) := by
    rw [holds_used husedSelf, hself]
    intro hne
    obtain ⟨hlive, heq⟩ := hfirst hne
    rw [heq, holds_closed ⟨hj, hlive, hclosed⟩]
  refine ⟨?_, ?_, ?_, ?_, honce⟩
  · rw [hdisk]
    -- the entry gives its chain to the handle
    refine hgood.volume.reindex (fun o => if o = .handle h then .entry j else o) ?_ ?_
    · intro o hne
      cases o with
      | entry i =>
        have hij : i ≠ j := by
          rintro rfl
          exact hne hnone
        exact holds_entry_congr (fun _ => hdisk ▸ SameEntry.refl _) (hopened i hij)
      | handle k =>
        by_cases hk : k = h
        · subst hk
          rw [if_pos rfl]
          exact hchain hne
        · rw [if_neg (by simpa using hk)]
          exact hhandle k hk
    · intro o o' hne hne' heq
      cases o with
      | entry i =>
        cases o' <;> grind
      | handle k =>
        cases o' with
        | entry i' =>
          grind
        | handle k' => grind
  · rw [hdisk]
    exact hgood.rootEnd
  · rw [hdisk]
    exact hgood.dirEnd
  · intro k hk
    by_cases hkh : k = h
    · subst hkh
      rw [hself]
      exact ⟨hcluster, j, hj, hoffset⟩
    · rw [hother k hkh] at hk ⊢
      exact hgood.handles k hk

end RadKernel.Fat
