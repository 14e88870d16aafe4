import RadKernel.Fat.Table
import Mathlib.Tactic.Ring

/-!
# Entries of the root directory

The entries of a cluster, what writing one of them changes, and what the scan for a name finds.
-/

namespace RadKernel.Fat

open Kernel Prog Buffer

variable {g : FatContext} {d d' : Disk} {c c' j k : Nat} {e e' : FatDirEntry}

/-! ## Entries -/

/-- The bytes of the entry are the same. -/
def SameEntry (e e' : FatDirEntry) : Prop := ∀ i < entrySize, e' i = e i

theorem SameEntry.refl (e : FatDirEntry) : SameEntry e e := fun _ _ => rfl

section
variable (h : SameEntry e e')
include h

theorem SameEntry.symm : SameEntry e' e := fun i hi => (h i hi).symm

theorem SameEntry.trans {e'' : FatDirEntry} (h' : SameEntry e' e'') :
    SameEntry e e'' := fun i hi => (h' i hi).trans (h i hi)

theorem SameEntry.name : FatDirEntry.name e' = FatDirEntry.name e := by
  refine List.map_congr_left fun i hi => h i ?_
  have := List.mem_range.1 hi
  unfold entrySize
  omega

theorem SameEntry.attr : FatDirEntry.attr e' = FatDirEntry.attr e :=
  h 11 (by decide)

theorem SameEntry.size : FatDirEntry.size e' = FatDirEntry.size e :=
  le32_congr fun k hk => h (28 + k) (by unfold entrySize; omega)

theorem SameEntry.firstCluster : FatDirEntry.firstCluster e' = FatDirEntry.firstCluster e := by
  unfold FatDirEntry.firstCluster
  rw [le16_congr (h 20 (by decide)) (h 21 (by decide)),
    le16_congr (h 26 (by decide)) (h 27 (by decide))]

end

/-- The entry is in use and names a file, or a directory. -/
structure Live (e : FatDirEntry) : Prop where
  used : e 0 ≠ 0
  notDeleted : e 0 ≠ 0xe5
  notLongName : e.attr &&& attrLongName ≠ attrLongName

instance (e : FatDirEntry) : Decidable (Live e) :=
  decidable_of_iff (e 0 ≠ 0 ∧ e 0 ≠ 0xe5 ∧ e.attr &&& attrLongName ≠ attrLongName)
    ⟨fun ⟨h₁, h₂, h₃⟩ => ⟨h₁, h₂, h₃⟩, fun ⟨h₁, h₂, h₃⟩ => ⟨h₁, h₂, h₃⟩⟩

theorem SameEntry.live (h : SameEntry e e') : Live e' ↔ Live e := by
  have hfirst := h 0 (by decide)
  have hattr := h.attr
  constructor
  · rintro ⟨h₁, h₂, h₃⟩
    exact ⟨hfirst ▸ h₁, hfirst ▸ h₂, hattr ▸ h₃⟩
  · rintro ⟨h₁, h₂, h₃⟩
    exact ⟨hfirst.symm ▸ h₁, hfirst.symm ▸ h₂, hattr.symm ▸ h₃⟩

/-- The entry can be given to a new file. -/
def Free (e : FatDirEntry) : Prop := e 0 = 0 ∨ e 0 = 0xe5

theorem Free.not_live (h : Free e) : ¬Live e := by
  rintro ⟨h₁, h₂, -⟩
  rcases h with h | h
  · exact h₁ h
  · exact h₂ h

theorem SameEntry.free (h : SameEntry e e') : Free e' ↔ Free e := by
  rw [Free, Free, h 0 (by decide)]

/-! ## Fields -/

variable {v : Nat}

theorem firstCluster_setFirstCluster (hv : v < 2 ^ 32) :
    (e.setFirstCluster v).firstCluster = v := by
  rw [FatDirEntry.firstCluster, FatDirEntry.setFirstCluster, le16_store,
    le16_store_other (.inl (by omega)), le16_store]
  omega

theorem size_setFirstCluster (e : FatDirEntry) (v : Nat) : (e.setFirstCluster v).size = e.size := by
  rfl

theorem size_setSize (hv : v < 2 ^ 32) : (e.setSize v).size = v := le32_store hv

theorem setFields_low {i w : Nat} (hi : i < 20) : (e.setSize v).setFirstCluster w i = e i := by
  rw [FatDirEntry.setFirstCluster, store_below (by omega), store_below hi, FatDirEntry.setSize,
    store_below (by omega)]

theorem name_setFields (e : FatDirEntry) (v w : Nat) :
    ((e.setSize v).setFirstCluster w).name = e.name := by
  refine List.map_congr_left fun i hi => setFields_low ?_
  have := List.mem_range.1 hi
  omega

theorem live_setFields (e : FatDirEntry) (v w : Nat) :
    Live ((e.setSize v).setFirstCluster w) ↔ Live e := by
  have hfirst : (e.setSize v).setFirstCluster w 0 = e 0 := setFields_low (by decide)
  have hattr : ((e.setSize v).setFirstCluster w).attr = e.attr := setFields_low (by decide)
  constructor
  · rintro ⟨h₁, h₂, h₃⟩
    exact ⟨hfirst ▸ h₁, hfirst ▸ h₂, hattr ▸ h₃⟩
  · rintro ⟨h₁, h₂, h₃⟩
    exact ⟨hfirst.symm ▸ h₁, hfirst.symm ▸ h₂, hattr.symm ▸ h₃⟩

/-! ## The disk -/

def entryAt (g : FatContext) (d : Disk) (c offset : Nat) : FatDirEntry := fun i =>
  d (firstSector g c + offset / sectorSize) (offset % sectorSize + i)

def putEntry (g : FatContext) (d : Disk) (c offset : Nat) (e : FatDirEntry) : Disk :=
  Function.update d (firstSector g c + offset / sectorSize)
    (store (d (firstSector g c + offset / sectorSize)) (offset % sectorSize)
      ((List.range entrySize).map e))

def slots (g : FatContext) : Nat := g.clusterBytes / entrySize

theorem slot_sector (hj : j < slots g) : entrySize * j / sectorSize < g.sectorsPerCluster := by
  unfold slots FatContext.clusterBytes entrySize sectorSize at *
  omega

theorem slot_inCluster (hj : j < slots g) (c : Nat) :
    InCluster g c (firstSector g c + entrySize * j / sectorSize) := by
  have := slot_sector hj
  exact ⟨Nat.le_add_right _ _, by omega⟩

section
variable (hg : Layout g) (hc : InRange g c) (hj : j < slots g)
include hg hc hj

theorem readDirEntry_eq :
    readDirEntry g c (entrySize * j) d = some (.ok (entryAt g d c (entrySize * j))) := by
  rw [readDirEntry, hg.u32_sector hc (slot_sector hj)]
  rfl

theorem writeDirEntry_eq :
    writeDirEntry g c (entrySize * j) e d = some (.ok (), putEntry g d c (entrySize * j) e) := by
  rw [writeDirEntry, hg.u32_sector hc (slot_sector hj)]
  rfl

end

theorem sameTable_putEntry : SameTable g d (putEntry g d c k e) := by
  intro s hs
  have hdata : g.firstDataSector ≤ firstSector g c := Nat.le_add_right _ _
  have hsector := Nat.le_add_right (firstSector g c) (k / sectorSize)
  rw [putEntry, Function.update_of_ne (by omega)]

/-- Sectors of other clusters stay. -/
theorem putEntry_data (hc : InRange g c) (hc' : InRange g c') (hne : c' ≠ c) (hj : j < slots g)
    {s : Nat} (hs : InCluster g c' s) : putEntry g d c (entrySize * j) e s = d s := by
  rw [putEntry, Function.update_of_ne]
  rintro rfl
  exact hne (hs.unique (slot_inCluster hj c) hc'.1 hc.1)

theorem entryAt_putEntry_self : SameEntry e (entryAt g (putEntry g d c k e) c k) := by
  intro i hi
  rw [entryAt, putEntry, Function.update_self, store_add]
  simp [hi]

theorem entryAt_putEntry_other (hc : InRange g c) (hc' : InRange g c') (hj : j < slots g)
    (hk : k < slots g) (hne : c' ≠ c ∨ k ≠ j) :
    SameEntry (entryAt g d c' (entrySize * k))
      (entryAt g (putEntry g d c (entrySize * j) e) c' (entrySize * k)) := by
  intro i hi
  by_cases hcc : c' = c
  · subst hcc
    have hkj : k ≠ j := by
      rcases hne with h | h
      · exact absurd rfl h
      · exact h
    unfold entryAt putEntry
    by_cases hs : entrySize * k / sectorSize = entrySize * j / sectorSize
    · rw [hs, Function.update_self]
      unfold entrySize sectorSize at *
      rcases Nat.lt_or_gt_of_ne hkj with hlt | hlt
      · rw [store_below (by omega)]
      · rw [store_above (by simp; omega)]
    · rw [Function.update_of_ne (by omega)]
  · rw [entryAt, putEntry_data hc hc' hcc hj (slot_inCluster hk c')]
    rfl

/-! ## Truncating -/

section

variable {flags offset : Nat}

theorem truncateEntry_keep (h : ¬(flags &&& vfsTruncate ≠ 0 ∧ flags &&& vfsWrite ≠ 0)) :
    truncateEntry g e offset flags d = some (.ok e, d) := by
  rw [truncateEntry, if_neg h]
  rfl

section
variable (hg : Layout g) (hroot : InRange g g.rootCluster) (hj : j < slots g)
  (h : flags &&& vfsTruncate ≠ 0 ∧ flags &&& vfsWrite ≠ 0)
include hg hroot hj h

theorem truncateEntry_empty (hcluster : e.firstCluster = 0) :
    truncateEntry g e (entrySize * j) flags d = some (.ok ((e.setSize 0).setFirstCluster 0),
      putEntry g d g.rootCluster (entrySize * j) ((e.setSize 0).setFirstCluster 0)) := by
  rw [truncateEntry, if_pos h, if_neg (not_not.2 hcluster)]
  exact bind_eq_ok.2 ⟨(), _, writeDirEntry_eq hg hroot hj, rfl⟩

theorem truncateEntry_freed (hcluster : e.firstCluster ≠ 0)
    (hfree : freeChain g e.firstCluster d = some (.ok (), d')) :
    truncateEntry g e (entrySize * j) flags d = some (.ok ((e.setSize 0).setFirstCluster 0),
      putEntry g d' g.rootCluster (entrySize * j) ((e.setSize 0).setFirstCluster 0)) := by
  rw [truncateEntry, if_pos h, if_pos hcluster]
  exact bind_eq_ok.2 ⟨(), d', hfree, bind_eq_ok.2 ⟨(), _, writeDirEntry_eq hg hroot hj, rfl⟩⟩

end

end

/-! ## The scan for a name -/

section

variable (g : FatContext) (d : Disk) (name : List UInt8) (c : Nat)

def slot (j : Nat) : FatDirEntry := entryAt g d c (entrySize * j)

/-- The entry is the one of the file `name`. -/
def Names (e : FatDirEntry) (name : List UInt8) : Prop := Live e ∧ e.name = name

/-- The first entry with the name, and none before it ends the directory. -/
structure FirstNamed (j : Nat) : Prop where
  lt : j < slots g
  named : Names (slot g d c j) name
  before : ∀ i < j, slot g d c i 0 ≠ 0 ∧ ¬Names (slot g d c i) name

/-- The first free entry, and none before it has the name. -/
structure FirstFree (j : Nat) : Prop where
  lt : j < slots g
  free : Free (slot g d c j)
  before : ∀ i < j, ¬Free (slot g d c i) ∧ ¬Names (slot g d c i) name

/-- A free offset that the scan reports is that of the first free entry. -/
def ReportsFree (free : Option Nat) : Prop :=
  ∀ off, free = some off → ∃ j, off = entrySize * j ∧ FirstFree g d name c j

/-- What is known when the scan of a cluster is over. -/
def Scanned : Scan → Prop
  | .found e off => ∃ j, off = entrySize * j ∧ e = slot g d c j ∧ FirstNamed g d name c j
  | .ended free => (∃ k < slots g, slot g d c k 0 = 0 ∧
      ∀ i < k, slot g d c i 0 ≠ 0 ∧ ¬Names (slot g d c i) name) ∧ ReportsFree g d name c free
  | .exhausted free => (∀ i < slots g, slot g d c i 0 ≠ 0 ∧ ¬Names (slot g d c i) name) ∧
      (free = none → ∀ i < slots g, ¬Free (slot g d c i)) ∧ ReportsFree g d name c free

end

/-- What `find_entry` finds in a cluster, from entry `k` on. -/
theorem scanCluster_from (hg : Layout g) (hc : InRange g c) {name : List UInt8} {n : Nat}
    {free : Option Nat} (hn : k + n = slots g)
    (hbefore : ∀ i < k, slot g d c i 0 ≠ 0 ∧ ¬Names (slot g d c i) name)
    (hnone : free = none → ∀ i < k, ¬Free (slot g d c i)) (hfree : ReportsFree g d name c free) :
    ∃ r, scanCluster g name c n (entrySize * k) free d = some (.ok r) ∧ Scanned g d name c r := by
  induction n generalizing k free with
  | zero =>
    obtain rfl : k = slots g := by omega
    exact ⟨_, rfl, hbefore, hnone, hfree⟩
  | succ n ih =>
    have hk : k < slots g := by omega
    have hread : readDirEntry g c (entrySize * k) d = some (.ok (slot g d c k)) :=
      readDirEntry_eq hg hc hk
    have hnext : entrySize * k + entrySize = entrySize * (k + 1) := by ring
    -- the first free entry is the one reported before, or this one
    have hfirst : Free (slot g d c k) → ¬Names (slot g d c k) name →
        ReportsFree g d name c (free.or (some (entrySize * k))) := by
      intro hk' hnamed off hoff
      cases hcase : free with
      | some off' =>
        rw [hcase] at hoff
        exact hfree off (hcase.trans hoff)
      | none =>
        rw [hcase] at hoff
        obtain rfl := Option.some.inj hoff
        exact ⟨k, rfl, hk, hk', fun i hi => ⟨hnone hcase i hi, (hbefore i hi).2⟩⟩
    have hpass : slot g d c k 0 ≠ 0 → ¬Names (slot g d c k) name →
        ∀ i < k + 1, slot g d c i 0 ≠ 0 ∧ ¬Names (slot g d c i) name := by
      intro hzero hnamed i hi
      rcases Nat.lt_succ_iff_lt_or_eq.1 hi with hi | rfl
      · exact hbefore i hi
      · exact ⟨hzero, hnamed⟩
    have hpassFree : ¬Free (slot g d c k) → free = none →
        ∀ i < k + 1, ¬Free (slot g d c i) := by
      intro hk' hnil i hi
      rcases Nat.lt_succ_iff_lt_or_eq.1 hi with hi | rfl
      · exact hnone hnil i hi
      · exact hk'
    rw [scanCluster, Query.bind_of_ok hread]
    by_cases hend : slot g d c k 0 = 0
    · have hfreeSlot : Free (slot g d c k) := .inl hend
      rw [if_pos hend]
      exact ⟨_, rfl, ⟨k, hk, hend, hbefore⟩, hfirst hfreeSlot fun h => hfreeSlot.not_live h.1⟩
    rw [if_neg hend]
    by_cases hdeleted : slot g d c k 0 = 0xe5
    · have hfreeSlot : Free (slot g d c k) := .inr hdeleted
      have hnamed : ¬Names (slot g d c k) name := fun h => hfreeSlot.not_live h.1
      rw [if_pos hdeleted, hnext]
      refine ih (by omega) (hpass hend hnamed) ?_ (hfirst hfreeSlot hnamed)
      intro hnil
      cases free <;> simp at hnil
    rw [if_neg hdeleted]
    have hinUse : ¬Free (slot g d c k) := by
      rintro (h | h)
      · exact hend h
      · exact hdeleted h
    by_cases hlong : (slot g d c k).attr &&& attrLongName = attrLongName
    · rw [if_pos hlong, hnext]
      exact ih (by omega) (hpass hend fun h => h.1.notLongName hlong) (hpassFree hinUse) hfree
    rw [if_neg hlong]
    by_cases hname : (slot g d c k).name = name
    · rw [if_pos hname]
      exact ⟨_, rfl, k, rfl, rfl, hk, ⟨⟨hend, hdeleted, hlong⟩, hname⟩, hbefore⟩
    · rw [if_neg hname, hnext]
      exact ih (by omega) (hpass hend fun h => hname h.2) (hpassFree hinUse) hfree

theorem scanCluster_cases (hg : Layout g) (hc : InRange g c) (name : List UInt8) (d : Disk) :
    ∃ r, scanCluster g name c (slots g) 0 none d = some (.ok r) ∧ Scanned g d name c r :=
  scanCluster_from hg hc (Nat.zero_add _) (by omega) (by omega) (by simp [ReportsFree])

end RadKernel.Fat
