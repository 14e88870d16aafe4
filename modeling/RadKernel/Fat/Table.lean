import RadKernel.Fat.Model

/-!
# The parts of a FAT volume

Where the links of the clusters, the sectors of the clusters and the entries of the root directory
lie, and that a write to one of them leaves the others alone. The functions of `Fat.Model` are
given here by what they do to these parts.
-/

namespace RadKernel.Fat

open Kernel Buffer Function

variable {g : FatContext} {d d' : Disk} {c c' v : Nat}

/-! ## Bytes in a buffer -/

variable {b b' : Bytes} {o i s fat n : Nat}

theorem store_below {data : List UInt8} (h : i < o) : store b o data i = b i := by
  rw [store, if_neg (by omega)]

theorem store_above {data : List UInt8} (h : o + data.length ≤ i) : store b o data i = b i := by
  rw [store, if_pos (by omega), List.getElem?_eq_none (by omega)]
  rfl

theorem store_store (b : Bytes) (o : Nat) (data : List UInt8) :
    store (store b o data) o data = store b o data := by
  funext i
  by_cases hi : o ≤ i
  · simp only [store, if_pos hi]
    cases data[i - o]? <;> rfl
  · simp only [store, if_neg hi]

@[simp] theorem length_le32Bytes (v : Nat) : (le32Bytes v).length = 4 := rfl

@[simp] theorem length_le16Bytes (v : Nat) : (le16Bytes v).length = 2 := rfl

theorem store_add (b : Bytes) (o k : Nat) (data : List UInt8) :
    store b o data (o + k) = data[k]?.getD (b (o + k)) := by
  rw [store, if_pos (by omega), Nat.add_sub_cancel_left]

theorem le16_store (b : Bytes) (o v : Nat) : le16 (store b o (le16Bytes v)) o = v % 65536 := by
  have h₀ : store b o (le16Bytes v) o = v.toUInt8 := store_add b o 0 _
  have h₁ : store b o (le16Bytes v) (o + 1) = (v / 256).toUInt8 := store_add b o 1 _
  simp only [le16, h₀, h₁, Nat.toUInt8, UInt8.toNat_ofNat']
  omega

theorem le32_store (hv : v < 2 ^ 32) : le32 (store b o (le32Bytes v)) o = v := by
  have h₀ : store b o (le32Bytes v) o = v.toUInt8 := store_add b o 0 _
  have h₁ : store b o (le32Bytes v) (o + 1) = (v / 256).toUInt8 := store_add b o 1 _
  have h₂ : store b o (le32Bytes v) (o + 2) = (v / 65536).toUInt8 := store_add b o 2 _
  have h₃ : store b o (le32Bytes v) (o + 2 + 1) = (v / 65536 / 256).toUInt8 := store_add b o 3 _
  simp only [le32, le16, h₀, h₁, h₂, h₃, Nat.toUInt8, UInt8.toNat_ofNat']
  omega

theorem le16_congr (h : b' i = b i) (h' : b' (i + 1) = b (i + 1)) : le16 b' i = le16 b i := by
  rw [le16, le16, h, h']

theorem le32_congr (h : ∀ k < 4, b' (i + k) = b (i + k)) : le32 b' i = le32 b i := by
  have hlow : le16 b' i = le16 b i := le16_congr (h 0 (by omega)) (h 1 (by omega))
  have hhigh : le16 b' (i + 2) = le16 b (i + 2) := le16_congr (h 2 (by omega)) (h 3 (by omega))
  rw [le32, le32, hlow, hhigh]

theorem le16_store_other {data : List UInt8}
    (h : i + 2 ≤ o ∨ o + data.length ≤ i) : le16 (store b o data) i = le16 b i := by
  rcases h with h | h
  · exact le16_congr (store_below (by omega)) (store_below (by omega))
  · exact le16_congr (store_above (by omega)) (store_above (by omega))

theorem le32_store_other {data : List UInt8}
    (h : i + 4 ≤ o ∨ o + data.length ≤ i) : le32 (store b o data) i = le32 b i := by
  refine le32_congr fun k hk => ?_
  rcases h with h | h
  · exact store_below (by omega)
  · exact store_above (by omega)

/-! ## The layout -/

structure Layout (g : FatContext) : Prop where
  fits : g.reservedSectors + g.fatCount * g.fatSize < 2 ^ 32
  covers : (g.clusterCount + 2) * 4 ≤ g.fatSize * sectorSize
  marks : g.clusterCount + 2 ≤ 0x0ffffff7

def InRange (g : FatContext) (c : Nat) : Prop := 2 ≤ c ∧ c < g.clusterCount + 2

/-- The link of a cluster, in the first copy of the table. -/
def nextOf (g : FatContext) (d : Disk) (c : Nat) : Nat :=
  le32 (d (g.reservedSectors + c / 128)) (c % 128 * 4) % 2 ^ 28

def firstSector (g : FatContext) (c : Nat) : Nat :=
  g.firstDataSector + (c - 2) * g.sectorsPerCluster

def InCluster (g : FatContext) (c sector : Nat) : Prop :=
  firstSector g c ≤ sector ∧ sector < firstSector g c + g.sectorsPerCluster

/-- The copies of the table agree. -/
def CopiesEqual (g : FatContext) (d : Disk) : Prop :=
  ∀ fat < g.fatCount, ∀ k < g.fatSize, ∀ i < sectorSize,
    d (g.reservedSectors + fat * g.fatSize + k) i = d (g.reservedSectors + k) i

theorem cluster_le (hc : InRange g c) : firstSector g c + g.sectorsPerCluster ≤ g.totalSectors := by
  have hcount : g.clusterCount * g.sectorsPerCluster ≤ g.totalSectors - g.firstDataSector :=
    Nat.div_mul_le_self _ _
  have hstep : (c - 2 + 1) * g.sectorsPerCluster ≤ g.clusterCount * g.sectorsPerCluster :=
    Nat.mul_le_mul_right _ (by have := hc.2; have := hc.1; omega)
  have hdata := g.data_lt
  have hfirst : g.firstDataSector < g.totalSectors := hdata
  rw [Nat.add_mul, Nat.one_mul] at hstep
  unfold firstSector
  omega

namespace Layout

variable (hg : Layout g)
include hg

theorem firstDataSector_eq : g.firstDataSector = g.reservedSectors + g.fatCount * g.fatSize := by
  have := hg.fits
  unfold FatContext.firstDataSector u32
  rw [Nat.mod_eq_of_lt (show g.fatCount * g.fatSize < 2 ^ 32 by omega), Nat.mod_eq_of_lt this]

section
variable (hc : InRange g c)
include hc

/-- The sector of a link is in the table. -/
theorem link_lt : c / 128 < g.fatSize := by
  have := hg.covers
  have := hc.2
  unfold sectorSize at *
  omega

theorem clusterFirstSector_eq : clusterFirstSector g c = firstSector g c := by
  have hle := cluster_le hc
  have htotal := g.totalSectors_lt
  have hmarks := hg.marks
  have hc' := hc.2
  have hge := hc.1
  have hsub : sub32 c 2 = c - 2 := by
    simp only [sub32, u32]
    omega
  unfold firstSector at hle
  rw [clusterFirstSector, hsub, firstSector]
  simp only [u32]
  rw [Nat.mod_eq_of_lt (show (c - 2) * g.sectorsPerCluster < 2 ^ 32 by omega),
    Nat.mod_eq_of_lt (by omega)]

theorem u32_sector {k : Nat} (hk : k < g.sectorsPerCluster) :
    u32 (clusterFirstSector g c + k) = firstSector g c + k := by
  have hle := cluster_le hc
  have htotal := g.totalSectors_lt
  rw [hg.clusterFirstSector_eq hc, u32]
  exact Nat.mod_eq_of_lt (by omega)

theorem not_isEoc : ¬isEoc c := by
  have := hg.marks
  have := hc.2
  rw [isEoc, decide_eq_true_eq, fatEoc]
  omega

end

end Layout

theorem InCluster.unique (h : InCluster g c s) (h' : InCluster g c' s) (hc : 2 ≤ c)
    (hc' : 2 ≤ c') : c = c' := by
  obtain ⟨hlow, hhigh⟩ := h
  obtain ⟨hlow', hhigh'⟩ := h'
  unfold firstSector at *
  by_contra hne
  rcases Nat.lt_or_gt_of_ne hne with hlt | hlt
  · have hstep : (c - 2 + 1) * g.sectorsPerCluster ≤ (c' - 2) * g.sectorsPerCluster :=
      Nat.mul_le_mul_right _ (by omega)
    rw [Nat.add_mul, Nat.one_mul] at hstep
    omega
  · have hstep : (c' - 2 + 1) * g.sectorsPerCluster ≤ (c - 2) * g.sectorsPerCluster :=
      Nat.mul_le_mul_right _ (by omega)
    rw [Nat.add_mul, Nat.one_mul] at hstep
    omega

theorem inCluster_offset (hg : Layout g) (hc : InRange g c) (position : Nat) :
    InCluster g c (u32 (clusterFirstSector g c + position % g.clusterBytes / sectorSize)) := by
  have hlt : position % g.clusterBytes / sectorSize < g.sectorsPerCluster := by
    refine Nat.div_lt_of_lt_mul ?_
    rw [Nat.mul_comm]
    exact Nat.mod_lt _ (Nat.mul_pos g.sectorsPerCluster_pos (by decide))
  rw [hg.u32_sector hc hlt]
  exact ⟨Nat.le_add_right _ _, by omega⟩

theorem InCluster.data (h : InCluster g c s) : g.firstDataSector ≤ s :=
  Nat.le_trans (Nat.le_add_right _ _) h.1

/-! ## Links -/

theorem fatEntry_eq (hg : Layout g) (hc : InRange g c) :
    fatEntry g c d = some (.ok (nextOf g d c)) := by
  have hmarks := hg.marks
  have hlink := hg.link_lt hc
  have hfits := hg.fits
  have hsize := Nat.le_mul_of_pos_left g.fatSize g.fatCount_pos
  obtain ⟨hge, hlt⟩ := hc
  have hoffset : u32 (c * 4) = c * 4 := Nat.mod_eq_of_lt (by omega)
  have hsector : c * 4 / sectorSize = c / 128 := by
    unfold sectorSize
    omega
  have hin : c * 4 % sectorSize = c % 128 * 4 := by
    unfold sectorSize
    omega
  have hfirst : u32 (g.reservedSectors + c / 128) = g.reservedSectors + c / 128 :=
    Nat.mod_eq_of_lt (by omega)
  rw [fatEntry, if_neg (by omega), hoffset, hsector, hin, hfirst]
  rfl

def linkSector (g : FatContext) (c fat : Nat) : Nat :=
  g.reservedSectors + fat * g.fatSize + c / 128

def putLink (g : FatContext) (d : Disk) (c v : Nat) (fats : List Nat) : Disk := fun s =>
  if s ∈ fats.map (linkSector g c) then store (d s) (c % 128 * 4) (le32Bytes (v % 2 ^ 28)) else d s

theorem linkSector_lt (hg : Layout g) (hc : InRange g c) (hfat : fat < g.fatCount) :
    linkSector g c fat < g.firstDataSector := by
  have hlink := hg.link_lt hc
  have hstep : (fat + 1) * g.fatSize ≤ g.fatCount * g.fatSize := Nat.mul_le_mul_right _ hfat
  rw [hg.firstDataSector_eq, linkSector]
  rw [Nat.add_mul, Nat.one_mul] at hstep
  omega

theorem setFatCopies_eq (hg : Layout g) (hc : InRange g c) (fats : List Nat)
    (hfats : ∀ fat ∈ fats, fat < g.fatCount) (d : Disk) :
    setFatCopies g (c * 4) v fats d = some (.ok (), putLink g d c v fats) := by
  induction fats generalizing d with
  | nil =>
    rfl
  | cons fat fats ih =>
    have hlt := linkSector_lt hg hc (hfats fat (by simp))
    have hdata := hg.firstDataSector_eq
    have hfits := hg.fits
    have hin : c * 4 % sectorSize = c % 128 * 4 := by
      unfold sectorSize
      omega
    have hsector : u32 (g.reservedSectors + u32 (fat * g.fatSize) + c * 4 / sectorSize) =
        linkSector g c fat := by
      have hdiv : c * 4 / sectorSize = c / 128 := by
        unfold sectorSize
        omega
      unfold linkSector at hlt ⊢
      simp only [u32, hdiv]
      rw [Nat.mod_eq_of_lt (show fat * g.fatSize < 2 ^ 32 by omega), Nat.mod_eq_of_lt (by omega)]
    have hrun : setFatCopies g (c * 4) v (fat :: fats) d = setFatCopies g (c * 4) v fats
        (update d (linkSector g c fat)
          (store (d (linkSector g c fat)) (c % 128 * 4) (le32Bytes (v % 2 ^ 28)))) := by
      rw [setFatCopies, hsector, hin]
      rfl
    rw [hrun, ih fun x hx => hfats x (by simp [hx])]
    congr 2
    funext s
    by_cases hs : s = linkSector g c fat
    · subst hs
      simp only [putLink, List.map_cons, List.mem_cons, true_or, if_true, update_self]
      split_ifs
      · rw [store_store]
      · rfl
    · simp only [putLink, List.map_cons, List.mem_cons, hs, false_or, update_of_ne hs]

def setNext (g : FatContext) (d : Disk) (c v : Nat) : Disk :=
  putLink g d c v (List.range g.fatCount)

theorem setFatEntry_eq (hg : Layout g) (hc : InRange g c) :
    setFatEntry g c v d = some (.ok (), setNext g d c v) := by
  have hmarks := hg.marks
  obtain ⟨hge, hlt⟩ := hc
  have hoffset : u32 (c * 4) = c * 4 := Nat.mod_eq_of_lt (by omega)
  rw [setFatEntry, if_neg (by omega), hoffset]
  exact setFatCopies_eq hg ⟨hge, hlt⟩ _ (fun fat hfat => List.mem_range.1 hfat) d

theorem setNext_apply (g : FatContext) (d : Disk) (c v s : Nat) :
    setNext g d c v s =
      if ∃ fat < g.fatCount, linkSector g c fat = s then
        store (d s) (c % 128 * 4) (le32Bytes (v % 2 ^ 28))
      else d s := by
  simp [setNext, putLink]

section
variable (hg : Layout g) (hc : InRange g c)
include hg hc

theorem setNext_data (hs : g.firstDataSector ≤ s) : setNext g d c v s = d s := by
  rw [setNext_apply, if_neg]
  rintro ⟨fat, hfat, rfl⟩
  have := linkSector_lt hg hc hfat
  omega

theorem exists_linkSector {k : Nat} (hfat : fat < g.fatCount) (hk : k < g.fatSize) :
    (∃ f < g.fatCount, linkSector g c f = g.reservedSectors + fat * g.fatSize + k) ↔
      c / 128 = k := by
  have hlink := hg.link_lt hc
  constructor
  · rintro ⟨f, -, hf⟩
    unfold linkSector at hf
    have hmod := congrArg (· % g.fatSize) (show f * g.fatSize + c / 128 = fat * g.fatSize + k by omega)
    simpa [Nat.add_comm, Nat.add_mul_mod_self_right, Nat.mod_eq_of_lt hlink,
      Nat.mod_eq_of_lt hk] using hmod
  · rintro rfl
    exact ⟨fat, hfat, rfl⟩

theorem nextOf_setNext (hc' : InRange g c') (hv : v < 2 ^ 28) :
    nextOf g (setNext g d c v) c' = if c' = c then v else nextOf g d c' := by
  have hv' : v % 2 ^ 28 = v := Nat.mod_eq_of_lt hv
  have hcopy := exists_linkSector hg hc g.fatCount_pos (hg.link_lt hc')
  rw [Nat.zero_mul, Nat.add_zero] at hcopy
  simp only [nextOf, setNext_apply, hcopy, hv']
  by_cases heq : c' = c
  · subst heq
    rw [if_pos rfl, if_pos rfl, le32_store (by omega), hv']
  · rw [if_neg heq]
    split_ifs with hsame
    · rw [le32_store_other]
      rw [length_le32Bytes]
      omega
    · rfl

theorem copiesEqual_setNext (h : CopiesEqual g d) : CopiesEqual g (setNext g d c v) := by
  intro fat hfat k hk i hi
  have hkept := h fat hfat k hk i hi
  have hfirst := exists_linkSector hg hc g.fatCount_pos hk
  rw [Nat.zero_mul, Nat.add_zero] at hfirst
  simp only [setNext_apply, exists_linkSector hg hc hfat hk, hfirst]
  split_ifs with hsame
  · by_cases hin : c % 128 * 4 ≤ i
    · simp only [store, if_pos hin, hkept]
    · simp only [store, if_neg hin, hkept]
  · exact hkept

end

/-- The sectors before the data are the same. -/
def SameTable (g : FatContext) (d d' : Disk) : Prop := ∀ s < g.firstDataSector, d' s = d s

theorem SameTable.nextOf (hg : Layout g) (h : SameTable g d d') (hc : InRange g c) :
    nextOf g d' c = nextOf g d c := by
  have hlt := linkSector_lt hg hc g.fatCount_pos
  rw [linkSector, Nat.zero_mul, Nat.add_zero] at hlt
  rw [Fat.nextOf, Fat.nextOf, h _ hlt]

theorem SameTable.copiesEqual (hg : Layout g) (h : SameTable g d d') (hd : CopiesEqual g d) :
    CopiesEqual g d' := by
  intro fat hfat k hk i hi
  have hdata := hg.firstDataSector_eq
  have hstep : (fat + 1) * g.fatSize ≤ g.fatCount * g.fatSize := Nat.mul_le_mul_right _ hfat
  rw [Nat.add_mul, Nat.one_mul] at hstep
  rw [h _ (by omega), h _ (by omega)]
  exact hd fat hfat k hk i hi

instance (g : FatContext) (c : Nat) : Decidable (InRange g c) :=
  inferInstanceAs (Decidable (_ ∧ _))

/-- The links of the clusters of the volume. -/
def links (g : FatContext) (d : Disk) (c : Nat) : Nat := if InRange g c then nextOf g d c else 0

theorem links_of_inRange (hc : InRange g c) : links g d c = nextOf g d c := if_pos hc

theorem inRange_of_links (h : links g d c ≠ 0) : InRange g c := by
  by_contra hc
  exact h (if_neg hc)

theorem links_setNext (hg : Layout g) (hc : InRange g c) (hv : v < 2 ^ 28) :
    links g (setNext g d c v) = update (links g d) c v := by
  funext c'
  by_cases hc' : InRange g c'
  · rw [links_of_inRange hc', nextOf_setNext hg hc hc' hv]
    by_cases heq : c' = c
    · subst heq
      rw [if_pos rfl, update_self]
    · rw [if_neg heq, update_of_ne heq, links_of_inRange hc']
  · have hne : c' ≠ c := by
      rintro rfl
      exact hc' hc
    rw [update_of_ne hne, links, links, if_neg hc', if_neg hc']

theorem SameTable.links (hg : Layout g) (h : SameTable g d d') : links g d' = links g d := by
  funext c
  by_cases hc : InRange g c
  · rw [links_of_inRange hc, links_of_inRange hc, h.nextOf hg hc]
  · rw [Fat.links, Fat.links, if_neg hc, if_neg hc]

/-! ## Allocation -/

def zeroed (g : FatContext) (d : Disk) (c : Nat) : Disk := fun s =>
  if firstSector g c ≤ s ∧ s < firstSector g c + g.sectorsPerCluster then fun _ => 0 else d s

theorem zeroSectors_eq {first : Nat} (h : first + n < 2 ^ 32) (d : Disk) :
    zeroSectors first n d =
      some (.ok (), fun s => if first ≤ s ∧ s < first + n then fun _ => 0 else d s) := by
  induction n generalizing first d with
  | zero =>
    have hnone : ∀ s, ¬(first ≤ s ∧ s < first + 0) := by omega
    simp only [if_neg (hnone _)]
    rfl
  | succ n ih =>
    have hfirst : u32 first = first := Nat.mod_eq_of_lt (by omega)
    have hrun : zeroSectors first (n + 1) d =
        zeroSectors (first + 1) n (update d first fun _ => 0) := by
      rw [zeroSectors, hfirst]
      rfl
    rw [hrun, ih (by omega)]
    congr 2
    funext s
    by_cases hs : s = first
    · subst hs
      rw [if_neg (by omega), if_pos (by omega), update_self]
    · rw [update_of_ne hs]
      congr 1
      rw [eq_iff_iff]
      omega

theorem zeroCluster_eq (hg : Layout g) (hc : InRange g c) :
    zeroCluster g c d = some (.ok (), zeroed g d c) := by
  have hle := cluster_le hc
  have htotal := g.totalSectors_lt
  rw [zeroCluster, hg.clusterFirstSector_eq hc, zeroSectors_eq (by omega)]
  rfl

/-- The disk with a cluster taken: its link is a mark and its sectors are zero. -/
def taken (g : FatContext) (d : Disk) (c : Nat) : Disk := zeroed g (setNext g d c fatEoc) c

theorem sameTable_zeroed : SameTable g d (zeroed g d c) := by
  intro s hs
  rw [zeroed, if_neg]
  rintro ⟨hlow, -⟩
  unfold firstSector at hlow
  omega

theorem zeroed_data (hc : InRange g c) (hc' : InRange g c') (hne : c' ≠ c)
    (hs : InCluster g c' s) : zeroed g d c s = d s := by
  rw [zeroed, if_neg]
  intro hin
  exact hne (hs.unique hin hc'.1 hc.1)

theorem allocateFrom_cases (hg : Layout g) (hc : 2 ≤ c) (hn : c + n ≤ g.clusterCount + 2)
    (d : Disk) :
    (∃ x, InRange g x ∧ links g d x = 0 ∧ allocateFrom g c n d = some (.ok x, taken g d x)) ∨
      allocateFrom g c n d = some (.error .noMemory, d) := by
  induction n generalizing c with
  | zero => exact .inr rfl
  | succ n ih =>
    have hrange : InRange g c := ⟨hc, by omega⟩
    have hentry := @fatEntry_eq g d c hg hrange
    by_cases hfree : nextOf g d c = 0
    · refine .inl ⟨c, hrange, by rw [links_of_inRange hrange, hfree], ?_⟩
      have hset := @setFatEntry_eq g d c fatEoc hg hrange
      have hzero := @zeroCluster_eq g (setNext g d c fatEoc) c hg hrange
      simp only [allocateFrom, Prog.bind_apply, Prog.query, hentry, hfree, Option.map_some, if_true,
        hset, hzero, Prog.pure_apply, taken]
    · have hrun : allocateFrom g c (n + 1) d = allocateFrom g (c + 1) n d := by
        simp only [allocateFrom, Prog.bind_apply, Prog.query, hentry, Option.map_some, if_neg hfree]
      rw [hrun]
      exact ih (by omega) (by omega)

/-- A free cluster is taken, or there is none to take and nothing changes. -/
theorem allocateCluster_cases (hg : Layout g) (d : Disk) :
    (∃ x, InRange g x ∧ links g d x = 0 ∧ allocateCluster g d = some (.ok x, taken g d x)) ∨
      allocateCluster g d = some (.error .noMemory, d) := by
  have hmarks := hg.marks
  have hcount : u32 (g.clusterCount + 2) - 2 = g.clusterCount := by
    unfold u32
    omega
  exact allocateFrom_cases hg (by omega) (by omega) d

end RadKernel.Fat
