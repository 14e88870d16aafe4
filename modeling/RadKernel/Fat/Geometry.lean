import RadKernel.Fat.Table

/-!
# The geometry that the mount accepts

Where the links and the sectors of a cluster lie as the code computes them, with all 32-bit
computations as they are. `x86_fat_mount` does not compare the size of the table with the number of
clusters.
-/

namespace RadKernel.Fat

open Kernel Buffer

variable {g : FatContext} {d : Disk} {c v : Nat}

/-! ## Places -/

section

variable (g : FatContext)

/-- The sector and the offset of a link in a copy of the table. -/
def linkPlace (fat c : Nat) : Nat × Nat :=
  (u32 (g.reservedSectors + u32 (fat * g.fatSize) + u32 (c * 4) / sectorSize),
    u32 (c * 4) % sectorSize)

/-- The sector `k` of a cluster. -/
def dataSector (c k : Nat) : Nat := u32 (clusterFirstSector g c + k)

/-- The link that `fat_entry` reads. -/
def linkAt (d : Disk) (c : Nat) : Nat := le32 (d (linkPlace g 0 c).1) (linkPlace g 0 c).2 % 2 ^ 28

/-- The disk with a link written at the given places. -/
def stamp (d : Disk) (data : List UInt8) : List (Nat × Nat) → Disk
  | [] => d
  | p :: ps => stamp (Function.update d p.1 (store (d p.1) p.2 data)) data ps

def linkPlaces (c : Nat) : List (Nat × Nat) := (List.range g.fatCount).map (linkPlace g · c)

end

theorem fatEntry_apply (hc : 2 ≤ c) : fatEntry g c d = some (.ok (linkAt g d c)) := by
  have hplace : linkPlace g 0 c =
      (u32 (g.reservedSectors + u32 (c * 4) / sectorSize), u32 (c * 4) % sectorSize) := by
    simp [linkPlace, u32]
  rw [fatEntry, if_neg (by omega), linkAt, hplace]
  rfl

theorem fatEntry_low (hc : c < 2) : fatEntry g c d = some (.error .invalidArgument) := by
  rw [fatEntry, if_pos hc]
  rfl

theorem setFatEntry_apply (hc : 2 ≤ c) :
    setFatEntry g c v d = some (.ok (), stamp d (le32Bytes (v % 2 ^ 28)) (linkPlaces g c)) := by
  rw [setFatEntry, if_neg (by omega), linkPlaces]
  generalize List.range g.fatCount = fats
  induction fats generalizing d with
  | nil => rfl
  | cons fat fats ih => exact ih

/-! ## Soundness -/

/-- Every link of a cluster is in its copy of the table, every sector of a cluster is behind the
tables and before the end of the volume, and no computation leaves 32 bits. -/
structure SoundGeometry (g : FatContext) : Prop where
  dataStart : g.reservedSectors + g.fatCount * g.fatSize < 2 ^ 32
  clusterBound : g.clusterCount + 2 < 2 ^ 32
  linkOffset : ∀ c, InRange g c → c * 4 < 2 ^ 32
  linkSector : ∀ c, InRange g c → ∀ fat < g.fatCount,
    g.reservedSectors + fat * g.fatSize + c * 4 / sectorSize < 2 ^ 32 ∧
      g.reservedSectors + fat * g.fatSize ≤ (linkPlace g fat c).1 ∧
      (linkPlace g fat c).1 < g.reservedSectors + (fat + 1) * g.fatSize
  dataSector : ∀ c, InRange g c → ∀ k < g.sectorsPerCluster,
    g.firstDataSector + (c - 2) * g.sectorsPerCluster + k < 2 ^ 32 ∧
      g.firstDataSector ≤ dataSector g c k ∧ dataSector g c k < g.totalSectors

/-- Tables and reserved sectors end within 32 bits, and a table has an entry for every cluster, at
an offset of 32 bits. -/
def TableCovers (g : FatContext) : Prop :=
  g.reservedSectors + g.fatCount * g.fatSize < 2 ^ 32 ∧
    g.clusterCount + 2 ≤ g.fatSize * (sectorSize / 4) ∧ (g.clusterCount + 1) * 4 < 2 ^ 32

instance (g : FatContext) : Decidable (TableCovers g) := inferInstanceAs (Decidable (_ ∧ _))

theorem u32_of_lt {n : Nat} (h : n < 2 ^ 32) : u32 n = n := Nat.mod_eq_of_lt h

theorem linkPlace_of_lt {fat : Nat} (hoffset : c * 4 < 2 ^ 32)
    (hsector : g.reservedSectors + fat * g.fatSize + c * 4 / sectorSize < 2 ^ 32) :
    (linkPlace g fat c).1 = g.reservedSectors + fat * g.fatSize + c * 4 / sectorSize := by
  have hcopy := Nat.le_trans (Nat.le_add_left (fat * g.fatSize) g.reservedSectors)
    (Nat.le_add_right _ (c * 4 / sectorSize))
  rw [linkPlace, u32_of_lt hoffset, u32_of_lt (Nat.lt_of_le_of_lt hcopy hsector), u32_of_lt hsector]

theorem dataSector_bounds (hc : InRange g c) {k : Nat} (hk : k < g.sectorsPerCluster) :
    g.firstDataSector + (c - 2) * g.sectorsPerCluster + k < g.totalSectors ∧
      dataSector g c k = g.firstDataSector + (c - 2) * g.sectorsPerCluster + k := by
  have hle := cluster_le hc
  have htotal := g.totalSectors_lt
  have hpos := g.sectorsPerCluster_pos
  unfold firstSector at hle
  have hcluster : c - 2 ≤ (c - 2) * g.sectorsPerCluster := Nat.le_mul_of_pos_right _ hpos
  have hge := hc.1
  have hsub : sub32 c 2 = c - 2 := by
    simp only [sub32, u32]
    omega
  refine ⟨by omega, ?_⟩
  rw [dataSector, clusterFirstSector, hsub,
    u32_of_lt (show (c - 2) * g.sectorsPerCluster < 2 ^ 32 by omega),
    u32_of_lt (show g.firstDataSector + (c - 2) * g.sectorsPerCluster < 2 ^ 32 by omega),
    u32_of_lt (by omega)]

theorem TableCovers.sound (h : TableCovers g) : SoundGeometry g := by
  obtain ⟨hfits, hcovers, hoffset⟩ := h
  have hlink : ∀ c, InRange g c → c * 4 < 2 ^ 32 ∧ c * 4 / sectorSize < g.fatSize := by
    rintro c ⟨-, hc⟩
    unfold sectorSize at *
    omega
  refine ⟨hfits, by omega, fun c hc => (hlink c hc).1, fun c hc fat hfat => ?_, fun c hc k hk => ?_⟩
  · obtain ⟨hlow, hin⟩ := hlink c hc
    have hstep : (fat + 1) * g.fatSize ≤ g.fatCount * g.fatSize := Nat.mul_le_mul_right _ hfat
    have hsucc : (fat + 1) * g.fatSize = fat * g.fatSize + g.fatSize := by
      rw [Nat.add_mul, Nat.one_mul]
    have hsector : g.reservedSectors + fat * g.fatSize + c * 4 / sectorSize < 2 ^ 32 := by
      omega
    rw [linkPlace_of_lt hlow hsector]
    exact ⟨hsector, Nat.le_add_right _ _, by rw [hsucc]; omega⟩
  · obtain ⟨hlt, heq⟩ := dataSector_bounds hc hk
    have := g.totalSectors_lt
    omega

theorem SoundGeometry.covers (h : SoundGeometry g) : TableCovers g := by
  refine ⟨h.dataStart, ?_⟩
  by_cases hnone : g.clusterCount = 0
  · have := g.fatSize_pos
    unfold sectorSize
    omega
  · -- the last cluster has the last link
    have hlast : InRange g (g.clusterCount + 1) := ⟨by omega, by omega⟩
    have hoffset := h.linkOffset _ hlast
    obtain ⟨hsector, -, hlt⟩ := h.linkSector _ hlast 0 g.fatCount_pos
    rw [linkPlace_of_lt hoffset hsector] at hlt
    unfold sectorSize at *
    omega

/-- For every boot sector that the mount accepts: the geometry is sound exactly when the table has
an entry for every cluster and the tables end within 32 bits. -/
theorem soundGeometry_iff : ∀ d g, fatMount d = .ok g → (SoundGeometry g ↔ TableCovers g) :=
  fun _ _ _ => ⟨SoundGeometry.covers, TableCovers.sound⟩

/-! ## Boot sectors -/

/-- One reserved sector, one table, and a root directory in cluster 2. -/
def bootSector (fatSize totalSectors : Nat) : Bytes :=
  [(11, le16Bytes 512), (13, [1]), (14, le16Bytes 1), (16, [1]), (32, le32Bytes totalSectors),
    (36, le32Bytes fatSize), (44, le32Bytes 2)].foldl (fun b p => store b p.1 p.2) fun _ => 0

/-- The geometry of an accepted boot sector. -/
theorem exists_mounted {P : FatContext → Bool}
    (h : (fatMount d).toOption.any P = true) : ∃ g, fatMount d = .ok g ∧ P g = true := by
  cases hmount : fatMount d with
  | error e => simp [hmount, Except.toOption] at h
  | ok g => exact ⟨g, rfl, by simpa [hmount, Except.toOption] using h⟩

/-- A table of one sector covers 100 clusters. -/
theorem soundGeometry_small :
    ∃ g, fatMount (fun _ => bootSector 1 102) = .ok g ∧ (SoundGeometry g ↔ TableCovers g) := by
  obtain ⟨g, hmount, -⟩ := exists_mounted (d := fun _ => bootSector 1 102) (P := fun _ => true)
    (by decide +kernel)
  exact ⟨g, hmount, soundGeometry_iff _ g hmount⟩

/-- With 1000 sectors and a table of one the link of cluster 130 is in the data area. -/
theorem not_soundGeometry_shortTable : ¬ ∀ d g, fatMount d = .ok g → SoundGeometry g := by
  intro hall
  obtain ⟨g, hmount, hlong⟩ := exists_mounted (d := fun _ => bootSector 1 1000)
    (P := fun g => !decide (TableCovers g)) (by decide +kernel)
  have hcovers := (hall _ g hmount).covers
  simp [hcovers] at hlong

end RadKernel.Fat
