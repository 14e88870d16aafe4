import RadKernel.Ext4.Tree

/-!
# How large a directory grows

An inode has room for four extents, and `set_inode_block` adds to no tree that is deeper. So a directory
to which a name is added stays far below `2 ^ 32` bytes, when the format left no blocks behind the end of
a deeper one.
-/

namespace RadKernel.Ext4

open Kernel Ownership Prog

variable {g : Geometry} {init : Nat → Area}
  {d d' : Disk} {l m n b : Nat} {I I' J : Inode} {name : List UInt8} {es : List (List Entry)}

/-- The records of a leaf in the inode: at most four, and their lengths have 16 bits. -/
def Area.Fits (area : Area) : Prop := ∀ node, area = .extents node → node.depth = 0 →
  node.max ≤ 4 ∧ node.records.length ≤ 4 ∧ ∀ e ∈ node.records, e.len < 2 ^ 16

/-- The inode maps what fits into it; a deeper tree maps no block behind the end of the file. -/
structure Compact (g : Geometry) (d : Disk) (I : Inode) : Prop where
  fits : I.area.Fits
  behind : I.area.IsIndex → ∀ l b, I.size ≤ l * g.blockSize →
    fileBlockNumber I l d = some (.ok b) → b = 0

/-! ## The records of a leaf -/

theorem extendExtent_fits {records records' : List Extent}
    (h : extendExtent l b records = some records') (hfits : ∀ e ∈ records, e.len < 2 ^ 16) :
    records'.length = records.length ∧ ∀ e ∈ records', e.len < 2 ^ 16 := by
  induction records generalizing records' with
  | nil => cases h
  | cons e records ih =>
    obtain ⟨he, hrest⟩ := List.forall_mem_cons.1 hfits
    unfold extendExtent at h
    split at h
    case isTrue hend =>
      cases h
      have hlen : e.count + 1 < 2 ^ 16 := by omega
      exact ⟨rfl, List.forall_mem_cons.2 ⟨hlen, hrest⟩⟩
    case isFalse =>
      obtain ⟨rest, hrec, rfl⟩ := Option.map_eq_some_iff.1 h
      obtain ⟨hlength, hall⟩ := ih hrec hrest
      exact ⟨congrArg (· + 1) hlength, List.forall_mem_cons.2 ⟨he, hall⟩⟩

theorem setInodeBlock_fits (h : setInodeBlock g I l b = .ok I') (hfits : I.area.Fits) :
    I'.area.Fits := by
  unfold setInodeBlock at h
  split at h
  · cases h
  case h_2 node harea =>
    split at h
    · cases h
    case isFalse hnode =>
      have hdepth : node.depth = 0 := by
        by_contra hdeep
        exact hnode (.inr hdeep)
      obtain ⟨hmax, hlength, hall⟩ := hfits node harea hdepth
      split at h
      case h_1 records hext =>
        cases h
        rintro _ ⟨⟩ -
        obtain ⟨hsame, hall'⟩ := extendExtent_fits hext hall
        exact ⟨hmax, hsame ▸ hlength, hall'⟩
      case h_2 =>
        split at h
        · cases h
        case isFalse hroom =>
          cases h
          rintro _ ⟨⟩ -
          have hperm := insertExtent_perm ⟨l, 1, u16 (b / 2 ^ 32), u32 b⟩ node.records
          refine ⟨hmax, ?_, fun e he => ?_⟩
          · have hcount := hperm.length_eq
            rw [List.length_cons] at hcount
            show (insertExtent _ node.records).length ≤ 4
            omega
          · rcases List.mem_cons.1 (hperm.mem_iff.1 he) with rfl | he
            · exact (by decide : 1 < 2 ^ 16)
            · exact hall e he

theorem fits_stable : Stable g n fun s =>
    Working g init (fun _ => True) n m J s ∧ s.1.area.Fits := by
  refine stable_of_work (fun hw h hx => ?_) (fun _ _ h _ => h) (fun h harea _ _ => harea ▸ h)
    fun h => h
  cases ensureInodeBlock_step hx with
  | unreadable => exact h
  | found => exact h
  | full => exact h
  | refused => exact h
  | added hfile hfree hset => exact setInodeBlock_fits hset h

/-! ## Deeper trees -/

theorem index_stable {area : Area} (hindex : area.IsIndex)
    (map : Nat → Option (Except Status Nat)) : Stable g n fun s =>
      Working g init (fun _ => True) n m J s ∧
        s.1.area = area ∧ ∀ l, fileBlockNumber s.1 l s.2 = map l := by
  refine stable_of_work (fun {l I d r I' d'} hw h hx => ?_) (fun {I d p b} f hw h hp => ?_)
    (fun {I I' d} h harea _ _ => ⟨harea.trans h.1, fun l => ?_⟩)
    fun {I d} h => ⟨h.1, fun l => ?_⟩
  · cases ensureInodeBlock_step hx with
    | unreadable => exact h
    | found => exact h
    | full => exact h
    | @refused group i status hfile hfree hset =>
      refine ⟨h.1, fun l => (fileBlockNumber_congr fun q x hq => ?_).trans (h.2 l)⟩
      rw [release_blocks]
      exact (takeBlock_keeps hfree (hw.copy.isMarked ⟨true, hq⟩)).2.1
    | @added group i I' hfile hfree hset =>
      have hlt := (findFreeBlock_some hfree).1
      obtain ⟨hnot, -⟩ := setInodeBlock_leaf hset (by have := g.totalBlocks_lt; omega)
        (hw.free_not_mem hfree)
      exact absurd (h.1 ▸ hindex) hnot
  · refine ⟨h.1, fun l => (fileBlockNumber_congr fun q x hq => ?_).trans (h.2 l)⟩
    have hne : x ≠ b := by
      rintro rfl
      exact hw.copyIndex.not_index_ref hw.copyIndex (fun p q hp hq => hw.copy.unique hp hq) hp hq
    exact Function.update_of_ne hne ..
  · rw [← h.2 l]
    unfold fileBlockNumber
    rw [harea]
  · rw [← h.2 l]
    exact fileBlockNumber_congr fun _ _ _ => rfl

/-! ## The size -/

theorem leafBlocks_length_le {records : List Extent} (h : ∀ e ∈ records, e.len < 2 ^ 16) :
    (leafBlocks records).length ≤ records.length * 2 ^ 16 := by
  induction records with
  | nil => exact Nat.le_refl 0
  | cons e records ih =>
    obtain ⟨he, hrest⟩ := List.forall_mem_cons.1 h
    have hlen : e.length ≤ e.len := by
      unfold Extent.length
      split <;> omega
    have hcount := ih hrest
    rw [leafBlocks, List.flatMap_cons, List.length_append, List.length_cons]
    simp only [Extent.blocks, List.length_range']
    unfold leafBlocks at hcount
    omega

theorem Area.Fits.leaf_length (h : Area.Fits I.area) : I.area.leaf.length ≤ 2 ^ 18 := by
  cases harea : I.area with
  | raw => exact Nat.zero_le _
  | extents node =>
    unfold Area.leaf
    dsimp only
    split
    case isTrue hleaf =>
      obtain ⟨-, hlength, hall⟩ := h node harea hleaf.2
      have hcount := leafBlocks_length_le hall
      omega
    case isFalse => exact Nat.zero_le _

section
variable (h : DirHolds g d I es) (hw : Writable g init n (I, d)) (hnot : ¬I.area.IsIndex)
include h hw hnot

/-- The blocks of a directory without index nodes are blocks of its leaf. -/
theorem DirHolds.length_le_leaf : es.length ≤ I.area.leaf.length := by
  have hblock : ∀ l, ∃ b, l < es.length → fileBlockNumber I l d = some (.ok b) ∧ b ≠ 0 := by
    intro l
    by_cases hl : l < es.length
    · obtain ⟨b, hb, hb0, -⟩ := h.block l _ (List.getElem?_eq_getElem hl)
      exact ⟨b, fun _ => ⟨hb, hb0⟩⟩
    · exact ⟨0, fun hlt => absurd hlt hl⟩
  choose f hf using hblock
  have hmaps : ∀ l ∈ Finset.range es.length, f l ∈ I.area.leaf.toFinset := by
    intro l hl
    obtain ⟨hfile, hb⟩ := hf l (Finset.mem_range.1 hl)
    obtain ⟨q, hq⟩ := fileBlockNumber_ref hfile hb
    exact List.mem_toFinset.2 (mem_of_ofList ((areaRefs_iff_leaf hnot).1 ⟨false, hq⟩))
  have hinj : Set.InjOn f (Finset.range es.length) := by
    intro l hl l' hl' heq
    obtain ⟨hfile, hb⟩ := hf l (by simpa using hl)
    obtain ⟨hfile', -⟩ := hf l' (by simpa using hl')
    exact hw.inj hfile (heq ▸ hfile') hb
  have hcard := Finset.card_le_card_of_injOn f hmaps hinj
  rw [Finset.card_range] at hcard
  exact hcard.trans (List.toFinset_card_le _)

theorem DirHolds.size_le (hfits : I.area.Fits) : I.size ≤ 2 ^ 30 := by
  have hblock := g.blockSize_eq
  have hlength := (h.length_le_leaf hw hnot).trans hfits.leaf_length
  have hmul := Nat.mul_le_mul hlength (show g.blockSize ≤ 2 ^ 12 by omega)
  rw [h.size]
  omega

end

/-! ## The calls -/

namespace Compact

theorem of_leaf (hfits : I.area.Fits) (hnot : ¬I.area.IsIndex) : Compact g d I :=
  ⟨hfits, fun hindex => absurd hindex hnot⟩

theorem congr (h : Compact g d I) (harea : I'.area = I.area) (hsize : I'.size = I.size)
    (hblocks : d'.blocks = d.blocks) : Compact g d' I' := by
  refine ⟨harea ▸ h.fits, fun hindex l b hl hfile => ?_⟩
  have hcopy : fileBlockNumber I' l = fileBlockNumber I l := by
    unfold fileBlockNumber
    rw [harea]
  have hdisk : fileBlockNumber I l d' = fileBlockNumber I l d :=
    fileBlockNumber_congr fun _ _ _ => by rw [hblocks]
  rw [hcopy, hdisk] at hfile
  exact h.behind (harea ▸ hindex) l b (hsize ▸ hl) hfile

theorem of_leaves (h : Compact g d (d.inodes l)) (hleaves : Leaves g n d d') (hl : l ≠ n) :
    Compact g d' (d'.inodes l) := by
  have hsame := hleaves.inode l hl
  refine ⟨hsame ▸ h.fits, fun hindex i b hi hfile => ?_⟩
  rw [hsame] at hindex hi
  exact h.behind hindex i b hi ((hleaves.file hl).symm.trans hfile)

variable {x : CopyM Unit} {r : Except Status Unit}

/-- The map of a deeper tree stays. -/
theorem map_eq (hindex : I.area.IsIndex)
    (hstable : ∀ {K : Inode × Disk → Prop}, Stable g n K → Triple K x (fun _ => K) fun _ => K)
    (hw : Work g init (fun _ => True) n I m J d) (hx : x (I, d) = some (r, I', d')) (l : Nat) :
    fileBlockNumber I' l d' = fileBlockNumber I l d := by
  obtain ⟨-, -, hmap⟩ := working_of_run (@index_stable g init m n J I.area hindex
    fun l => fileBlockNumber I l d) hstable hw ⟨rfl, fun _ => rfl⟩ hx
  exact hmap l

/-- The programs on a directory keep its map as the format has it, as long as those on a deeper tree
leave the size alone. -/
theorem of_run (h : Compact g d I)
    (hstable : ∀ {K : Inode × Disk → Prop}, Stable g n K → Triple K x (fun _ => K) fun _ => K)
    (hw : Work g init (fun _ => True) n I m J d) (hx : x (I, d) = some (r, I', d'))
    (hsize : I.area.IsIndex → I'.size = I.size) : Compact g d' I' := by
  obtain ⟨hw', hfits⟩ := working_of_run (@fits_stable g init m n J) hstable hw h.fits hx
  refine ⟨hfits, fun hindex' l b hl hfile => ?_⟩
  -- the tree was deeper before as well
  have hindex : I.area.IsIndex := by
    have hfirst := hw'.copyIndex (.inl hindex')
    have hsame := hw.copyIndex (.inr (hfirst ▸ hindex'))
    rwa [hsame, ← hfirst]
  rw [hsize hindex] at hl
  exact h.behind hindex l b hl ((map_eq hindex hstable hw hx l).symm.trans hfile)

/-- A name is added: a deeper tree has room for it, and others stay small. -/
theorem added {fileType : Nat} (h : Compact g d I) (hn : n ≠ 0)
    (hstate : DirState g init n es (I, d)) (hne : es ≠ []) (hsmall : I.size < 2 ^ 32)
    (habsent : name ∉ es.flatten.keys) (hpos : 0 < m) (hm : m < 2 ^ 32)
    (hx : addDirent g n m name fileType (I, d) = some (.ok (), I', d')) :
    Compact g d' I' ∧ I'.size < 2 ^ 32 := by
  obtain ⟨es', hstate', -, -, hgrown⟩ := addDirent_ok hn hstate hne hsmall habsent hpos hm hx
  have hw := hstate.writable.work
  have hdeep : I.area.IsIndex → I' = I := by
    intro hindex
    refine hgrown.resolve_right fun hmore => ?_
    -- the new block would be one behind the end
    have hcount : es'.length = es.length + 1 := by
      refine Nat.eq_of_mul_eq_mul_right g.blockSize_pos ?_
      have hold : I.size = es.length * g.blockSize := hstate.holds.size
      have hnew : I'.size = es'.length * g.blockSize := hstate'.holds.size
      rw [← hnew, hmore.1, hold, Nat.add_mul, Nat.one_mul]
    obtain ⟨b, hb, hb0, -⟩ := hstate'.holds.block es.length _ (List.getElem?_eq_getElem (by omega))
    have hmap := map_eq hindex (fun hs => hs.addDirent) hw hx es.length
    exact hb0 (h.behind hindex es.length b hstate.holds.size.le (hmap.symm.trans hb))
  refine ⟨h.of_run (fun hs => hs.addDirent) hw hx fun hindex => by rw [hdeep hindex], ?_⟩
  by_cases hindex : I.area.IsIndex
  · rwa [hdeep hindex]
  · have hblock := g.blockSize_eq
    have hsize : I.size ≤ 2 ^ 30 := hstate.holds.size_le hstate.writable hindex h.fits
    rcases hgrown with hsame | ⟨hmore, -⟩
    · rwa [hsame]
    · omega

end Compact

end RadKernel.Ext4
