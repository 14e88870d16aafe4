import RadKernel.Ext4.OwnedCalls

/-!
# The block map of a file

`file_block_number` as a map from the logical blocks of a file to blocks of the volume.
Blocks named once make the map injective; `set_inode_block` changes it at one place, as
long as no extent reaches the logical block `2 ^ 32 - 1`: the end of such an extent is
`2 ^ 32`, which is zero in the 32 bits it is computed in.
-/

namespace RadKernel.Ext4

open Kernel Ownership Prog List

variable {g : Geometry} {init : Nat → Area} {d d' : Disk} {I I' : Inode}
  {n logical physical l b c x : Nat} {node : Node} {es : List Extent}

/-! ## Reading the map -/

/-- The logical block at a position of the blocks of a leaf. -/
def leafLogical : List Extent → Nat → Option Nat
  | [], _ => none
  | e :: es, j => if j < e.length then some (e.block + j) else leafLogical es (j - e.length)

/-- The logical block a position of a tree stands for. -/
def logicalAt (blocks : Nat → Nat → UInt8) : List Nat → Node → Option Nat
  | [], _ => none
  | i :: p, node =>
    if node.depth = 0 then leafLogical node.records i
    else node.records[i]?.bind fun r => logicalAt blocks p (parseNode (blocks r.leaf))

theorem Extent.length_blocks (e : Extent) : e.blocks.length = e.length := length_range'

theorem mapped_at (h : mapped es l ≠ 0) :
    ∃ j, (leafBlocks es)[j]? = some (mapped es l) ∧ leafLogical es j = some l := by
  induction es with
  | nil => exact absurd rfl h
  | cons e es ih =>
    simp only [leafBlocks, flatMap_cons]
    unfold mapped at h ⊢
    split
    case isTrue hcover =>
      have hend := u32_le (e.block + e.count)
      have hcount := e.count_le_length
      have hj : l - e.block < e.length := by omega
      refine ⟨l - e.block, ?_, ?_⟩
      · rw [List.getElem?_append_left (by rwa [e.length_blocks]), Extent.blocks,
          List.getElem?_range' hj, Nat.one_mul]
      · rw [leafLogical, if_pos hj]
        congr 1
        omega
    case isFalse hno =>
      rw [if_neg hno] at h
      obtain ⟨j, hb, hl⟩ := ih h
      refine ⟨e.length + j, ?_, ?_⟩
      · rw [List.getElem?_append_right (by rw [e.length_blocks]; omega), e.length_blocks,
          Nat.add_sub_cancel_left]
        exact hb
      · rw [leafLogical, if_neg (by omega), Nat.add_sub_cancel_left]
        exact hl

variable {fuel group i : Nat} {early es' : List Extent}

theorem extentBlockNumberFromNode_at
    (h : extentBlockNumberFromNode fuel node l d = some (.ok b)) (hb : b ≠ 0) :
    ∃ p, RefAt d.blocks node false p b ∧ logicalAt d.blocks p node = some l := by
  induction fuel generalizing node with
  | zero => cases h
  | succ fuel ih =>
    unfold extentBlockNumberFromNode at h
    split at h
    · cases h
    case isFalse hmagic =>
      rw [not_not] at hmagic
      split at h
      case isTrue hdepth =>
        cases h
        obtain ⟨j, hj, hl⟩ := mapped_at hb
        exact ⟨[j], .data hmagic hdepth hj, by simp [logicalAt, hdepth, hl]⟩
      case isFalse hdepth =>
        cases hbest : bestIndex node.records l with
        | none =>
          rw [hbest] at h
          cases h
          exact absurd rfl hb
        | some best =>
          rw [hbest] at h
          obtain ⟨i, hi⟩ := bestIndex_mem hbest
          obtain ⟨p, hp, hl⟩ := ih h
          exact ⟨i :: p, .child hmagic hdepth hi hp, by simp [logicalAt, hdepth, hi, hl]⟩

theorem fileBlockNumber_at (h : fileBlockNumber I l d = some (.ok b)) (hb : b ≠ 0) :
    ∃ node p, I.area = .extents node ∧ RefAt d.blocks node false p b ∧
      logicalAt d.blocks p node = some l := by
  unfold fileBlockNumber at h
  cases harea : I.area with
  | raw =>
    rw [harea] at h
    cases h
  | extents node =>
    rw [harea] at h
    obtain ⟨p, hp, hl⟩ := extentBlockNumberFromNode_at h hb
    exact ⟨node, p, rfl, hp, hl⟩

/-- Blocks named once are mapped once. -/
theorem fileBlockNumber_inj
    (hunique : ∀ p q, areaRefs d.blocks I.area p b → areaRefs d.blocks I.area q b → p = q)
    (h : fileBlockNumber I l d = some (.ok b)) (h' : fileBlockNumber I logical d = some (.ok b))
    (hb : b ≠ 0) : l = logical := by
  obtain ⟨node, p, harea, hp, hl⟩ := fileBlockNumber_at h hb
  obtain ⟨node', q, harea', hq, hl'⟩ := fileBlockNumber_at h' hb
  obtain rfl : node = node' := by simpa [harea] using harea'
  obtain rfl := hunique p q ⟨_, node, harea, hp⟩ ⟨_, node, harea, hq⟩
  exact Option.some.inj (hl.symm.trans hl')

theorem extentBlockNumberFromNode_congr
    (h : ∀ p x, RefAt d.blocks node true p x → d'.blocks x = d.blocks x) :
    extentBlockNumberFromNode fuel node l d' = extentBlockNumberFromNode fuel node l d := by
  induction fuel generalizing node with
  | zero => rfl
  | succ fuel ih =>
    unfold extentBlockNumberFromNode
    split
    · rfl
    case isFalse hmagic =>
      rw [not_not] at hmagic
      split
      · rfl
      case isFalse hdepth =>
        cases hbest : bestIndex node.records l with
        | none => rfl
        | some best =>
          obtain ⟨i, hi⟩ := bestIndex_mem hbest
          have hleaf := h [i] best.leaf (.index hmagic hdepth hi)
          simp only [Query.bind_apply, Query.read_apply, hleaf]
          exact ih fun p x hx => h (i :: p) x (.child hmagic hdepth hi hx)

/-- The map depends on the index nodes of the tree only. -/
theorem fileBlockNumber_congr
    (h : ∀ p x, AreaRef d.blocks I.area true p x → d'.blocks x = d.blocks x) :
    fileBlockNumber I l d' = fileBlockNumber I l d := by
  unfold fileBlockNumber
  cases harea : I.area with
  | raw => rfl
  | extents node =>
    exact extentBlockNumberFromNode_congr fun p x hx => h p x ⟨node, harea, hx⟩

/-- Without index nodes the map reads the extents. -/
theorem fileBlockNumber_leaf (harea : I.area = .extents node)
    (hmagic : node.magic = extentHeaderMagic) (hdepth : node.depth = 0) :
    fileBlockNumber I l d = some (.ok (mapped node.records l)) := by
  simp [fileBlockNumber, harea, nodeFuel, extentBlockNumberFromNode, hmagic, hdepth]

/-! ## Changing the map -/

/-- The test of the search loop. -/
def Extent.Covers (e : Extent) (l : Nat) : Prop := e.block ≤ l ∧ l < u32 (e.block + e.count)

instance (e : Extent) : Decidable (e.Covers l) :=
  inferInstanceAs (Decidable (e.block ≤ l ∧ l < u32 (e.block + e.count)))

theorem mapped_cons (e : Extent) : mapped (e :: es) l =
    if e.Covers l then e.start + (l - e.block) else mapped es l := rfl

/-- Where nothing is mapped no extent covers, as no extent starts at block zero. -/
theorem not_covers_of_hole (hzero : 0 ∉ leafBlocks es) (h : mapped es l = 0) :
    ∀ e ∈ es, ¬e.Covers l := by
  induction es with
  | nil => simp
  | cons e es ih =>
    simp only [leafBlocks, flatMap_cons, mem_append, not_or] at hzero
    rw [mapped_cons] at h
    have hno : ¬e.Covers l := by
      intro hcover
      rw [if_pos hcover] at h
      obtain ⟨hle, hlt⟩ := hcover
      have := u32_le (e.block + e.count)
      have := e.count_le_length
      exact hzero.1 (Extent.mem_blocks.2 (by omega))
    rw [if_neg hno] at h
    intro e' he'
    rcases List.mem_cons.1 he' with rfl | he'
    · exact hno
    · exact ih hzero.2 h e' he'

theorem mapped_append_of_not_covers (h : ∀ e ∈ early, ¬e.Covers l) :
    mapped (early ++ es) l = mapped es l := by
  induction early with
  | nil => rfl
  | cons e early ih =>
    rw [cons_append, mapped_cons, if_neg (h e mem_cons_self)]
    exact ih fun e' he' => h e' (mem_cons_of_mem _ he')

theorem mapped_congr_append (h : mapped es l = mapped es' l) :
    mapped (early ++ es) l = mapped (early ++ es') l := by
  induction early with
  | nil => exact h
  | cons e early ih => simp only [cons_append, mapped_cons, ih]

theorem mapped_extend (hext : extendExtent logical physical es = some es')
    (hhole : ∀ e ∈ es, ¬e.Covers logical) (hends : ∀ e ∈ es, e.block + e.count < 2 ^ 32)
    (hlast : logical + 1 < 2 ^ 32) (hfresh : physical ∉ leafBlocks es) :
    mapped es' l = if l = logical then physical else mapped es l := by
  induction es generalizing es' with
  | nil => cases hext
  | cons e es ih =>
    unfold extendExtent at hext
    simp only [leafBlocks, flatMap_cons, mem_append, not_or] at hfresh
    have hend : u32 (e.block + e.count) = e.block + e.count :=
      Nat.mod_eq_of_lt (hends e mem_cons_self)
    split at hext
    case isTrue hfit =>
      cases hext
      have hnew : ({ e with len := e.count + 1 } : Extent).count = e.count + 1 := by
        show (e.count + 1) % 2 ^ 15 = e.count + 1
        exact Nat.mod_eq_of_lt (by omega)
      have hsame : ({ e with len := e.count + 1 } : Extent).start = e.start := rfl
      have hnewEnd : u32 (e.block + (e.count + 1)) = e.block + (e.count + 1) :=
        Nat.mod_eq_of_lt (by omega)
      have hcovers : ({ e with len := e.count + 1 } : Extent).Covers l ↔
          e.block ≤ l ∧ l < e.block + (e.count + 1) := by
        simp only [Extent.Covers, hnew, hnewEnd]
      have hcovered : e.Covers l ↔ e.block ≤ l ∧ l < e.block + e.count := by
        simp only [Extent.Covers, hend]
      rw [mapped_cons, mapped_cons, hsame]
      -- only the block behind the old end changes sides
      by_cases hl : l = logical
      · rw [if_pos (hcovers.2 (by omega)), if_pos hl]
        simp only
        omega
      · rw [if_neg hl]
        by_cases hin : e.Covers l
        · rw [if_pos (hcovers.2 (by rw [hcovered] at hin; omega)), if_pos hin]
        · rw [if_neg fun h => hin (hcovered.2 (by rw [hcovers] at h; omega)), if_neg hin]
    case isFalse =>
      obtain ⟨rest, hrest, rfl⟩ := Option.map_eq_some_iff.1 hext
      rw [mapped_cons, mapped_cons, ih hrest (fun e' he' => hhole e' (mem_cons_of_mem _ he'))
        (fun e' he' => hends e' (mem_cons_of_mem _ he')) hfresh.2]
      by_cases hl : l = logical
      · subst hl
        rw [if_neg (hhole e mem_cons_self)]
        simp
      · simp [hl]

theorem newExtent_eq (hphysical : physical < 2 ^ 32) :
    (⟨logical, 1, u16 (physical / 2 ^ 32), u32 physical⟩ : Extent) = ⟨logical, 1, 0, physical⟩ := by
  simp only [u16, u32, Nat.div_eq_of_lt hphysical, Nat.mod_eq_of_lt hphysical, Nat.zero_mod]

theorem insertExtent_eq (e : Extent) (es : List Extent) :
    ∃ early later, es = early ++ later ∧ insertExtent e es = early ++ e :: later :=
  ⟨_, _, List.rdropWhile_append_rtakeWhile.symm, rfl⟩

theorem mapped_insert (hhole : ∀ e ∈ es, ¬e.Covers logical) (hlast : logical + 1 < 2 ^ 32) :
    mapped (insertExtent ⟨logical, 1, 0, physical⟩ es) l =
      if l = logical then physical else mapped es l := by
  have hend : u32 (logical + 1) = logical + 1 := Nat.mod_eq_of_lt hlast
  have hone : ∀ later, mapped (⟨logical, 1, 0, physical⟩ :: later) l =
      if l = logical then physical else mapped later l := by
    intro later
    have hcount : (⟨logical, 1, 0, physical⟩ : Extent).count = 1 := rfl
    have hcovers : (⟨logical, 1, 0, physical⟩ : Extent).Covers l ↔ l = logical := by
      simp only [Extent.Covers, hcount, hend]
      omega
    rw [mapped_cons, if_congr hcovers rfl rfl]
    by_cases hl : l = logical
    · simp [hl, Extent.start]
    · simp [hl]
  obtain ⟨early, later, rfl, hinsert⟩ := insertExtent_eq ⟨logical, 1, 0, physical⟩ es
  rw [hinsert]
  by_cases hl : l = logical
  · subst hl
    rw [mapped_append_of_not_covers fun e he => hhole e (mem_append_left _ he), hone]
    simp
  · rw [if_neg hl]
    refine mapped_congr_append ?_
    rw [hone, if_neg hl]

/-- The ends of the extents in a leaf fit into 32 bits. -/
def Area.EndsInRange (area : Area) : Prop :=
  ∀ node, area = .extents node → node.depth = 0 → ∀ e ∈ node.records, e.block + e.count < 2 ^ 32

theorem extendExtent_ends (h : extendExtent logical physical es = some es')
    (hends : ∀ e ∈ es, e.block + e.count < 2 ^ 32) (hlast : logical + 1 < 2 ^ 32) :
    ∀ e ∈ es', e.block + e.count < 2 ^ 32 := by
  induction es generalizing es' with
  | nil => cases h
  | cons e es ih =>
    have hend := hends e mem_cons_self
    have hrest : ∀ e' ∈ es, e'.block + e'.count < 2 ^ 32 := fun e' he' =>
      hends e' (mem_cons_of_mem _ he')
    unfold extendExtent at h
    split at h
    case isTrue hfit =>
      cases h
      rw [show u32 (e.block + e.count) = e.block + e.count from Nat.mod_eq_of_lt hend] at hfit
      intro e' he'
      rcases List.mem_cons.1 he' with rfl | he'
      · show e.block + (e.count + 1) % 2 ^ 15 < 2 ^ 32
        omega
      · exact hrest e' he'
    case isFalse =>
      obtain ⟨rest, hrec, rfl⟩ := Option.map_eq_some_iff.1 h
      intro e' he'
      rcases List.mem_cons.1 he' with rfl | he'
      · exact hend
      · exact ih hrec hrest e' he'

theorem setInodeBlock_map (h : setInodeBlock g I logical physical = .ok I')
    (hphysical : physical < 2 ^ 32) (hlast : logical + 1 < 2 ^ 32)
    (hfresh : physical ∉ I.area.leaf) (hzero : 0 ∉ I.area.leaf) (hends : I.area.EndsInRange)
    (hhole : fileBlockNumber I logical d = some (.ok 0)) :
    (∀ l d', fileBlockNumber I' l d' =
      if l = logical then some (.ok physical) else fileBlockNumber I l d') ∧
    I'.area.EndsInRange ∧ I'.size = I.size ∧ I'.mode = I.mode := by
  unfold setInodeBlock at h
  split at h
  · cases h
  case h_2 node harea =>
    split at h
    · cases h
    case isFalse hnode =>
      obtain ⟨hmagic, hdepth⟩ : node.magic = extentHeaderMagic ∧ node.depth = 0 := by
        simpa [not_or] using hnode
      simp only [harea, Area.leaf, hmagic, hdepth, and_self, if_true] at hfresh hzero
      rw [fileBlockNumber_leaf harea hmagic hdepth, Option.some.injEq, Except.ok.injEq] at hhole
      have huncovered := not_covers_of_hole hzero hhole
      have hin := hends node harea hdepth
      -- both branches leave a leaf with other records
      have hmap : ∀ (records : List Extent) (J : Inode), J.area = .extents { node with records } →
          (∀ l, mapped records l = if l = logical then physical else mapped node.records l) →
          ∀ l d', fileBlockNumber J l d' =
            if l = logical then some (.ok physical) else fileBlockNumber I l d' := by
        intro records J hJ hmapped l d'
        rw [fileBlockNumber_leaf hJ hmagic hdepth, fileBlockNumber_leaf harea hmagic hdepth]
        simp only [hmapped]
        split <;> rfl
      split at h
      case h_1 records hext =>
        cases h
        refine ⟨hmap records _ rfl fun l => mapped_extend hext huncovered hin hlast hfresh,
          ?_, rfl, rfl⟩
        rintro _ ⟨⟩ -
        exact extendExtent_ends hext hin hlast
      case h_2 hext =>
        split at h
        · cases h
        · cases h
          rw [newExtent_eq hphysical]
          refine ⟨hmap _ _ rfl fun l => mapped_insert huncovered hlast, ?_, rfl, rfl⟩
          rintro _ ⟨⟩ - e he
          rcases List.mem_cons.1 ((insertExtent_perm _ _).mem_iff.1 he) with rfl | he
          · exact hlast
          · exact hin e he

/-! ## Writing through a copy -/

/-- Block zero, which holds the superblock or lies before it, is never given out. -/
def ZeroTaken (g : Geometry) (d : Disk) : Prop := 0 < g.firstDataBlock ∨ blockBit g d 0 = true

theorem ZeroTaken.ne (h : ZeroTaken g d)
    (hfree : findFreeBlock g d = some (group, i)) : g.blockNumber group i ≠ 0 := by
  intro hb
  rcases h with hfirst | hbit
  · unfold Geometry.blockNumber at hb
    omega
  · have hclear := blockBit_free hfree
    rw [hb, hbit] at hclear
    cases hclear

/-- The file of inode `n` can be written to through the copy: its blocks are marked and
named once, none of them is block zero, and its extents end within 32 bits. -/
structure Writable (g : Geometry) (init : Nat → Area) (n : Nat) (s : Inode × Disk) : Prop where
  sound : Good g init s.2
  copy : HeldCopy g s.2 n s.1
  index : SameIndex (init n) s.1.area
  ends : s.1.area.EndsInRange
  unnamed : ∀ p, ¬areaRefs s.2.blocks s.1.area p 0
  zero : ZeroTaken g s.2

namespace Writable

theorem work (h : Writable g init n (I, d)) : Work g init (fun _ => True) n I n I d :=
  .single h.sound (fun _ _ => trivial) h.copy h.index

variable {q : List Nat}

section
variable (h : Writable g init n (I, d))
include h

theorem unique {p : List Nat} (hp : areaRefs d.blocks I.area p b)
    (hq : areaRefs d.blocks I.area q b) : p = q := h.copy.unique hp hq

theorem inj (hl : fileBlockNumber I l d = some (.ok b))
    (hl' : fileBlockNumber I logical d = some (.ok b)) (hb : b ≠ 0) : l = logical :=
  fileBlockNumber_inj (fun _ _ => h.unique) hl hl' hb

theorem not_index (hl : fileBlockNumber I l d = some (.ok b))
    (hb : b ≠ 0) : ¬AreaRef d.blocks I.area true q b := by
  intro hq
  obtain ⟨p, hp⟩ := fileBlockNumber_ref hl hb
  obtain rfl := h.unique ⟨_, hp⟩ ⟨_, hq⟩
  cases hp.kind_eq hq

theorem setCopy (harea : I'.area = I.area) :
    Writable g init n (I', d) where
  sound := h.sound
  copy := by
    unfold HeldCopy
    rw [harea]
    exact h.copy
  index := harea ▸ h.index
  ends := by
    rw [harea]
    exact h.ends
  unnamed := by
    rw [harea]
    exact h.unnamed
  zero := h.zero

theorem write (hl : fileBlockNumber I l d = some (.ok b))
    (hb : b ≠ 0) (f : Nat → UInt8) : Writable g init n (I, d.setBlock b f) ∧
      ∀ l', fileBlockNumber I l' (d.setBlock b f) = fileBlockNumber I l' d := by
  obtain ⟨p, hp⟩ := fileBlockNumber_ref hl hb
  have hwork := h.work.write (f := f) hp
  refine ⟨⟨hwork.sound, hwork.copy, h.index, h.ends, ?_, h.zero⟩, ?_⟩
  · intro q hq
    exact h.unnamed q (areaRefs_of_update (fun _ => h.not_index hl hb) hq)
  · intro l'
    refine fileBlockNumber_congr fun q x hx => ?_
    exact Function.update_of_ne (by rintro rfl; exact h.not_index hl hb hx) ..

theorem commit : Writable g init n (I, d.setInode n I) :=
  ⟨h.work.commit.sound, h.work.commit.copy, h.index, h.ends, h.unnamed, h.zero⟩

end

end Writable

/-- What `ensure_inode_block` leaves when it returns a block: it was there, or it is a block
of zeros that no part of the file named before. -/
inductive Ensured (g : Geometry) (logical : Nat) (I : Inode) (d : Disk) (b : Nat) :
    Inode → Disk → Prop
  | found (hfile : fileBlockNumber I logical d = some (.ok b)) : Ensured g logical I d b I d
  | added {I' : Inode} {d' : Disk} (hole : fileBlockNumber I logical d = some (.ok 0))
      (map : ∀ l, fileBlockNumber I' l d' =
        if l = logical then some (.ok b) else fileBlockNumber I l d)
      (fresh : ∀ p, ¬areaRefs d.blocks I.area p b)
      (zeros : ∀ i < g.blockSize, d'.blocks b i = 0) (others : ∀ c ≠ b, d'.blocks c = d.blocks c)
      (size : I'.size = I.size) (mode : I'.mode = I.mode) : Ensured g logical I d b I' d'

section
variable (h : Ensured g logical I d b I' d')
include h

theorem Ensured.file : fileBlockNumber I' logical d' = some (.ok b) := by
  cases h with
  | found hfile => exact hfile
  | added hole map => simp [map]

theorem Ensured.other (hl : l ≠ logical) : fileBlockNumber I' l d' = fileBlockNumber I l d := by
  cases h with
  | found hfile => rfl
  | added hole map => rw [map, if_neg hl]

theorem Ensured.size_eq : I'.size = I.size := by
  cases h with
  | found => rfl
  | added _ _ _ _ _ size => exact size

theorem Ensured.mode_eq : I'.mode = I.mode := by
  cases h with
  | found => rfl
  | added _ _ _ _ _ _ mode => exact mode

theorem Ensured.bytes
    (hl : fileBlockNumber I l d = some (.ok c)) (hc : c ≠ 0) : d'.blocks c = d.blocks c := by
  cases h with
  | found => rfl
  | added hole map fresh zeros others =>
    refine others c ?_
    rintro rfl
    obtain ⟨p, hp⟩ := fileBlockNumber_ref hl hc
    exact fresh p ⟨_, hp⟩

end

theorem takeBlock_zeroTaken (h : ZeroTaken g d)
    (hfree : findFreeBlock g d = some (group, i)) : ZeroTaken g (takeBlock g group i d) := by
  rcases h with hfirst | hbit
  · exact .inl hfirst
  · by_cases hpos : 0 < g.totalBlocks
    · exact .inr (by simp [blockBit_takeBlock hfree hpos, hbit])
    · have := (findFreeBlock_some hfree).1
      omega

theorem ensureInodeBlock_ok (h : Writable g init n (I, d)) (hlast : logical + 1 < 2 ^ 32)
    (hx : ensureInodeBlock g logical (I, d) = some (.ok b, I', d')) :
    Writable g init n (I', d') ∧ b ≠ 0 ∧ Ensured g logical I d b I' d' := by
  have hwork := (ensureInodeBlock_work.ok (s := (I, d)) h.work hx).1
  cases ensureInodeBlock_step hx with
  | found hfile hb => exact ⟨h, hb, .found hfile⟩
  | @added group i I' hfile hfree hset =>
    have hlt := (findFreeBlock_some hfree).1
    have hsmall : g.blockNumber group i < 2 ^ 32 := by
      have := g.totalBlocks_lt
      omega
    have hunnamed : ∀ q, ¬areaRefs d.blocks I.area q (g.blockNumber group i) := fun q hq =>
      not_marked_free hfree (h.copy.isMarked hq)
    have hmem := h.work.free_not_mem hfree
    obtain ⟨hnot, hnot', hperm⟩ := setInodeBlock_leaf hset hsmall hmem
    have hzero : 0 ∉ I.area.leaf := by
      intro hz
      obtain ⟨p, hp⟩ := exists_ofList hz
      exact h.unnamed p ((areaRefs_iff_leaf hnot).2 hp)
    obtain ⟨hmap, hends, hsize, hmode⟩ :=
      setInodeBlock_map hset hsmall hlast hmem hzero h.ends hfile
    have hother : ∀ c, c ≠ g.blockNumber group i →
        (takeBlock g group i d).blocks c = d.blocks c := fun c hc => Function.update_of_ne hc ..
    refine ⟨⟨hwork.sound, hwork.copy, hwork.copyIndex, hends, ?_, takeBlock_zeroTaken h.zero hfree⟩,
      h.zero.ne hfree, .added hfile (fun l => ?_) hunnamed ?_ hother hsize hmode⟩
    · intro p hp
      have hz := mem_of_ofList ((areaRefs_iff_leaf hnot').1 hp)
      rcases List.mem_cons.1 (hperm.mem_iff.1 hz) with hz | hz
      · exact h.zero.ne hfree hz.symm
      · exact hzero hz
    · rw [hmap, fileBlockNumber_congr fun p x hx => hother x ?_]
      rintro rfl
      exact hunnamed p ⟨_, hx⟩
    · intro i hi
      simp only [takeBlock, Function.update_self, overlay]
      rw [if_pos (by omega)]

end RadKernel.Ext4
