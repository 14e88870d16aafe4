import RadKernel.Ext4.Bitmap
import RadKernel.Lib.Ownership

/-!
# The blocks an inode refers to

What an extent tree names: the blocks of its extents, by the lengths of the format, and the
blocks its index nodes lie in. `RefAt` gives every reference a position in the tree, so
"named once" is a statement about positions. Reading through the tree only finds blocks it
names; adding and freeing blocks change the list of a leaf by exactly those blocks.
-/

namespace RadKernel.Ext4

open Kernel Ownership List Prog

/-- The number of blocks an extent covers: a length field above `2 ^ 15` marks an extent
that is not written yet. -/
def Extent.length (e : Extent) : Nat := if e.len ≤ 2 ^ 15 then e.len else e.len - 2 ^ 15

def Extent.blocks (e : Extent) : List Nat := List.range' e.start e.length

def leafBlocks (records : List Extent) : List Nat := records.flatMap Extent.blocks

/-- `RefAt blocks node index p b`: the tree under `node` names `b` at position `p`, as an
index node if `index` is set and else as a block of the file. -/
inductive RefAt (blocks : Nat → Nat → UInt8) : Node → Bool → List Nat → Nat → Prop
  | data {node : Node} {j b : Nat} (hmagic : node.magic = extentHeaderMagic)
      (hdepth : node.depth = 0) (hb : (leafBlocks node.records)[j]? = some b) :
      RefAt blocks node false [j] b
  | index {node : Node} {i : Nat} {r : Extent} (hmagic : node.magic = extentHeaderMagic)
      (hdepth : node.depth ≠ 0) (hr : node.records[i]? = some r) :
      RefAt blocks node true [i] r.leaf
  | child {node : Node} {i : Nat} {r : Extent} {index : Bool} {p : List Nat} {b : Nat}
      (hmagic : node.magic = extentHeaderMagic) (hdepth : node.depth ≠ 0)
      (hr : node.records[i]? = some r)
      (h : RefAt blocks (parseNode (blocks r.leaf)) index p b) :
      RefAt blocks node index (i :: p) b

/-- The references of an inode's block area. -/
def AreaRef (blocks : Nat → Nat → UInt8) (area : Area) (index : Bool) (p : List Nat) (b : Nat) :
    Prop :=
  ∃ node, area = .extents node ∧ RefAt blocks node index p b

/-- The references of an area, data and index alike. -/
def areaRefs (blocks : Nat → Nat → UInt8) (area : Area) (p : List Nat) (b : Nat) : Prop :=
  ∃ index, AreaRef blocks area index p b

def Area.IsIndex : Area → Prop
  | .extents node => node.magic = extentHeaderMagic ∧ node.depth ≠ 0
  | .raw _ => False

/-- The blocks of an area without index nodes. -/
def Area.leaf : Area → List Nat
  | .extents node =>
    if node.magic = extentHeaderMagic ∧ node.depth = 0 then leafBlocks node.records else []
  | .raw _ => []

section Reading

variable {blocks : Nat → Nat → UInt8} {node : Node} {area : Area} {p : List Nat}
  {b x b' logical : Nat} {k k' : Bool} {f : Nat → UInt8} {d : Disk}

theorem RefAt.kind_eq (h : RefAt blocks node k p b) (h' : RefAt blocks node k' p b') : k = k' := by
  induction h generalizing k' b' with
  | data hmagic hdepth hb =>
    cases h' with
    | data => rfl
    | index _ hd => exact absurd hdepth hd
    | child _ hd => exact absurd hdepth hd
  | index hmagic hdepth hr =>
    cases h' with
    | data _ hd => exact absurd hd hdepth
    | index => rfl
    | child _ _ _ h => cases h
  | child hmagic hdepth hr h ih =>
    cases h' with
    | data _ hd => cases h
    | index => cases h
    | child _ _ hr' h' =>
      obtain rfl : _ = _ := Option.some.inj (hr.symm.trans hr')
      exact ih h'

/-- Writing a block that is no index node of a tree leaves the tree as it is. -/
theorem RefAt.of_update (hx : ∀ p, ¬RefAt blocks node true p x)
    (h : RefAt (Function.update blocks x f) node k p b) : RefAt blocks node k p b := by
  induction h with
  | data hmagic hdepth hb => exact .data hmagic hdepth hb
  | index hmagic hdepth hr => exact .index hmagic hdepth hr
  | @child node i r k p b hmagic hdepth hr h ih =>
    have hne : r.leaf ≠ x := fun heq => hx [i] (heq ▸ .index hmagic hdepth hr)
    rw [Function.update_of_ne hne] at h ih
    exact .child hmagic hdepth hr (ih fun p hp => hx (i :: p) (.child hmagic hdepth hr hp))

theorem AreaRef.of_update (hx : ∀ p, ¬AreaRef blocks area true p x)
    (h : AreaRef (Function.update blocks x f) area k p b) : AreaRef blocks area k p b := by
  obtain ⟨node, harea, h⟩ := h
  exact ⟨node, harea, h.of_update fun p hp => hx p ⟨node, harea, hp⟩⟩

theorem AreaRef.kind_eq (h : AreaRef blocks area k p b)
    (h' : AreaRef blocks area k' p b') : k = k' := by
  obtain ⟨node, rfl, h⟩ := h
  obtain ⟨node', heq, h'⟩ := h'
  cases heq
  exact h.kind_eq h'

theorem areaRefs_raw {bytes : List UInt8} : ¬areaRefs blocks (.raw bytes) p b := by
  rintro ⟨_, _, h, _⟩
  cases h

theorem areaRefs_iff_leaf (h : ¬area.IsIndex) :
    areaRefs blocks area p b ↔ ofList area.leaf p b := by
  constructor
  · rintro ⟨k, node, rfl, href⟩
    cases href with
    | data hmagic hdepth hb => exact ⟨_, rfl, by simpa [Area.leaf, hmagic, hdepth] using hb⟩
    | index hmagic hdepth => exact absurd ⟨hmagic, hdepth⟩ h
    | child hmagic hdepth => exact absurd ⟨hmagic, hdepth⟩ h
  · rintro ⟨j, rfl, hj⟩
    cases area with
    | raw => simp [Area.leaf] at hj
    | extents node =>
      simp only [Area.leaf] at hj
      split at hj
      case isTrue hnode => exact ⟨false, node, rfl, .data hnode.1 hnode.2 hj⟩
      case isFalse => simp at hj

theorem not_isIndex_ref (h : ¬area.IsIndex) (href : AreaRef blocks area k p b) : k = false := by
  obtain ⟨node, rfl, href⟩ := href
  cases href with
  | data => rfl
  | index hmagic hdepth => exact absurd ⟨hmagic, hdepth⟩ h
  | child hmagic hdepth => exact absurd ⟨hmagic, hdepth⟩ h

/-- The blocks the code finds in an extent are blocks the extent names. -/
theorem Extent.count_le_length (e : Extent) : e.count ≤ e.length := by
  unfold Extent.count Extent.length
  split <;> omega

theorem Extent.mem_blocks {e : Extent} : b ∈ e.blocks ↔ e.start ≤ b ∧ b < e.start + e.length := by
  simp [Extent.blocks, mem_range'_1]

theorem u32_le (n : Nat) : u32 n ≤ n := Nat.mod_le _ _

variable {records : List Extent}

theorem mapped_mem (h : mapped records logical ≠ 0) :
    mapped records logical ∈ leafBlocks records := by
  induction records with
  | nil => simp [mapped] at h
  | cons e es ih =>
    simp only [leafBlocks, flatMap_cons, mem_append]
    unfold mapped at h ⊢
    split
    case isTrue hcover =>
      have := u32_le (e.block + e.count)
      have := e.count_le_length
      exact .inl (Extent.mem_blocks.2 (by omega))
    case isFalse hno =>
      rw [if_neg hno] at h
      exact .inr (ih h)

theorem bestIndex_mem {r : Extent}
    (h : bestIndex records logical = some r) : ∃ i : Nat, records[i]? = some r := by
  have hmem := mem_of_getLast? h
  exact mem_iff_getElem?.1 (List.mem_filter.1 hmem).1

theorem extentBlockNumberFromNode_ref {fuel : Nat}
    (h : extentBlockNumberFromNode fuel node logical d = some (.ok b)) (hb : b ≠ 0) :
    ∃ p, RefAt d.blocks node false p b := by
  induction fuel generalizing node with
  | zero => cases h
  | succ fuel ih =>
    unfold extentBlockNumberFromNode at h
    split at h
    · cases h
    case isFalse hmagic =>
      rw [not_not] at hmagic
      split at h
      case isTrue hdepth =>
        cases h
        obtain ⟨j, hj⟩ := mem_iff_getElem?.1 (mapped_mem hb)
        exact ⟨[j], .data hmagic hdepth hj⟩
      case isFalse hdepth =>
        cases hbest : bestIndex node.records logical with
        | none =>
          rw [hbest] at h
          cases h
          exact absurd rfl hb
        | some best =>
          rw [hbest] at h
          obtain ⟨i, hi⟩ := bestIndex_mem hbest
          obtain ⟨p, hp⟩ := ih h
          exact ⟨i :: p, .child hmagic hdepth hi hp⟩

theorem fileBlockNumber_ref {inode : Inode}
    (h : fileBlockNumber inode logical d = some (.ok b)) (hb : b ≠ 0) :
    ∃ p, AreaRef d.blocks inode.area false p b := by
  unfold fileBlockNumber at h
  cases harea : inode.area with
  | raw =>
    rw [harea] at h
    cases h
  | extents node =>
    rw [harea] at h
    obtain ⟨p, hp⟩ := extentBlockNumberFromNode_ref h hb
    exact ⟨p, node, rfl, hp⟩

end Reading

/-! ## Adding and freeing blocks -/

section Changing

variable {g : Geometry} {logical physical : Nat} {es : List Extent} {inode : Inode} {d : Disk}

theorem extendExtent_perm {es' : List Extent} (h : extendExtent logical physical es = some es')
    (hfresh : physical ∉ leafBlocks es) : (leafBlocks es').Perm (physical :: leafBlocks es) := by
  induction es generalizing es' with
  | nil => cases h
  | cons e es ih =>
    unfold extendExtent at h
    simp only [leafBlocks, flatMap_cons, mem_append, not_or] at hfresh ⊢
    split at h
    case isTrue hfit =>
      obtain ⟨-, hstart, hcount⟩ := hfit
      cases h
      -- an extent of exactly `2 ^ 15` blocks looks empty to the code, but then it names
      -- `physical` itself
      have hlen : e.length = e.count := by
        have := mt Extent.mem_blocks.2 hfresh.1
        unfold Extent.length Extent.count at *
        split <;> split at this <;> omega
      have hblocks : ({ e with len := e.count + 1 } : Extent).blocks = e.blocks ++ [physical] := by
        unfold Extent.blocks
        have hnew : ({ e with len := e.count + 1 } : Extent).length = e.count + 1 := by
          unfold Extent.length
          rw [if_pos (by simp only; omega)]
        rw [hnew, hlen, List.range'_concat, ← hstart]
        simp [Extent.start]
      rw [flatMap_cons, hblocks, append_assoc]
      exact perm_middle
    case isFalse =>
      obtain ⟨rest, hrest, rfl⟩ := Option.map_eq_some_iff.1 h
      rw [flatMap_cons]
      exact ((ih hrest hfresh.2).append_left e.blocks).trans perm_middle

theorem insertExtent_perm (e : Extent) (es : List Extent) : (insertExtent e es).Perm (e :: es) := by
  refine List.perm_middle.trans (.cons e ?_)
  rw [rdropWhile_append_rtakeWhile]

/-- The record `set_inode_block` starts names just its block. -/
theorem newExtent_blocks (hphysical : physical < 2 ^ 32) :
    (⟨logical, 1, u16 (physical / 2 ^ 32), u32 physical⟩ : Extent).blocks = [physical] := by
  have hhigh : u16 (physical / 2 ^ 32) = 0 := by
    simp only [u16, Nat.div_eq_of_lt hphysical, Nat.zero_mod]
  have hlow : u32 physical = physical := Nat.mod_eq_of_lt hphysical
  rw [hhigh, hlow]
  simp [Extent.blocks, Extent.length, Extent.start]

/-- A successful `set_inode_block` adds the block to the list of a leaf and changes nothing
else about the references. -/
theorem setInodeBlock_leaf {inode' : Inode}
    (h : setInodeBlock g inode logical physical = .ok inode') (hphysical : physical < 2 ^ 32)
    (hfresh : physical ∉ inode.area.leaf) :
    ¬inode.area.IsIndex ∧ ¬inode'.area.IsIndex ∧
      (inode'.area.leaf).Perm (physical :: inode.area.leaf) := by
  unfold setInodeBlock at h
  split at h
  · cases h
  case h_2 node harea =>
    split at h
    · cases h
    case isFalse hnode =>
      obtain ⟨hmagic, hdepth⟩ : node.magic = extentHeaderMagic ∧ node.depth = 0 := by
        simpa [not_or] using hnode
      simp only [harea, Area.leaf, hmagic, hdepth, and_self, if_true] at hfresh
      split at h
      case h_1 records hext =>
        cases h
        exact ⟨by simp [Area.IsIndex, harea, hdepth], by simp [Area.IsIndex, hdepth],
          by simpa [harea, Area.leaf, hmagic, hdepth] using extendExtent_perm hext hfresh⟩
      case h_2 hext =>
        split at h
        · cases h
        · cases h
          refine ⟨by simp [Area.IsIndex, harea, hdepth], by simp [Area.IsIndex, hdepth], ?_⟩
          have hperm := (insertExtent_perm ⟨logical, 1, u16 (physical / 2 ^ 32), u32 physical⟩
            node.records).flatMap_right Extent.blocks
          rw [flatMap_cons, newExtent_blocks hphysical] at hperm
          simpa [harea, Area.leaf, leafBlocks, hmagic, hdepth] using hperm

/-- The extents that stay when a file is cut at `firstFree`. -/
def keptExtents (firstFree : Nat) : List Extent → List Extent
  | [] => []
  | e :: es =>
    if u32 (e.block + e.count) ≤ firstFree then e :: keptExtents firstFree es
    else if keptBlocks e firstFree = 0 then keptExtents firstFree es
    else { e with len := keptBlocks e firstFree } :: keptExtents firstFree es

/-- The blocks given back when a file is cut at `firstFree`. -/
def freedBlocks (firstFree : Nat) : List Extent → List Nat
  | [] => []
  | e :: es =>
    if u32 (e.block + e.count) ≤ firstFree then freedBlocks firstFree es
    else List.range' (e.start + keptBlocks e firstFree) (e.count - keptBlocks e firstFree) ++
      freedBlocks firstFree es

theorem freeRun_apply {start count : Nat} (h : ∀ b ∈ List.range' start count, b < g.totalBlocks) :
    freeRun g start count d = some (.ok (), releaseAll g (List.range' start count) d) := by
  induction count generalizing start d with
  | zero => rfl
  | succ count ih =>
    unfold freeRun
    rw [bind_apply, freeBlock_apply (h start mem_cons_self)]
    exact ih fun b hb => h b (mem_cons_of_mem _ hb)

variable {firstFree : Nat}

theorem freeExtents_apply (h : ∀ b ∈ freedBlocks firstFree es, b < g.totalBlocks) :
    freeExtents g firstFree es d = some (.ok (keptExtents firstFree es,
      (freedBlocks firstFree es).length), releaseAll g (freedBlocks firstFree es) d) := by
  induction es generalizing d with
  | nil => rfl
  | cons e es ih =>
    unfold freeExtents keptExtents freedBlocks
    unfold freedBlocks at h
    split at h
    case isTrue hkeep => simp [hkeep, bind_apply, ih h]
    case isFalse hcut =>
      have hrun := freeRun_apply (d := d) fun b hb => h b (mem_append_left _ hb)
      have hrest := fun d => @ih d fun b hb => h b (mem_append_right _ hb)
      simp [hcut, bind_apply, hrun, hrest, releaseAll_append]

theorem keptBlocks_lt {e : Extent}
    (h : ¬u32 (e.block + e.count) ≤ firstFree) : keptBlocks e firstFree ≤ e.count := by
  have := u32_le (e.block + e.count)
  unfold keptBlocks
  split <;> omega

/-- Cutting a leaf splits its blocks into those that stay, those given back, and those of
extents the code takes for empty. -/
theorem cut_perm (firstFree : Nat) (es : List Extent) : ∃ rest, (leafBlocks es).Perm
    (leafBlocks (keptExtents firstFree es) ++ (freedBlocks firstFree es ++ rest)) := by
  induction es with
  | nil => exact ⟨[], .refl _⟩
  | cons e es ih =>
    obtain ⟨rest, hrest⟩ := ih
    unfold keptExtents freedBlocks
    split
    case isTrue =>
      refine ⟨rest, ?_⟩
      simp only [leafBlocks, flatMap_cons, append_assoc]
      exact hrest.append_left _
    case isFalse hcut =>
      have hkeep := keptBlocks_lt hcut
      have hlen := e.count_le_length
      have hcount : e.count < 2 ^ 15 := Nat.mod_lt _ (by omega)
      generalize keptBlocks e firstFree = k at hkeep
      refine ⟨List.range' (e.start + e.count) (e.length - e.count) ++ rest, ?_⟩
      have hsplit : e.blocks = List.range' e.start k ++ (List.range' (e.start + k) (e.count - k) ++
          List.range' (e.start + e.count) (e.length - e.count)) := by
        unfold Extent.blocks
        rw [show e.start + e.count = e.start + k + (e.count - k) by omega, List.range'_append_1,
          List.range'_append_1]
        congr 1
        omega
      have hkept : leafBlocks (if k = 0 then keptExtents firstFree es
          else { e with len := k } :: keptExtents firstFree es) =
          List.range' e.start k ++ leafBlocks (keptExtents firstFree es) := by
        split
        case isTrue h0 => simp [h0]
        case isFalse =>
          have : ({ e with len := k } : Extent).length = k := by
            unfold Extent.length
            rw [if_pos (by simp only; omega)]
          simp [leafBlocks, Extent.blocks, this, Extent.start]
      have hcons : leafBlocks (e :: es) = e.blocks ++ leafBlocks es := rfl
      rw [hkept, hcons, hsplit]
      simp only [append_assoc]
      refine List.Perm.append_left _ ?_
      have hmove := hrest.append_left (List.range' (e.start + k) (e.count - k) ++
        List.range' (e.start + e.count) (e.length - e.count))
      simp only [append_assoc] at hmove
      refine hmove.trans ?_
      rw [perm_iff_count]
      intro x
      simp only [count_append]
      omega

/-- An inode cut at `firstFree`. -/
def cutInode (g : Geometry) (inode : Inode) (firstFree : Nat) : Inode :=
  match inode.area with
  | .raw _ => inode
  | .extents node =>
    { inode with
      area := .extents { node with records := keptExtents firstFree node.records }
      blocksLo := inode.blocksLo -
        u32 ((freedBlocks firstFree node.records).length * (g.blockSize / 512)) }

/-- The blocks an inode gives back when it is cut at `firstFree`. -/
def Area.freed (firstFree : Nat) : Area → List Nat
  | .raw _ => []
  | .extents node => freedBlocks firstFree node.records

/-- An area whose blocks `free_inode_blocks` can give back. -/
def Area.CanFree : Area → Prop
  | .raw _ => True
  | .extents node => node.magic = extentHeaderMagic ∧ node.depth = 0

theorem freeInodeBlocks_apply
    (hcan : inode.area.CanFree) (h : ∀ b ∈ inode.area.freed firstFree, b < g.totalBlocks) :
    freeInodeBlocks g firstFree (inode, d) = some (.ok (),
      cutInode g inode firstFree, releaseAll g (inode.area.freed firstFree) d) := by
  unfold freeInodeBlocks cutInode
  rw [bind_apply]
  cases harea : inode.area with
  | raw => simp [harea, Area.freed]
  | extents node =>
    rw [harea] at hcan h
    have hrun := freeExtents_apply (d := d) h
    simp [harea, hcan.1, hcan.2, bind_apply, runDisk, Prog.focus, hrun, modifyCopy, Area.freed]

theorem freeInodeBlocks_unsupported (hcan : ¬inode.area.CanFree) :
    freeInodeBlocks g firstFree (inode, d) = some (.error .notSupported, inode, d) := by
  unfold freeInodeBlocks
  rw [bind_apply]
  cases harea : inode.area with
  | raw => exact absurd (by rw [harea]; trivial) hcan
  | extents node =>
    rw [harea] at hcan
    have : node.magic ≠ extentHeaderMagic ∨ node.depth ≠ 0 := not_and_or.1 hcan
    simp only [read_apply, harea, if_pos this, fail_apply]

theorem Area.CanFree.not_isIndex {area : Area} (h : area.CanFree) : ¬area.IsIndex := by
  cases area with
  | raw => exact fun h => h
  | extents node => exact fun hidx => hidx.2 h.2

/-- What stays and what is given back were both named before, and nothing is in both. -/
theorem cutInode_leaf (hcan : inode.area.CanFree) (firstFree : Nat) :
    ¬(cutInode g inode firstFree).area.IsIndex ∧ ∃ rest, (inode.area.leaf).Perm
      ((cutInode g inode firstFree).area.leaf ++ (inode.area.freed firstFree ++ rest)) := by
  unfold cutInode
  cases harea : inode.area with
  | raw =>
    simp only [harea]
    exact ⟨fun h => h, [], by simp [Area.leaf, Area.freed]⟩
  | extents node =>
    rw [harea] at hcan
    obtain ⟨rest, hrest⟩ := cut_perm firstFree node.records
    refine ⟨fun hidx => hidx.2 hcan.2, rest, ?_⟩
    simpa [Area.leaf, Area.freed, hcan.1, hcan.2] using hrest

end Changing

end RadKernel.Ext4
