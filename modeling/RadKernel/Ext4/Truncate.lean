import RadKernel.Ext4.FileBytes
import Mathlib.Data.Finset.Card

/-!
# When `ext4_truncate` comes to its end

The growth loop of `truncate_inode` takes its step from a distance of 64 bits cut to 32. At a
distance that is a multiple of `2 ^ 32` the step is zero, and the loop goes on for ever. It gets
there from every distance of `2 ^ 32` and more, unless the volume runs full on the way.
-/

namespace RadKernel.Ext4

open Kernel Ownership Prog List

variable {g : Geometry} {init : Nat → Area} {S : Nat → Prop} {d d' : Disk} {I I' J : Inode}
  {node : Node} {s s' t t' u : Inode × Disk} {α : Type} {n m l b pos size offset fuel done : Nat}
  {data : Nat → UInt8} {ls rest : List Nat}

/-! ## Descents end -/

/-- A descent that does not end names an index node at every depth. -/
theorem exists_index_of_diverges (h : extentBlockNumberFromNode fuel node l d = none) :
    ∀ j < fuel, ∃ p b, p.length = j + 1 ∧ RefAt d.blocks node true p b := by
  induction fuel generalizing node with
  | zero => exact fun j hj => absurd hj (Nat.not_lt_zero _)
  | succ fuel ih =>
    unfold extentBlockNumberFromNode at h
    split at h
    · cases h
    case isFalse hmagic =>
      rw [not_not] at hmagic
      split at h
      · cases h
      case isFalse hdepth =>
        cases hbest : bestIndex node.records l with
        | none =>
          rw [hbest] at h
          cases h
        | some best =>
          rw [hbest] at h
          obtain ⟨i, hi⟩ := bestIndex_mem hbest
          rintro (_ | j) hj
          · exact ⟨[i], _, rfl, .index hmagic hdepth hi⟩
          · obtain ⟨p, b, hp, href⟩ := ih h j (by omega)
            exact ⟨i :: p, b, by simp [hp], .child hmagic hdepth hi href⟩

/-- Blocks named once: a descent passes no block twice, and there are less than `2 ^ 32`. -/
theorem HeldCopy.fileBlockNumber_ne_none (h : HeldCopy g d n I) (l : Nat) :
    fileBlockNumber I l d ≠ none := by
  intro hnone
  unfold fileBlockNumber at hnone
  cases harea : I.area with
  | raw =>
    rw [harea] at hnone
    cases hnone
  | extents node =>
    rw [harea] at hnone
    choose! path block hlength href using exists_index_of_diverges hnone
    have hrefs : ∀ j < nodeFuel, areaRefs d.blocks I.area (path j) (block j) :=
      fun j hj => ⟨true, node, harea, href j hj⟩
    have hmaps : ∀ j ∈ Finset.range nodeFuel, block j ∈ Finset.range g.totalBlocks := by
      intro j hj
      exact Finset.mem_range.2 (h.isMarked (hrefs j (Finset.mem_range.1 hj))).1
    have hcard : (Finset.range g.totalBlocks).card < (Finset.range nodeFuel).card := by
      have := g.totalBlocks_lt
      rw [Finset.card_range, Finset.card_range]
      unfold nodeFuel
      omega
    obtain ⟨j, hj, k, hk, hne, hsame⟩ :=
      Finset.exists_ne_map_eq_of_card_lt_of_maps_to hcard hmaps
    rw [Finset.mem_range] at hj hk
    have hpath := h.unique (hrefs j hj) (hsame ▸ hrefs k hk)
    have := hlength j hj
    have := hlength k hk
    rw [hpath] at *
    omega

/-! ## Mapping without data -/

/-- Two states with the same map and the same free blocks. -/
structure Alike (s t : Inode × Disk) : Prop where
  area : t.1.area = s.1.area
  groups : t.2.groups = s.2.groups
  bitmap : t.2.blockBitmap = s.2.blockBitmap
  map : ∀ l, fileBlockNumber t.1 l t.2 = fileBlockNumber s.1 l s.2

namespace Alike

theorem refl (s : Inode × Disk) : Alike s s := ⟨rfl, rfl, rfl, fun _ => rfl⟩

theorem symm (h : Alike s t) : Alike t s :=
  ⟨h.area.symm, h.groups.symm, h.bitmap.symm, fun l => (h.map l).symm⟩

theorem trans (h : Alike s t) (h' : Alike t u) : Alike s u where
  area := h'.area.trans h.area
  groups := h'.groups.trans h.groups
  bitmap := h'.bitmap.trans h.bitmap
  map l := (h'.map l).trans (h.map l)

end Alike

theorem fileBlockNumber_of_same (harea : I'.area = I.area) (hblocks : d'.blocks = d.blocks) :
    fileBlockNumber I' l d' = fileBlockNumber I l d := by
  have hsame : fileBlockNumber I' l = fileBlockNumber I l := by
    unfold fileBlockNumber
    rw [harea]
  rw [hsame]
  exact fileBlockNumber_congr fun _ _ _ => by rw [hblocks]

/-- The size, the times and the inode table are not looked at. -/
theorem alike_setInode (harea : I'.area = I.area) : Alike (I, d) (I', d.setInode n I') :=
  ⟨harea, rfl, rfl, fun _ => fileBlockNumber_of_same harea rfl⟩

theorem findFreeBlock_congr (hgroups : d'.groups = d.groups)
    (hbitmap : d'.blockBitmap = d.blockBitmap) : findFreeBlock g d' = findFreeBlock g d := by
  unfold findFreeBlock freeBlockIn
  rw [hgroups, hbitmap]

variable {status : Status} {len : Nat} {p : List Nat}

theorem setInodeBlock_error (harea : I'.area = I.area)
    (h : setInodeBlock g I l b = .error status) : setInodeBlock g I' l b = .error status := by
  unfold setInodeBlock at h ⊢
  rw [harea]
  cases hI : I.area with
  | raw => rwa [hI] at h
  | extents node =>
    grind

/-- A block is set in a root that is a leaf. -/
theorem setInodeBlock_area (h : setInodeBlock g I l b = .ok J) :
    ∃ (node : Node) (records : List Extent), J.area = .extents { node with records } ∧
      node.magic = extentHeaderMagic ∧ node.depth = 0 ∧ ∀ I' : Inode, I'.area = I.area →
        ∃ J', setInodeBlock g I' l b = .ok J' ∧ J'.area = J.area := by
  unfold setInodeBlock at h
  cases harea : I.area with
  | raw =>
    rw [harea] at h
    cases h
  | extents node =>
    rw [harea] at h
    dsimp only at h
    split at h
    · cases h
    case isFalse hnode =>
      obtain ⟨hmagic, hdepth⟩ : node.magic = extentHeaderMagic ∧ node.depth = 0 := by
        simpa [not_or] using hnode
      split at h
      case h_1 records hext =>
        cases h
        refine ⟨node, records, rfl, hmagic, hdepth, fun I' hI' => ?_⟩
        simp only [setInodeBlock, hI', if_neg hnode, hext]
        exact ⟨_, rfl, rfl⟩
      case h_2 hext =>
        split at h
        · cases h
        case isFalse hroom =>
          cases h
          refine ⟨node, _, rfl, hmagic, hdepth, fun I' hI' => ?_⟩
          simp only [setInodeBlock, hI', if_neg hnode, hext, if_neg hroom]
          exact ⟨_, rfl, rfl⟩

theorem Alike.ensure_ok (h : Alike s t) (hx : ensureInodeBlock g l s = some (.ok b, s')) :
    ∃ t', ensureInodeBlock g l t = some (.ok b, t') ∧ Alike s' t' := by
  obtain ⟨I₂, d₂⟩ := t
  obtain ⟨I', d'⟩ := s'
  obtain ⟨harea, hgroups, hbitmap, hmap⟩ := h
  have hfind := findFreeBlock_congr (g := g) hgroups hbitmap
  simp only at harea hgroups hbitmap hmap
  rw [ensureInodeBlock_apply, hmap, hfind]
  cases ensureInodeBlock_step hx with
  | found hfile hb =>
    simp only [hfile, hb, ne_eq, not_false_eq_true, if_true]
    exact ⟨_, rfl, harea, hgroups, hbitmap, hmap⟩
  | @added group i J hfile hfree hset =>
    obtain ⟨node, records, hJ, hmagic, hdepth, hall⟩ := setInodeBlock_area hset
    obtain ⟨J', hset', hJ'⟩ := hall I₂ harea
    simp only [hfile, hfree, hset', ne_eq, not_true_eq_false, if_false]
    refine ⟨_, rfl, hJ', ?_, ?_, fun l => ?_⟩
    · simp only [takeBlock, hgroups]
    · simp only [takeBlock, hbitmap]
    · exact (fileBlockNumber_leaf (hJ'.trans hJ) hmagic hdepth).trans
        (fileBlockNumber_leaf hJ hmagic hdepth).symm

theorem Alike.ensure_error (h : Alike s t)
    (hx : ensureInodeBlock g l s = some (.error status, s')) :
    ∃ t', ensureInodeBlock g l t = some (.error status, t') := by
  obtain ⟨I', d'⟩ := s'
  obtain ⟨harea, hgroups, hbitmap, hmap⟩ := h
  have hfind := findFreeBlock_congr (g := g) hgroups hbitmap
  rw [ensureInodeBlock_apply, hmap, hfind]
  cases ensureInodeBlock_step hx with
  | unreadable hfile => simp [hfile]
  | full hfile hfree => simp [hfile, hfree]
  | refused hfile hfree hset => simp [hfile, hfree, setInodeBlock_error harea hset]

/-- The blocks can be mapped one after the other. -/
def Fits (g : Geometry) : List Nat → Inode × Disk → Prop
  | [], _ => True
  | l :: ls, s => ∃ b s', ensureInodeBlock g l s = some (.ok b, s') ∧ Fits g ls s'

/-- What a run has in common with mapping the blocks `ls` from `t` on: both come to an end and what
can be mapped next is the same, or both fail. -/
inductive Agrees (g : Geometry) (ls : List Nat) (t : Inode × Disk) :
    Except Status α → Inode × Disk → Prop
  | ok {a : α} {s' t' : Inode × Disk} (alike : Alike s' t')
      (next : ∀ rest, Fits g (ls ++ rest) t ↔ Fits g rest t') : Agrees g ls t (.ok a) s'
  | error {status : Status} {s' : Inode × Disk} (stuck : ∀ rest, ¬Fits g (ls ++ rest) t) :
      Agrees g ls t (.error status) s'

theorem Alike.agrees {r : Except Status Nat} (h : Alike s t)
    (hx : ensureInodeBlock g l s = some (r, s')) : Agrees g [l] t r s' := by
  cases r with
  | ok b =>
    obtain ⟨t', hrun, halike⟩ := h.ensure_ok hx
    refine .ok halike fun rest => ⟨?_, fun hfits => ⟨b, t', hrun, hfits⟩⟩
    rintro ⟨b', t₂, hrun', hfits⟩
    rw [hrun] at hrun'
    cases hrun'
    exact hfits
  | error status =>
    obtain ⟨t', hrun⟩ := h.ensure_error hx
    refine .error fun rest => ?_
    rintro ⟨b, t₂, hrun', -⟩
    rw [hrun] at hrun'
    cases hrun'

/-! ## The pieces of a range -/

/-- The logical blocks of the pieces of `len` bytes from `pos` on, which the write loop handles in
one round each. -/
def pieceBlocks (g : Geometry) (pos len : Nat) : List Nat :=
  ((List.range' pos len).filter fun p => p = pos ∨ p % g.blockSize = 0).map
    fun p => u32 (p / g.blockSize)

/-- The logical blocks that growing a file by `len` bytes goes through: a piece starts at every
block and with every buffer of zeros. -/
def newBlocks (g : Geometry) (pos len : Nat) : List Nat :=
  ((List.range' pos len).filter fun p => (p - pos) % maxBlockSize = 0 ∨ p % g.blockSize = 0).map
    fun p => u32 (p / g.blockSize)

theorem pieceBlocks_zero : pieceBlocks g pos 0 = [] := rfl

/-- Behind the first piece the next one starts at a block. -/
theorem pieceBlocks_succ {copy : Nat} (hlen : 0 < len)
    (hcopy : copy = min len (g.blockSize - pos % g.blockSize)) : pieceBlocks g pos len =
      u32 (pos / g.blockSize) :: pieceBlocks g (pos + copy) (len - copy) := by
  have hmod := Nat.mod_lt pos g.blockSize_pos
  obtain ⟨k, rfl⟩ : ∃ k, copy = k + 1 := ⟨copy - 1, by omega⟩
  obtain ⟨m, rfl⟩ : ∃ m, len = k + 1 + m := ⟨len - (k + 1), by omega⟩
  have hsplit : List.range' pos (k + 1 + m) =
      pos :: (List.range' (pos + 1) k ++ List.range' (pos + (k + 1)) m) := by
    have hnext : pos + (k + 1) = pos + 1 + k := by omega
    rw [show k + 1 + m = (k + m) + 1 by omega, List.range'_succ, hnext, List.range'_append_1]
  have hmiddle : (List.range' (pos + 1) k).filter (fun p => p = pos ∨ p % g.blockSize = 0) = [] := by
    rw [filter_eq_nil_iff]
    intro p hp
    rw [mem_range'_1] at hp
    have hpiece : k + 1 ≤ g.blockSize - pos % g.blockSize := by omega
    obtain ⟨hsame, -, -⟩ := (inPiece_iff p hpiece).1 (by omega)
    have hindex := index_of_same_block hsame (by omega)
    simp only [decide_eq_true_eq]
    omega
  have hlater : (List.range' (pos + (k + 1)) m).filter (fun p => p = pos ∨ p % g.blockSize = 0) =
      (List.range' (pos + (k + 1)) m).filter
        fun p => p = pos + (k + 1) ∨ p % g.blockSize = 0 := by
    refine filter_congr fun p hp => ?_
    rw [mem_range'_1] at hp
    have hfirst : p = pos + (k + 1) → p % g.blockSize = 0 := by
      rintro rfl
      have hdiv := Nat.div_add_mod pos g.blockSize
      have hend : pos + (k + 1) = g.blockSize * (pos / g.blockSize + 1) := by
        rw [Nat.mul_succ]
        omega
      rw [hend, Nat.mul_mod_right]
    grind
  unfold pieceBlocks
  rw [hsplit, filter_cons_of_pos (by simp), filter_append, hmiddle, hlater, Nat.add_sub_cancel_left]
  rfl

/-- A buffer of zeros after the other. -/
theorem newBlocks_eq : newBlocks g pos len =
    pieceBlocks g pos (min len maxBlockSize) ++
      newBlocks g (pos + min len maxBlockSize) (len - min len maxBlockSize) := by
  obtain ⟨m, hm⟩ : ∃ m, len = min len maxBlockSize + m := ⟨len - min len maxBlockSize, by omega⟩
  have hbuffer : min len maxBlockSize ≤ maxBlockSize := Nat.min_le_right ..
  have hwhole : 0 < m → min len maxBlockSize = maxBlockSize := by omega
  generalize min len maxBlockSize = k at *
  subst hm
  have hfirst : (List.range' pos k).filter
      (fun p => (p - pos) % maxBlockSize = 0 ∨ p % g.blockSize = 0) =
      (List.range' pos k).filter fun p => p = pos ∨ p % g.blockSize = 0 := by
    refine filter_congr fun p hp => ?_
    rw [mem_range'_1] at hp
    rw [Nat.mod_eq_of_lt (by omega)]
    grind
  have hlater : (List.range' (pos + k) m).filter
      (fun p => (p - pos) % maxBlockSize = 0 ∨ p % g.blockSize = 0) =
      (List.range' (pos + k) m).filter
        fun p => (p - (pos + k)) % maxBlockSize = 0 ∨ p % g.blockSize = 0 := by
    refine filter_congr fun p hp => ?_
    rw [mem_range'_1] at hp
    rw [show p - pos = p - (pos + k) + maxBlockSize by omega, Nat.add_mod_right]
  unfold newBlocks pieceBlocks
  rw [← List.range'_append_1, filter_append, hfirst, hlater, map_append, Nat.add_sub_cancel_left]

/-! ## The loops -/

theorem agrees_append {r : Except Status α}
    (next : ∀ rest, Fits g (ls ++ rest) t ↔ Fits g rest t') (h : Agrees g rest t' r s') :
    Agrees g (ls ++ rest) t r s' := by
  cases h with
  | ok alike next' =>
    refine .ok alike fun later => ?_
    rw [append_assoc, next, next']
  | error stuck =>
    refine .error fun later => ?_
    rw [append_assoc, next]
    exact stuck later

section
variable (h : HeldCopy g d n I) (hp : AreaRef d.blocks I.area false p b)
include h hp

theorem HeldCopy.not_index {q : List Nat} : ¬AreaRef d.blocks I.area true q b := by
  intro hq
  obtain rfl := h.unique ⟨_, hp⟩ ⟨_, hq⟩
  cases hp.kind_eq hq

theorem HeldCopy.alike_setBlock (f : Nat → UInt8) : Alike (I, d) (I, d.setBlock b f) := by
  refine ⟨rfl, rfl, rfl, fun l => fileBlockNumber_congr fun q x hx => ?_⟩
  have hne : x ≠ b := by
    rintro rfl
    exact h.not_index hp hx
  exact Function.update_of_ne hne ..

end

theorem HeldCopy.ensure_returns (h : HeldCopy g d n I) (l : Nat) :
    ∃ r s', ensureInodeBlock g l (I, d) = some (r, s') := by
  rw [ensureInodeBlock_apply]
  split
  case h_1 hnone => exact absurd hnone (h.fileBlockNumber_ne_none l)
  case h_2 => exact ⟨_, _, rfl⟩
  case h_3 =>
    split
    · exact ⟨_, _, rfl⟩
    · split
      · exact ⟨_, _, rfl⟩
      · split
        · exact ⟨_, _, rfl⟩
        · exact ⟨_, _, rfl⟩

section
variable (hw : Working g init S n m J s) (halike : Alike s t)
include hw halike

theorem writeLoop_agrees
    (hrange : offset + size ≤ 2 ^ 64) (hsize : size < 2 ^ 32) (hdone : done ≤ size)
    (hfuel : size - done < fuel) : ∃ r s', writeLoop g offset size data fuel done s = some (r, s') ∧
      Agrees g (pieceBlocks g (offset + done) (size - done)) t r s' ∧ ∀ k, r = .ok k → k = size := by
  induction fuel generalizing done s t with
  | zero => omega
  | succ fuel ih =>
    unfold writeLoop
    by_cases hend : size ≤ done
    · obtain rfl := Nat.le_antisymm hdone hend
      rw [if_pos hend, Nat.sub_self, pieceBlocks_zero]
      refine ⟨_, s, rfl, .ok halike fun _ => Iff.rfl, ?_⟩
      rintro k ⟨⟩
      rfl
    · rw [if_neg hend]
      have hmod := Nat.mod_lt (offset + done) g.blockSize_pos
      have habsolute : u64 (offset + done) = offset + done := Nat.mod_eq_of_lt (by omega)
      have hdistance : u32 (size - done) = size - done := Nat.mod_eq_of_lt (by omega)
      simp only [habsolute, hdistance]
      obtain ⟨copy, hcopy⟩ : ∃ copy, copy =
        min (size - done) (g.blockSize - (offset + done) % g.blockSize) := ⟨_, rfl⟩
      rw [pieceBlocks_succ (by omega) hcopy, ← hcopy, Prog.bind_apply]
      obtain ⟨r, ⟨I', d'⟩, hensure⟩ := hw.copy.ensure_returns (u32 ((offset + done) / g.blockSize))
      have hone := halike.agrees hensure
      rw [hensure]
      cases hone with
      | error stuck =>
        refine ⟨_, _, rfl, .error fun later => stuck _, ?_⟩
        rintro k ⟨⟩
      | @ok b _ t' halike' next =>
        obtain ⟨hw', p, hp⟩ := ensureInodeBlock_work.ok hw hensure
        simp only [Prog.bind_apply, runDisk_apply, writeBlockPart, Prog.modify_apply,
          Option.map_some, if_neg (show ¬copy = 0 by omega)]
        have hwritten := hw'.copy.alike_setBlock hp (overlay (d'.blocks b)
          ((offset + done) % g.blockSize) copy fun i => data (done + i))
        have hnext : Working g init S n m J (I', d'.setBlock b (overlay (d'.blocks b)
            ((offset + done) % g.blockSize) copy fun i => data (done + i))) := Work.write hw' hp
        obtain ⟨r, s', hrun, hagrees, hr⟩ := @ih _ _ (done + copy) hnext
          (hwritten.symm.trans halike') (by omega) (by omega)
        refine ⟨r, s', hrun, ?_, hr⟩
        rw [show size - (done + copy) = size - done - copy by omega, ← Nat.add_assoc] at hagrees
        exact agrees_append next hagrees

theorem writeInodeDataGrow_agrees
    (hn : n ≠ 0) (hrange : offset + size ≤ 2 ^ 64) (hsize : size < 2 ^ 32) :
    ∃ r s', writeInodeDataGrow g n offset size data s = some (r, s') ∧
      Agrees g (pieceBlocks g offset size) t r s' ∧ ∀ k, r = .ok k → k = size := by
  obtain ⟨r, ⟨I', d'⟩, hloop, hagrees, hr⟩ := @writeLoop_agrees g init S J s t n m size offset
    (size + 1) 0 data hw halike hrange hsize (Nat.zero_le _) (by omega)
  unfold writeInodeDataGrow
  rw [Prog.bind_apply, hloop]
  cases hagrees with
  | error stuck =>
    refine ⟨_, _, rfl, .error stuck, ?_⟩
    rintro k ⟨⟩
  | @ok done _ t' halike' next =>
    simp only [Prog.bind_apply, modifyCopy, Prog.modify_apply, writeCopy, Prog.read_apply,
      runDisk_apply, writeInode, hn, if_false, Option.map_some, Prog.pure_apply]
    have hstored := @alike_setInode d' I' _ n (grownInode_area I' (u64 (offset + done)))
    exact ⟨_, _, rfl, .ok (hstored.symm.trans halike') next, hr⟩

end

/-- The growth loop is stuck in a round that writes nothing, comes to its end, or fails because the
volume does not take another block. -/
theorem growLoop_agrees (hw : Working g init (fun _ => True) n m J s) (halike : Alike s t)
    (hn : n ≠ 0) (hpos : pos ≤ size) (hsize : size < 2 ^ 64) (hfuel : size - pos < fuel) :
    (growLoop g n size fuel pos s = none ∧ 2 ^ 32 ≤ size - pos ∧
      Fits g (newBlocks g pos ((size - pos) % 2 ^ 32)) t) ∨
    (∃ s', growLoop g n size fuel pos s = some (.ok (), s') ∧ size - pos < 2 ^ 32) ∨
    ∃ status s', growLoop g n size fuel pos s = some (.error status, s') ∧
      ¬Fits g (newBlocks g pos ((size - pos) % 2 ^ 32)) t := by
  induction fuel generalizing pos s t with
  | zero => omega
  | succ fuel ih =>
    unfold growLoop
    by_cases hend : size ≤ pos
    · rw [if_pos hend]
      exact .inr (.inl ⟨s, rfl, by omega⟩)
    · rw [if_neg hend]
      obtain ⟨copy, hcopy⟩ : ∃ copy, copy = min (u32 (size - pos)) maxBlockSize := ⟨_, rfl⟩
      have hbuffer : copy ≤ 4096 := hcopy ▸ Nat.min_le_right ..
      have hle : copy ≤ size - pos := hcopy ▸ (Nat.min_le_left ..).trans (u32_le _)
      obtain ⟨r, s', hwrite, hagrees, hr⟩ := @writeInodeDataGrow_agrees g init _ J s t n m copy pos
        (fun _ => 0) hw halike hn (by omega) (by omega)
      rw [← hcopy, Prog.bind_apply, hwrite, newBlocks_eq, show (size - pos) % 2 ^ 32 =
        u32 (size - pos) from rfl, ← hcopy]
      cases hagrees with
      | error stuck => exact .inr (.inr ⟨_, _, rfl, stuck _⟩)
      | @ok done _ t' halike' next =>
        obtain rfl := hr done rfl
        have hw' := writeInodeDataGrow_work.ok hw hwrite
        by_cases hzero : done = 0
        · subst hzero
          have hmultiple : u32 (size - pos) = 0 := by
            unfold maxBlockSize at hcopy
            omega
          refine .inl ⟨by simp only [if_true]; rfl, ?_, ?_⟩
          · unfold u32 at hmultiple
            omega
          · rw [hmultiple]
            trivial
        · have hstep : done ≤ u32 (size - pos) := hcopy ▸ Nat.min_le_left ..
          have hleft : (size - (pos + done)) % 2 ^ 32 = u32 (size - pos) - done := by
            unfold u32 at hstep ⊢
            omega
          simp only [hzero, if_false]
          rw [next, ← hleft]
          rcases @ih s' t' (pos + done) hw' halike' (by omega) (by omega) with ⟨hrun, hfar, hfits⟩ | hok | herror
          · exact .inl ⟨hrun, by omega, hfits⟩
          · obtain ⟨s'', hrun, hnear⟩ := hok
            unfold u32 at hstep
            exact .inr (.inl ⟨s'', hrun, by omega⟩)
          · exact .inr (.inr herror)

/-! ## `ext4_truncate` -/

/-- Without index nodes the map can be read. -/
theorem fileBlockNumber_canFree_ne_none (h : I.area.CanFree) : fileBlockNumber I l d ≠ none := by
  cases harea : I.area with
  | raw => simp [fileBlockNumber, harea]
  | extents node =>
    rw [harea] at h
    simp [fileBlockNumber_leaf harea h.1 h.2]

theorem clearTail_returns (h : I.area.CanFree) : clearTail g size (I, d) ≠ none := by
  unfold clearTail
  split
  · simp only [Prog.bind_apply, Prog.read_apply, queryDisk_apply]
    cases hfile : fileBlockNumber I (u32 (size / g.blockSize)) d with
    | none => exact absurd hfile (fileBlockNumber_canFree_ne_none h)
    | some out =>
      cases out with
      | error status => simp
      | ok b =>
        simp only [Option.map_some]
        split
        · simp [writeBlockPart, runDisk_apply]
        · simp
  · simp

/-- Giving blocks back comes to its end. -/
theorem changeBlocks_shrink (hw : Working g init (fun _ => True) n m J (I, d))
    (hsize : size ≤ I.size) : changeBlocks g n size (I, d) ≠ none := by
  unfold changeBlocks
  rw [Prog.bind_apply]
  simp only [Prog.read_apply]
  rw [if_neg (show ¬I.size < size by omega)]
  split
  · by_cases hcan : I.area.CanFree
    · obtain ⟨firstFree, hfirst⟩ : ∃ firstFree, firstFree =
        u32 (u64 (size + g.blockSize - 1) / g.blockSize) := ⟨_, rfl⟩
      have hinside : ∀ b ∈ I.area.freed firstFree, b < g.totalBlocks :=
        fun b hb => (Work.freed_marked hw hcan hb).1
      have hrun := freeInodeBlocks_apply (d := d) hcan hinside
      have hstill : (cutInode g I firstFree).area.CanFree := by
        unfold cutInode
        cases harea : I.area with
        | raw => simp [harea, Area.CanFree]
        | extents node =>
          rw [harea] at hcan
          exact hcan
      rw [← hfirst, Prog.bind_apply, hrun]
      exact clearTail_returns hstill
    · rw [Prog.bind_apply, freeInodeBlocks_unsupported hcan]
      exact Option.some_ne_none _
  · exact Option.some_ne_none _

theorem truncateInode_apply (hn : n ≠ 0) : truncateInode g n size (I, d) =
    (changeBlocks g n size (I, d)).map fun out =>
      match out with
      | (.error status, s) => (.error status, s)
      | (.ok _, s) =>
        let sized := { inodeSetSize s.1 size with mtime := 1, ctime := 1 }
        (.ok (), sized, s.2.setInode n sized) := by
  unfold truncateInode
  rw [Prog.bind_apply]
  cases changeBlocks g n size (I, d) with
  | none => rfl
  | some out =>
    obtain ⟨out, s⟩ := out
    cases out with
    | error status => rfl
    | ok a =>
      simp only [Prog.bind_apply, modifyCopy, Prog.modify_apply, writeCopy, Prog.read_apply,
        runDisk_apply, writeInode, hn, if_false, Option.map_some]

variable {path : List UInt8}

theorem ext4Truncate_apply
    (hlookup : lookupPath g path d = some (.ok (n, I))) (hreg : inodeIsReg I = true) :
    ext4Truncate g path size d =
      (truncateInode g n size (I, d)).map fun out => (out.1, out.2.2) := by
  unfold ext4Truncate
  rw [Prog.bind_apply, Prog.query, hlookup]
  simp only [Option.map_some, hreg, Bool.not_true, Bool.false_eq_true, if_false, Prog.bind_apply,
    passing, onCopy]
  cases truncateInode g n size (I, d) with
  | none => rfl
  | some out =>
    obtain ⟨out, I', d'⟩ := out
    cases out <;> rfl

/-- The call for the file of inode `n` returns, and if it succeeds the file has the size. -/
def Truncates (g : Geometry) (path : List UInt8) (n size : Nat) (d : Disk) : Prop :=
  ∃ r d', ext4Truncate g path size d = some (r, d') ∧ (r = .ok () → (d'.inodes n).size = size)

/-- It is enough that the blocks are given back or added. -/
theorem truncates_iff_returns
    (hlookup : lookupPath g path d = some (.ok (n, I))) (hreg : inodeIsReg I = true)
    (hsize : size < 2 ^ 64) : Truncates g path n size d ↔ changeBlocks g n size (I, d) ≠ none := by
  obtain ⟨hn, -⟩ := lookupPath_ok hlookup
  unfold Truncates
  rw [ext4Truncate_apply hlookup hreg, truncateInode_apply hn]
  cases changeBlocks g n size (I, d) with
  | none => simp
  | some out =>
    obtain ⟨out, s⟩ := out
    simp only [Option.map_some, ne_eq, reduceCtorEq, not_false_eq_true, iff_true]
    cases out with
    | error status => exact ⟨_, _, rfl, fun h => by cases h⟩
    | ok a =>
      refine ⟨_, _, rfl, fun _ => ?_⟩
      simp only [Disk.setInode, Function.update_self, inodeSetSize]
      exact Nat.mod_eq_of_lt hsize

/-- A regular file on a volume whose blocks are named once can be truncated to a size if and only
if that is less than `2 ^ 32` bytes above the old one, or the volume does not take the part of the
new bytes up to a distance of a multiple of `2 ^ 32`. -/
theorem truncates_iff {path : List UInt8} (howned : Owned g d) (hclean : CleanFree g d)
    (hlookup : lookupPath g path d = some (.ok (n, I))) (hreg : inodeIsReg I = true)
    (hsize : size < 2 ^ 64) : Truncates g path n size d ↔ size < I.size + 2 ^ 32 ∨
      ¬Fits g (newBlocks g I.size ((size - I.size) % 2 ^ 32)) (I, d) := by
  obtain ⟨hn, hI⟩ := lookupPath_ok hlookup
  have hgood := good_of_image howned hclean
  have hw : Working g (fun n => (d.inodes n).area) (fun _ => True) n n I (I, d) := by
    rw [hI]
    exact Work.slot hgood n
  rw [truncates_iff_returns hlookup hreg hsize]
  by_cases hgrow : I.size < size
  · have hbranch : changeBlocks g n size (I, d) =
        growLoop g n size (size - I.size + 1) I.size (I, d) := by
      unfold changeBlocks
      rw [Prog.bind_apply]
      simp only [Prog.read_apply, if_neg (show ¬size < I.size by omega), if_pos hgrow]
    rw [hbranch]
    rcases growLoop_agrees hw (.refl _) hn (Nat.le_of_lt hgrow) hsize (Nat.lt_succ_self _) with
      ⟨hrun, hfar, hfits⟩ | ⟨s', hrun, hnear⟩ | ⟨status, s', hrun, hfull⟩
    · rw [hrun]
      refine ⟨fun h => absurd rfl h, ?_⟩
      rintro (hnear | hfull)
      · omega
      · exact absurd hfits hfull
    · rw [hrun]
      exact ⟨fun _ => .inl (by omega), fun _ => Option.some_ne_none _⟩
    · rw [hrun]
      exact ⟨fun _ => .inr hfull, fun _ => Option.some_ne_none _⟩
  · exact ⟨fun _ => .inl (by omega), fun _ => changeBlocks_shrink hw (by omega)⟩

theorem oneFile_lookup : lookupPath smallVolume [slash, 97] oneFile =
    some (.ok (12, oneFile.inodes 12)) := by
  have hrun : (lookupPath smallVolume [slash, 97] oneFile).bind Except.toOption =
      some (12, oneFile.inodes 12) := by decide +kernel
  obtain ⟨out, hout, hfound⟩ := Option.bind_eq_some_iff.1 hrun
  cases out with
  | error status => cases hfound
  | ok found =>
    cases hfound
    exact hout

/-- The file of five bytes is made two blocks long. -/
theorem truncates_twoBlocks : Truncates smallVolume [slash, 97] 12 2048 oneFile :=
  (truncates_iff oneFile_owned oneFile_clean oneFile_lookup rfl (by decide)).2 (.inl (by decide))

/-- Growing the file by `2 ^ 32` bytes never returns. -/
theorem not_truncates_multiple : ¬∀ (g : Geometry) (d : Disk) (path : List UInt8) (n size : Nat)
    (I : Inode), Owned g d → CleanFree g d → lookupPath g path d = some (.ok (n, I)) →
    inodeIsReg I = true → size < 2 ^ 64 → Truncates g path n size d := by
  intro hall
  obtain ⟨r, d', hrun, -⟩ := hall smallVolume oneFile [slash, 97] 12 (5 + 2 ^ 32) _ oneFile_owned
    oneFile_clean oneFile_lookup rfl (by decide)
  have hnone : (ext4Truncate smallVolume [slash, 97] (5 + 2 ^ 32) oneFile).isNone = true := by
    decide +kernel
  rw [hrun] at hnone
  cases hnone

end RadKernel.Ext4
