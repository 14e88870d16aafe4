import RadKernel.Ext4.Mapping
import RadKernel.Ext4.OwnedResults
import Mathlib.Algebra.Order.Group.Nat

/-!
# Writing changes the bytes of its range

`read_inode_data` and `write_inode_data_grow` cut their range into pieces that lie in one
block each. Byte positions have 64 bits, but the logical block of a position is kept in 32,
and the extent of the block `2 ^ 32 - 1` would end at `2 ^ 32`: a write below that block
changes the bytes of its range and no others, and they are read back.
-/

namespace RadKernel.Ext4

open Kernel Ownership Prog

variable {g : Geometry} {init : Nat → Area} {d d' : Disk} {I I' : Inode}
  {n logical l b i off offset size fuel done : Nat} {data : Nat → UInt8}

/-! ## The bytes of a file -/

/-- A byte of a logical block: zero in a hole. -/
def blockByte (inode : Inode) (logical i : Nat) : DiskQ UInt8 := do
  let physical ← fileBlockNumber inode logical
  let d ← Query.read
  return if physical = 0 then 0 else d.blocks physical i

/-- The byte the block map gives a position. -/
def byteAt (g : Geometry) (inode : Inode) (off : Nat) : DiskQ UInt8 :=
  blockByte inode (u32 (off / g.blockSize)) (off % g.blockSize)

theorem blockByte_of_file (h : fileBlockNumber I l d = some (.ok b)) :
    blockByte I l i d = some (.ok (if b = 0 then 0 else d.blocks b i)) := by
  simp [blockByte, Query.bind_of_ok h, Query.bind_apply]

theorem blockByte_congr (hmap : fileBlockNumber I' l d' = fileBlockNumber I l d)
    (hblocks : ∀ b, fileBlockNumber I l d = some (.ok b) → b ≠ 0 →
      d'.blocks b i = d.blocks b i) : blockByte I' l i d' = blockByte I l i d := by
  cases h : fileBlockNumber I l d with
  | none => rw [blockByte, blockByte, Query.bind_of_none h, Query.bind_of_none (hmap.trans h)]
  | some out =>
    cases out with
    | error e =>
      rw [blockByte, blockByte, Query.bind_of_error h, Query.bind_of_error (hmap.trans h)]
    | ok b =>
      rw [blockByte_of_file h, blockByte_of_file (hmap.trans h)]
      by_cases hb : b = 0
      · simp [hb]
      · simp [hb, hblocks b h hb]

/-- A block that is added reads as the hole it fills. -/
theorem Ensured.blockByte_eq (h : Ensured g logical I d b I' d') (hb : b ≠ 0)
    (hi : i < g.blockSize) : blockByte I' l i d' = blockByte I l i d := by
  by_cases hl : l = logical
  · subst hl
    cases h with
    | found => rfl
    | added hole map fresh zeros =>
      have hnew : fileBlockNumber I' l d' = some (.ok b) := by simp [map]
      rw [blockByte_of_file hole, blockByte_of_file hnew]
      simp [hb, zeros i hi]
  · refine blockByte_congr (h.other hl) fun c hc hc0 => ?_
    rw [h.bytes hc hc0]

theorem Writable.blockByte_write (h : Writable g init n (I, d))
    (hfile : fileBlockNumber I logical d = some (.ok b)) (hb : b ≠ 0) (f : Nat → UInt8) :
    blockByte I l i (d.setBlock b f) =
      if l = logical then some (.ok (f i)) else blockByte I l i d := by
  have hmap := (h.write hfile hb f).2 l
  by_cases hl : l = logical
  · subst hl
    rw [blockByte_of_file (hmap.trans hfile), if_neg hb, if_pos rfl]
    simp [Disk.setBlock]
  · rw [if_neg hl]
    refine blockByte_congr hmap fun c hc hc0 => ?_
    have hne : c ≠ b := by
      rintro rfl
      exact hl (h.inj hc hfile hb)
    simp [Disk.setBlock, Function.update_of_ne hne]

/-! ## Pieces of a range -/

/-- The length of the piece the copy loops handle next. -/
def copyLen (g : Geometry) (offset size done : Nat) : Nat :=
  min (u32 (size - done)) (g.blockSize - (offset + done) % g.blockSize)

theorem copyLen_le : copyLen g offset size done ≤ size - done :=
  (Nat.min_le_left ..).trans (u32_le _)

/-- The copy loops come to their end: no round finds a multiple of `2 ^ 32` bytes left. -/
def Ends (g : Geometry) (offset size : Nat) : Nat → Nat → Prop
  | 0, _ => False
  | fuel + 1, done => size ≤ done ∨
      copyLen g offset size done ≠ 0 ∧ Ends g offset size fuel (done + copyLen g offset size done)

variable {len r m start : Nat} {v : UInt8} {out bytes : Nat → UInt8} {s s' : Ext4State}
  {h : Fin maxOpenFiles}

theorem inPiece_iff (off : Nat) (hlen : len ≤ g.blockSize - start % g.blockSize) :
    (start ≤ off ∧ off < start + len) ↔ off / g.blockSize = start / g.blockSize ∧
      start % g.blockSize ≤ off % g.blockSize ∧
      off % g.blockSize < start % g.blockSize + len := by
  have hstart := Nat.div_add_mod start g.blockSize
  have hoff := Nat.div_add_mod off g.blockSize
  constructor
  · rintro ⟨hle, hlt⟩
    have hsame : off / g.blockSize = start / g.blockSize := by
      refine Nat.div_eq_of_lt_le ?_ ?_
      · rw [Nat.mul_comm]
        omega
      · rw [Nat.mul_comm, Nat.mul_succ]
        omega
    rw [hsame] at hoff
    exact ⟨hsame, by omega, by omega⟩
  · rintro ⟨hsame, hle, hlt⟩
    rw [hsame] at hoff
    omega

theorem index_of_same_block (hsame : off / g.blockSize = start / g.blockSize)
    (hle : start ≤ off) : start % g.blockSize + (off - start) = off % g.blockSize := by
  have hs := Nat.div_add_mod start g.blockSize
  have ho := Nat.div_add_mod off g.blockSize
  rw [hsame] at ho
  omega

/-! ## Positions in 32 bits of blocks -/

/-- The bytes that 32 bits of block numbers tell apart. -/
def turn (g : Geometry) : Nat := g.blockSize * 2 ^ 32

section
variable (g)

theorem turn_pos : 0 < turn g := Nat.mul_pos g.blockSize_pos (by decide)

theorem block_mod (off : Nat) :
    u32 (off % turn g / g.blockSize) = u32 (off / g.blockSize) ∧
      off % turn g % g.blockSize = off % g.blockSize := by
  unfold turn u32
  rw [Nat.mod_mul_right_div_self, Nat.mod_mod, Nat.mod_mul_right_mod]
  exact ⟨rfl, rfl⟩

/-- The map sees positions modulo `2 ^ 32` blocks. -/
theorem byteAt_mod (I : Inode) (off : Nat) : byteAt g I (off % turn g) d = byteAt g I off d := by
  unfold byteAt
  rw [(block_mod g off).1, (block_mod g off).2]

theorem turn_dvd : turn g ∣ 2 ^ 64 := by
  unfold turn
  rcases g.blockSize_eq with h | h | h <;> rw [h] <;> decide

/-- So does the write loop, whose positions have 64 bits. -/
theorem writeLoop_mod (offset size : Nat) (data : Nat → UInt8) (fuel done : Nat) :
    writeLoop g (offset % turn g) size data fuel done = writeLoop g offset size data fuel done := by
  induction fuel generalizing done with
  | zero => rfl
  | succ fuel ih =>
    have hsame : u64 (offset % turn g + done) % turn g = u64 (offset + done) % turn g := by
      unfold u64
      rw [Nat.mod_mod_of_dvd _ (turn_dvd g), Nat.mod_mod_of_dvd _ (turn_dvd g), Nat.mod_add_mod]
    have hblock := (block_mod g (u64 (offset % turn g + done))).1
    have hindex := (block_mod g (u64 (offset % turn g + done))).2
    rw [hsame, (block_mod g _).1] at hblock
    rw [hsame, (block_mod g _).2] at hindex
    unfold writeLoop
    simp only [← hblock, ← hindex, ih]

theorem ends_mod (offset size fuel done : Nat) :
    Ends g (offset % turn g) size fuel done ↔ Ends g offset size fuel done := by
  induction fuel generalizing done with
  | zero => rfl
  | succ fuel ih =>
    have hcopy : copyLen g (offset % turn g) size done = copyLen g offset size done := by
      have hindex : (offset % turn g + done) % g.blockSize = (offset + done) % g.blockSize := by
        rw [← (block_mod g (offset % turn g + done)).2, Nat.mod_add_mod, (block_mod g _).2]
      simp only [copyLen, hindex]
    unfold Ends
    rw [hcopy, ih]

end

/-! ## Writing -/

theorem byteAt_piece {src : Nat → UInt8} (h : Writable g init n (I, d))
    (hlen : len ≤ g.blockSize - start % g.blockSize) (hstart : start / g.blockSize < 2 ^ 32)
    (hfile : fileBlockNumber I (u32 (start / g.blockSize)) d = some (.ok b)) (hb : b ≠ 0)
    (hoff : off / g.blockSize < 2 ^ 32) :
    byteAt g I off (d.setBlock b (overlay (d.blocks b) (start % g.blockSize) len src)) =
      if start ≤ off ∧ off < start + len then some (.ok (src (off - start)))
      else byteAt g I off d := by
  rw [u32, Nat.mod_eq_of_lt hstart] at hfile
  simp only [byteAt, u32, Nat.mod_eq_of_lt hoff]
  rw [h.blockByte_write hfile hb, if_congr (inPiece_iff off hlen) rfl rfl]
  by_cases hsame : off / g.blockSize = start / g.blockSize
  · rw [if_pos hsame]
    unfold overlay
    by_cases hin : start % g.blockSize ≤ off % g.blockSize ∧
        off % g.blockSize < start % g.blockSize + len
    · have hle : start ≤ off := ((inPiece_iff off hlen).2 ⟨hsame, hin⟩).1
      have hsub : off % g.blockSize - start % g.blockSize = off - start := by
        rw [← index_of_same_block hsame hle, Nat.add_sub_cancel_left]
      rw [if_pos hin, if_pos ⟨hsame, hin⟩, hsub]
    · rw [if_neg hin, if_neg fun hc => hin hc.2, hsame, blockByte_of_file hfile, if_neg hb]
  · rw [if_neg hsame, if_neg fun hc => hsame hc.1]

/-- The bytes of a range replaced. -/
def overwritten (old : Nat → Option (Except Status UInt8)) (offset first size : Nat)
    (data : Nat → UInt8) (off : Nat) : Option (Except Status UInt8) :=
  if offset + first ≤ off ∧ off < offset + size then some (.ok (data (off - offset))) else old off

theorem writeLoop_ok (h : Writable g init n (I, d)) (hdone : done ≤ size)
    (hlimit : size = done ∨ offset + size ≤ (2 ^ 32 - 1) * g.blockSize)
    (hx : writeLoop g offset size data fuel done (I, d) = some (.ok r, I', d')) :
    r = size ∧ Writable g init n (I', d') ∧ I'.size = I.size ∧ Ends g offset size fuel done ∧
      ∀ off, off / g.blockSize < 2 ^ 32 → byteAt g I' off d' =
        overwritten (byteAt g I · d) offset done size data off := by
  induction fuel generalizing done I d with
  | zero => cases hx
  | succ fuel ih =>
    unfold writeLoop at hx
    by_cases hend : size ≤ done
    · rw [if_pos hend] at hx
      cases hx
      obtain rfl := Nat.le_antisymm hdone hend
      refine ⟨rfl, h, rfl, .inl hend, fun off _ => ?_⟩
      rw [overwritten, if_neg (by omega)]
    · rw [if_neg hend] at hx
      have hlimit : offset + size ≤ (2 ^ 32 - 1) * g.blockSize := hlimit.resolve_left (by omega)
      have hpos := g.blockSize_pos
      have hsize : g.blockSize ≤ 4096 := by
        have := g.blockSize_eq
        omega
      have hblock : (offset + done) / g.blockSize < 2 ^ 32 - 1 := by
        refine Nat.div_lt_of_lt_mul ?_
        omega
      have habsolute : u64 (offset + done) = offset + done := by
        refine Nat.mod_eq_of_lt ?_
        omega
      have hlogical : u32 ((offset + done) / g.blockSize) = (offset + done) / g.blockSize :=
        Nat.mod_eq_of_lt (by omega)
      simp only [habsolute, Prog.bind_apply] at hx
      cases hensure : ensureInodeBlock g (u32 ((offset + done) / g.blockSize)) (I, d) with
      | none => simp [hensure] at hx
      | some out =>
        obtain ⟨out, I₁, d₁⟩ := out
        rw [hensure] at hx
        cases out with
        | error e => simp at hx
        | ok b =>
          obtain ⟨h₁, hb, hensured⟩ := ensureInodeBlock_ok h (by omega) hensure
          have hlen : copyLen g offset size done ≤
              g.blockSize - (offset + done) % g.blockSize := Nat.min_le_right ..
          have hcopy : min (u32 (size - done)) (g.blockSize - (offset + done) % g.blockSize) =
              copyLen g offset size done := rfl
          simp only [runDisk_apply, writeBlockPart, Prog.modify_apply, Option.map_some, hcopy] at hx
          split at hx
          case isTrue => cases hx
          case isFalse hcopy0 =>
            have hfile := hensured.file
            have h₂ := (h₁.write hfile hb (overlay (d₁.blocks b)
              ((offset + done) % g.blockSize) (copyLen g offset size done)
              fun i => data (done + i))).1
            have hle : copyLen g offset size done ≤ size - done := copyLen_le
            obtain ⟨hr, hw, hsize', hends, hbytes⟩ := ih h₂ (by omega) (.inr hlimit) hx
            refine ⟨hr, hw, hsize'.trans hensured.size_eq, .inr ⟨hcopy0, hends⟩, fun off hoff => ?_⟩
            rw [hbytes off hoff]
            simp only [overwritten]
            rw [byteAt_piece h₁ hlen (by omega) hfile hb hoff]
            have hold : byteAt g I₁ off d₁ = byteAt g I off d :=
              hensured.blockByte_eq hb (Nat.mod_lt _ hpos)
            rw [hold]
            -- behind the piece, in it, and elsewhere
            by_cases hlater : offset + (done + copyLen g offset size done) ≤ off ∧
                off < offset + size
            · rw [if_pos hlater, if_pos (by omega)]
            · rw [if_neg hlater]
              by_cases hin : offset + done ≤ off ∧ off < offset + done + copyLen g offset size done
              · rw [if_pos hin, if_pos (by omega), show done + (off - (offset + done)) =
                  off - offset by omega]
              · rw [if_neg hin, if_neg (by omega)]

theorem grownInode_size (I : Inode) (nextSize : Nat) :
    (grownInode I nextSize).size = if I.size < nextSize then u64 nextSize else I.size := by
  unfold grownInode
  split <;> rfl

/-- The map does not see what else an inode and the volume hold. -/
theorem byteAt_congr (harea : I'.area = I.area) (hblocks : d'.blocks = d.blocks) :
    byteAt g I' off d' = byteAt g I off d := by
  refine blockByte_congr ?_ fun b _ _ => by rw [hblocks]
  have hsame : fileBlockNumber I' (u32 (off / g.blockSize)) =
      fileBlockNumber I (u32 (off / g.blockSize)) := by
    unfold fileBlockNumber
    rw [harea]
  rw [hsame]
  exact fileBlockNumber_congr fun _ _ _ => by rw [hblocks]

theorem writeInodeDataGrow_run
    (hx : writeInodeDataGrow g n offset size data (I, d) = some (.ok r, I', d')) :
    ∃ I₁ d₁, writeLoop g offset size data (size + 1) 0 (I, d) = some (.ok r, I₁, d₁) ∧
      I' = grownInode I₁ (u64 (offset + r)) ∧ d' = d₁.setInode n I' := by
  unfold writeInodeDataGrow at hx
  rw [Prog.bind_apply] at hx
  cases hloop : writeLoop g offset size data (size + 1) 0 (I, d) with
  | none => simp [hloop] at hx
  | some out =>
    obtain ⟨out, I₁, d₁⟩ := out
    rw [hloop] at hx
    cases out with
    | error e => cases hx
    | ok done =>
      by_cases hn : n = 0
      · simp [hn, Prog.bind_apply, modifyCopy, writeCopy, runDisk_apply, writeInode] at hx
      · simp only [Prog.bind_apply, modifyCopy, Prog.modify_apply, writeCopy, Prog.read_apply,
          runDisk_apply, writeInode, hn, if_false, Option.map_some, Prog.pure_apply,
          Option.some.injEq, Prod.mk.injEq, Except.ok.injEq] at hx
        obtain ⟨rfl, rfl, rfl⟩ := hx
        exact ⟨I₁, d₁, rfl, rfl, rfl⟩

/-- A finished write: the copy is on disk, the file reaches the end of the range, and the
bytes of the range are the new ones. -/
theorem writeInodeDataGrow_ok (h : Writable g init n (I, d))
    (hlimit : size = 0 ∨ offset % turn g + size ≤ (2 ^ 32 - 1) * g.blockSize)
    (hx : writeInodeDataGrow g n offset size data (I, d) = some (.ok r, I', d')) :
    r = size ∧ d'.inodes n = I' ∧ Ends g offset size (size + 1) 0 ∧
      I'.size = (if I.size < u64 (offset + size) then u64 (offset + size) else I.size) ∧
      ∀ off, byteAt g I' off d' =
        overwritten (byteAt g I · d) (offset % turn g) 0 size data (off % turn g) := by
  obtain ⟨I₁, d₁, hloop, hI', rfl⟩ := writeInodeDataGrow_run hx
  rw [← writeLoop_mod] at hloop
  obtain ⟨rfl, hw, hsize, hends, hbytes⟩ := writeLoop_ok h (Nat.zero_le _) hlimit hloop
  refine ⟨rfl, Function.update_self .., (ends_mod ..).1 hends, ?_, fun off => ?_⟩
  · rw [hI', grownInode_size, hsize]
    by_cases hgrow : I.size < u64 (offset + r)
    · rw [if_pos hgrow, if_pos hgrow]
      exact Nat.mod_mod ..
    · rw [if_neg hgrow, if_neg hgrow]
  · have hlow : off % turn g / g.blockSize < 2 ^ 32 :=
      Nat.div_lt_of_lt_mul (Nat.mod_lt _ (turn_pos g))
    rw [← hbytes _ hlow, ← byteAt_mod]
    exact byteAt_congr (hI' ▸ grownInode_area I₁ _) rfl

/-! ## Reading -/

theorem fileBlockNumber_of_blockByte (h : blockByte I l i d = some (.ok v)) :
    ∃ b, fileBlockNumber I l d = some (.ok b) ∧ (if b = 0 then 0 else d.blocks b i) = v := by
  obtain ⟨b, hb, hrest⟩ := Query.bind_eq_ok.1 h
  refine ⟨b, hb, ?_⟩
  simpa [Query.bind_apply] using hrest

theorem readLoop_ok (out : Nat → UInt8) (hdone : done ≤ size) (hends : Ends g offset size fuel done)
    (hbytes : ∀ k, done ≤ k → k < size → byteAt g I (offset + k) d = some (.ok (data k))) :
    ∃ bytes, readLoop g I offset size fuel done out d = some (.ok (size, bytes)) ∧
      ∀ k, k < size → bytes k = if done ≤ k then data k else out k := by
  induction fuel generalizing done out with
  | zero => exact hends.elim
  | succ fuel ih =>
    unfold readLoop
    by_cases hend : size ≤ done
    · obtain rfl := Nat.le_antisymm hdone hend
      rw [if_pos hend]
      exact ⟨out, rfl, fun k hk => by rw [if_neg (by omega)]⟩
    · obtain ⟨hcopy0, hends⟩ := hends.resolve_left hend
      have hcopy : min (u32 (size - done)) (g.blockSize - (offset + done) % g.blockSize) =
          copyLen g offset size done := rfl
      have hlen : copyLen g offset size done ≤
          g.blockSize - (offset + done) % g.blockSize := Nat.min_le_right ..
      have hle : copyLen g offset size done ≤ size - done := copyLen_le
      obtain ⟨b, hfile, -⟩ := fileBlockNumber_of_blockByte (hbytes done (Nat.le_refl _) (by omega))
      -- the bytes of the piece are those of the block found for its first byte
      have hpiece : ∀ k, done ≤ k → k < done + copyLen g offset size done →
          (if b = 0 then fun _ => 0 else d.blocks b)
            ((offset + done) % g.blockSize + (k - done)) = data k := by
        intro k hk hlt
        obtain ⟨hsame, hmod, -⟩ := (inPiece_iff (offset + k) hlen).1 (by omega)
        have hbyte := hbytes k hk (by omega)
        rw [byteAt, hsame, blockByte_of_file hfile] at hbyte
        have hindex := index_of_same_block hsame (by omega)
        rw [Nat.add_sub_add_left] at hindex
        split <;> simp_all
      rw [if_neg hend, Query.bind_of_ok hfile]
      simp only [Query.bind_apply, Query.read_apply, hcopy, hcopy0, if_false]
      obtain ⟨bytes, hrun, hall⟩ := @ih (done + copyLen g offset size done)
        (overlay out done (copyLen g offset size done) fun i =>
          (if b = 0 then fun _ => 0 else d.blocks b) ((offset + done) % g.blockSize + i))
        (by omega) hends fun k hk hlt => hbytes k (by omega) hlt
      refine ⟨bytes, hrun, fun k hk => ?_⟩
      rw [hall k hk]
      unfold overlay
      by_cases hlater : done + copyLen g offset size done ≤ k
      · rw [if_pos hlater, if_pos (by omega)]
      · rw [if_neg hlater]
        by_cases hin : done ≤ k
        · rw [if_pos ⟨hin, by omega⟩, if_pos hin]
          exact hpiece k hin (by omega)
        · rw [if_neg fun hc => hin hc.1, if_neg hin]

theorem readInodeData_ok (hsize : offset + size ≤ I.size) (hends : Ends g offset size (size + 1) 0)
    (hbytes : ∀ k, k < size → byteAt g I (offset + k) d = some (.ok (data k))) :
    ∃ bytes, readInodeData g I offset size d = some (.ok (size, bytes)) ∧
      ∀ k, k < size → bytes k = data k := by
  unfold readInodeData
  by_cases hempty : I.size ≤ offset
  · obtain rfl : size = 0 := by omega
    rw [if_pos hempty]
    exact ⟨_, rfl, fun k hk => absurd hk (Nat.not_lt_zero _)⟩
  · rw [if_neg hempty]
    rw [Nat.min_eq_right (by omega)]
    obtain ⟨bytes, hrun, hall⟩ := readLoop_ok (fun _ => 0) (Nat.zero_le _) hends
      fun k _ hk => hbytes k hk
    exact ⟨bytes, hrun, fun k hk => by rw [hall k hk, if_pos (Nat.zero_le _)]⟩

theorem readLoop_length (hdone : done ≤ size)
    (hx : readLoop g I offset size fuel done out d = some (.ok (r, bytes))) : r = size := by
  induction fuel generalizing done out with
  | zero => cases hx
  | succ fuel ih =>
    unfold readLoop at hx
    by_cases hend : size ≤ done
    · rw [if_pos hend] at hx
      cases hx
      omega
    · rw [if_neg hend] at hx
      obtain ⟨b, -, hx⟩ := Query.bind_eq_ok.1 hx
      have hle : copyLen g offset size done ≤ size - done := copyLen_le
      simp only [Query.bind_apply, Query.read_apply] at hx
      split at hx
      · cases hx
      · refine ih ?_ hx
        unfold copyLen at hle
        omega

theorem readLoop_bytes (hx : readLoop g I offset size fuel done out d = some (.ok (r, bytes))) :
    (∀ k, done ≤ k → k < size → byteAt g I (offset + k) d = some (.ok (bytes k))) ∧
      ∀ k, k < done → bytes k = out k := by
  induction fuel generalizing done out with
  | zero => cases hx
  | succ fuel ih =>
    unfold readLoop at hx
    by_cases hend : size ≤ done
    · rw [if_pos hend] at hx
      cases hx
      exact ⟨fun k hk hlt => by omega, fun k _ => rfl⟩
    · rw [if_neg hend] at hx
      obtain ⟨b, hfile, hx⟩ := Query.bind_eq_ok.1 hx
      have hcopy : min (u32 (size - done)) (g.blockSize - (offset + done) % g.blockSize) =
          copyLen g offset size done := rfl
      have hlen : copyLen g offset size done ≤
          g.blockSize - (offset + done) % g.blockSize := Nat.min_le_right ..
      simp only [Query.bind_apply, Query.read_apply, hcopy] at hx
      split at hx
      · cases hx
      · obtain ⟨hlater, hbefore⟩ := ih hx
        refine ⟨fun k hk hlt => ?_, fun k hk => ?_⟩
        · by_cases hpiece : done + copyLen g offset size done ≤ k
          · exact hlater k hpiece hlt
          · rw [hbefore k (by omega), overlay, if_pos ⟨hk, by omega⟩]
            obtain ⟨hsame, -, -⟩ := (inPiece_iff (offset + k) hlen).1 (by omega)
            have hindex := index_of_same_block hsame (by omega)
            rw [Nat.add_sub_add_left] at hindex
            rw [byteAt, hsame, blockByte_of_file hfile, hindex]
            split <;> rfl
        · rw [hbefore k (by omega), overlay, if_neg (by omega)]

theorem readInodeData_bytes (hx : readInodeData g I offset size d = some (.ok (size, bytes))) :
    ∀ k, k < size → byteAt g I (offset + k) d = some (.ok (bytes k)) := by
  intro k hk
  unfold readInodeData at hx
  split at hx
  · cases hx
    omega
  · have hall := (readLoop_bytes hx).1
    have hr := readLoop_length (Nat.zero_le _) hx
    exact hall k (Nat.zero_le _) (by omega)

def readByte (g : Geometry) (inode : Inode) (off : Nat) : DiskQ UInt8 := do
  let (_, bytes) ← readInodeData g inode off 1
  return bytes 0

/-- The blocks named by the inodes in use are marked and named once, inodes not in use name
none, and block zero is neither free nor named. -/
structure Consistent (g : Geometry) (d : Disk) : Prop where
  owned : Owned g d
  clean : CleanFree g d
  unnamed : ∀ n p, ¬slotRefs d n p 0
  zero : ZeroTaken g d

/-- The position `ext4_write` starts at. -/
def writePosition (file : Ext4File) : Nat :=
  if file.flags &&& vfsAppend ≠ 0 then file.inode.size else file.position

/-- The range ends, counted modulo `2 ^ 32` blocks, before the last logical block that 32
bits can number, and no byte of the file outside the range is told apart from one of the
range by a multiple of `2 ^ 32` blocks only. -/
def InRange (g : Geometry) (h : Fin maxOpenFiles) (size : Nat) (s : Ext4State) : Prop :=
  let first := writePosition (s.files h)
  size = 0 ∨ first % turn g + size ≤ (2 ^ 32 - 1) * g.blockSize ∧
    ∀ off < (s.files h).inode.size, ¬(first ≤ off ∧ off < first + size) →
      ¬(first % turn g ≤ off % turn g ∧ off % turn g < first % turn g + size)

theorem Consistent.writable (hc : Consistent g d) (hends : (d.inodes n).area.EndsInRange) :
    Writable g (fun n => (d.inodes n).area) n (d.inodes n, d) :=
  have hgood := good_of_image hc.owned hc.clean
  ⟨hgood, hgood.heldSlot n, hgood.index n, hends, fun p => hc.unnamed n p, hc.zero⟩

theorem oneFile_consistent : Consistent smallVolume oneFile where
  owned := oneFile_owned
  clean := oneFile_clean
  unnamed n p h := by have := (oneFile_refs h).2; omega
  zero := .inl (by decide)

/-- The state after `ext4_open("/a")` of the small volume, for reading and writing. -/
def opened : Ext4State where
  disk := oneFile
  files _ :=
    { inodeNumber := 12, inode := oneFile.inodes 12, flags := vfsRead ||| vfsWrite, used := true }

end RadKernel.Ext4
