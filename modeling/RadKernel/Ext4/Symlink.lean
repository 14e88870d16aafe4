import RadKernel.Ext4.NewInode

/-!
# Symbolic links

A target of up to 60 bytes lies in the inode, a longer one in blocks. `ext4_symlink`, `ext4_readlink`
and `free_inode_blocks` tell the two forms apart in three ways: by the length of the target, by the size
of the inode and by its extents flag.
-/

namespace RadKernel.Ext4

open Kernel Ownership Prog

variable {g : Geometry} {init : Nat → Area} {content : Nat → List (List Entry)}
  {d d' : Disk} {k l n p b : Nat} {I I' : Inode} {name path target : List UInt8}
  {es : List (List Entry)}

/-! ## Storing the target -/

/-- Extents of written blocks in a leaf, as `set_inode_block` makes them. -/
def Area.Plain (area : Area) : Prop :=
  area.CanFree ∧ ∀ node, area = .extents node → ∀ e ∈ node.records, 0 < e.len ∧ e.len < 2 ^ 15

theorem extendExtent_plain {records records' : List Extent}
    (h : extendExtent l b records = some records')
    (hplain : ∀ e ∈ records, 0 < e.len ∧ e.len < 2 ^ 15) :
    ∀ e ∈ records', 0 < e.len ∧ e.len < 2 ^ 15 := by
  induction records generalizing records' with
  | nil => cases h
  | cons e records ih =>
    have hrest : ∀ e' ∈ records, 0 < e'.len ∧ e'.len < 2 ^ 15 := fun e' he' =>
      hplain e' (List.mem_cons_of_mem _ he')
    unfold extendExtent at h
    split at h
    case isTrue hfit =>
      cases h
      intro e' he'
      rcases List.mem_cons.1 he' with rfl | he'
      · exact ⟨Nat.succ_pos _, show e.count + 1 < 2 ^ 15 by omega⟩
      · exact hrest e' he'
    case isFalse =>
      obtain ⟨rest, hrec, rfl⟩ := Option.map_eq_some_iff.1 h
      intro e' he'
      rcases List.mem_cons.1 he' with rfl | he'
      · exact hplain e' List.mem_cons_self
      · exact ih hrec hrest e' he'

theorem setInodeBlock_plain (h : setInodeBlock g I l b = .ok I') (hplain : I.area.Plain) :
    I'.area.Plain := by
  unfold setInodeBlock at h
  split at h
  · cases h
  case h_2 node harea =>
    split at h
    · cases h
    case isFalse hnode =>
      have hnode : node.magic = extentHeaderMagic ∧ node.depth = 0 := by simpa [not_or] using hnode
      have hold := hplain.2 node harea
      split at h
      case h_1 records hext =>
        cases h
        refine ⟨hnode, ?_⟩
        rintro _ ⟨⟩
        exact extendExtent_plain hext hold
      case h_2 =>
        split at h
        · cases h
        · cases h
          refine ⟨hnode, ?_⟩
          rintro _ ⟨⟩ e he
          rcases List.mem_cons.1 ((insertExtent_perm _ _).mem_iff.1 he) with rfl | he
          · exact ⟨Nat.one_pos, show 1 < 2 ^ 15 by decide⟩
          · exact hold e he

theorem plain_stable : Stable g n fun s =>
    Working g init (fun _ => True) n n I s ∧ s.1.area.Plain := by
  refine stable_of_work (fun hw h hx => ?_) (fun _ _ h _ => h) (fun h harea _ _ => harea ▸ h)
    fun h => h
  cases ensureInodeBlock_step hx with
  | unreadable => exact h
  | found => exact h
  | full => exact h
  | refused => exact h
  | added hfile hfree hset => exact setInodeBlock_plain hset h

/-- All blocks of such an inode are freed. -/
theorem freed_of_plain {area : Area} (h : area.Plain) (hends : area.EndsInRange) :
    area.freed 0 = area.leaf := by
  cases area with
  | raw bytes => rfl
  | extents node =>
    obtain ⟨⟨hmagic, hdepth⟩, hplain⟩ := h
    have hplain := hplain node rfl
    have hends := hends node rfl hdepth
    simp only [Area.freed, Area.leaf, hmagic, hdepth, and_self, if_true]
    generalize node.records = records at hplain hends
    induction records with
    | nil => rfl
    | cons e records ih =>
      obtain ⟨hpos, hlen⟩ := hplain e List.mem_cons_self
      have hend := hends e List.mem_cons_self
      have hcount : e.count = e.len := Nat.mod_eq_of_lt hlen
      have hlength : e.length = e.len := if_pos (Nat.le_of_lt hlen)
      have hblocks : List.range' (e.start + keptBlocks e 0) (e.count - keptBlocks e 0) =
          e.blocks := by
        simp [keptBlocks, Extent.blocks, hcount, hlength]
      have hrest := ih (fun e' he' => hplain e' (List.mem_cons_of_mem _ he'))
        fun e' he' => hends e' (List.mem_cons_of_mem _ he')
      have hsome : ¬u32 (e.block + e.count) ≤ 0 := by
        rw [u32, Nat.mod_eq_of_lt hend, hcount]
        omega
      rw [freedBlocks, if_neg hsome, hblocks, hrest]
      rfl

/-- The target of a link, in the inode or in its blocks. -/
structure HoldsTarget (g : Geometry) (target : List UInt8) (I : Inode) (d : Disk) : Prop where
  size : I.size = target.length
  short : target.length ≤ inlineBytes → I.area = .raw target
  long : inlineBytes < target.length → Ends g 0 target.length (target.length + 1) 0 ∧
    ∀ i, i < target.length → byteAt g I i d = some (.ok (target.getD i 0))

/-- What `ext4_symlink` has made of a new inode before it is entered under its name. -/
structure Stored (g : Geometry) (init : Nat → Area) (n : Nat) (target : List UInt8) (s s' : Inode × Disk) :
    Prop where
  writable : Writable g init n s'
  leaves : Leaves g n s.2 s'.2
  bits : s'.2.inodeBitmap = s.2.inodeBitmap
  took : Took g s s'
  plain : s'.1.area.Plain
  mode : s'.1.mode = s.1.mode
  links : s'.1.linksCount = s.1.linksCount
  holds : HoldsTarget g target s'.1 s'.2

theorem writeInodeDataGrow_writable {size r : Nat} {data : Nat → UInt8}
    (h : Writable g init n (I, d))
    (hsize : size ≤ 4096) (hx : writeInodeDataGrow g n 0 size data (I, d) = some (.ok r, I', d')) :
    Writable g init n (I', d') := by
  obtain ⟨I₁, d₁, hloop, rfl, rfl⟩ := writeInodeDataGrow_run hx
  have hblock := g.blockSize_eq
  obtain ⟨-, hw, -⟩ := writeLoop_ok h (Nat.zero_le _) (.inr (by omega)) hloop
  exact (hw.setCopy (grownInode_area I₁ _)).commit

theorem storeTarget_ok (hgood : Good g init d) (hzero : ZeroTaken g d) (hinit : ¬(init n).IsIndex)
    (hlen : target.length ≤ 4096) (hsize : I.size = target.length)
    (hx : storeTarget g n target (I, d) = some (.ok (), I', d')) :
    Stored g init n target (I, d) (I', d') := by
  unfold storeTarget at hx
  split at hx
  case isTrue hshort =>
    cases hx
    have hw : Writable g init n ({ I with area := .raw target }, d) :=
      writable_of_blank hgood hzero hinit (fun h => h) rfl (by rintro _ ⟨⟩)
    refine ⟨hw, .refl g n d, rfl, ⟨fun b => ?_, fun b hb => ?_⟩, ⟨trivial, by rintro _ ⟨⟩⟩, rfl, rfl,
      hsize, fun _ => rfl, fun hlong => absurd hshort (Nat.not_le.2 hlong)⟩
    · exact ⟨.inl, fun h => h.elim id (by simp [Area.leaf])⟩
    · simp [Area.leaf] at hb
  case isFalse hlong =>
    obtain ⟨⟨⟩, ⟨I₀, d₀⟩, hinitial, hx⟩ := Prog.bind_eq_ok.1 hx
    cases hinitial
    obtain ⟨r, ⟨I₁, d₁⟩, hgrow, hx⟩ := Prog.bind_eq_ok.1 hx
    split at hx
    · cases hx
    case isFalse hall =>
      cases hx
      have hleaf : (initExtentInode I).area.leaf = [] := rfl
      have hw : Writable g init n (initExtentInode I, d) := by
        refine writable_of_blank hgood hzero hinit ?_ hleaf ?_
        · simp [initExtentInode, Area.IsIndex, emptyNode]
        · rintro _ ⟨⟩ - e he
          simp [emptyNode] at he
      have hwork : Working g init (fun _ => True) n n (initExtentInode I) (initExtentInode I, d) :=
        hw.work
      obtain ⟨-, hlocal⟩ := local_of_run (fun hs => hs.writeInodeDataGrow) hw.work hgrow
      have htook := took_of_run (fun hs => hs.writeInodeDataGrow) hw.work hgrow
      have hplain := plain_stable.writeInodeDataGrow.ok
        ⟨hwork, ⟨⟨rfl, rfl⟩, by rintro _ ⟨⟩ e he; simp [emptyNode] at he⟩⟩ hgrow
      have hblock := g.blockSize_eq
      obtain ⟨-, -, hends, hsize', hbytes⟩ := writeInodeDataGrow_ok hw
        (.inr (by rw [Nat.zero_mod]; omega)) hgrow
      refine ⟨writeInodeDataGrow_writable hw hlen hgrow, hlocal.leaves hw.work, hlocal.bits,
        ⟨htook.marked, fun b hb => ?_⟩, hplain.2, hlocal.mode, hlocal.links, ?_⟩
      · exact .inr ((htook.fresh b hb).resolve_left (by simp [hleaf]))
      · refine ⟨?_, fun hshort => absurd hshort hlong, fun _ => ⟨hends, fun i hi => ?_⟩⟩
        · rw [hsize']
          have hsame : (initExtentInode I).size = target.length := hsize
          rw [hsame, u64, Nat.mod_eq_of_lt (by omega), Nat.zero_add, if_neg (Nat.lt_irrefl _)]
        · have hturn : i % turn g = i := Nat.mod_eq_of_lt (by unfold turn; omega)
          rw [hbytes, hturn, overwritten, if_pos (by rw [Nat.zero_mod]; omega), Nat.zero_mod,
            Nat.sub_zero]

/-! ## The link under its name -/

/-- The volume after inode `n` was made a link and entered in directory `p`. -/
structure MadeLink (g : Geometry) (init : Nat → Area) (content : Nat → List (List Entry))
    (target path : List UInt8) (d d' : Disk) (p n : Nat) (name : List UInt8)
    (es : List (List Entry)) : Prop where
  parent : ∃ dir, splitParent path = .ok (dir, name) ∧
    lookupPath g dir d = some (.ok (p, d.inodes p))
  isDir : IsDir g d p
  keeps : ∀ k, IsDir g d k → IsDir g d' k
  rooted : Rooted g init (Function.update content p es) d'
  entered : es.flatten.Perm (⟨name, n⟩ :: (content p).flatten)
  absent : name ∉ (content p).flatten.keys
  free : inodeBit g d n = false
  freeable : Freeable g n
  inUse : Allocated g d' n
  symlink : inodeIsSymlink (d'.inodes n) = true
  links : (d'.inodes n).linksCount = 1
  plain : (d'.inodes n).area.Plain
  ends : (d'.inodes n).area.EndsInRange
  holds : HoldsTarget g target (d'.inodes n) d'
  bits : ∀ k, 0 < k → inodeBit g d' k = (decide (k = n) || inodeBit g d k)
  marks : ∀ b, Marked g d' b ↔
    Marked g d b ∨ b ∈ (d'.inodes n).area.leaf ∨ b ∈ (d'.inodes p).area.leaf
  fresh : ∀ b ∈ (d'.inodes n).area.leaf, ¬Marked g d b
  roomy : Roomy g name (d.inodes p, d) → (d'.inodes p).area = (d.inodes p).area

theorem byteAt_of_leaves {i : Nat} (h : Leaves g n d d') (hk : k ≠ n) :
    byteAt g (d'.inodes k) i d' = byteAt g (d.inodes k) i d :=
  blockByte_congr (h.file hk) fun _ hfile hb => by rw [h.bytes hk hfile hb]

theorem HoldsTarget.of_leaves (h : HoldsTarget g target (d.inodes k) d) (hl : Leaves g n d d')
    (hk : k ≠ n) : HoldsTarget g target (d'.inodes k) d' := by
  refine ⟨by rw [hl.inode k hk, h.size], fun hs => by rw [hl.inode k hk, h.short hs], fun hlong => ?_⟩
  obtain ⟨hends, hbytes⟩ := h.long hlong
  exact ⟨hends, fun i hi => (byteAt_of_leaves hl hk).trans (hbytes i hi)⟩

theorem HoldsTarget.of_same (h : HoldsTarget g target I d) (hblocks : d'.blocks = d.blocks) :
    HoldsTarget g target I d' :=
  ⟨h.size, h.short, fun hlong => ⟨(h.long hlong).1, fun i hi =>
    (byteAt_congr rfl hblocks).trans ((h.long hlong).2 i hi)⟩⟩

theorem newNode_of_storeTarget {group i : Nat} (h : Dirs g init content d)
    (hfree : findFreeInode g d = some (group, i)) (hlen : target.length ≤ 4096)
    (hstore : storeTarget g (g.inodeNumber group i) target
      (inodeSetSize (newInode (ext4SIfLnk ||| 0o777)) target.length,
        startInode g (ext4SIfLnk ||| 0o777) group i d) = some (.ok (), I', d')) :
    Stored g init (g.inodeNumber group i) target
        (inodeSetSize (newInode (ext4SIfLnk ||| 0o777)) target.length,
          startInode g (ext4SIfLnk ||| 0o777) group i d) (I', d') ∧
      NewNode g init content content (g.inodeNumber group i) I' d
        (d'.setInode (g.inodeNumber group i) I') := by
  have hblank := @writable_startInode g init content d (ext4SIfLnk ||| 0o777) group i h hfree
  have hsize : (inodeSetSize (newInode (ext4SIfLnk ||| 0o777)) target.length).size =
      target.length := Nat.mod_eq_of_lt (by omega)
  have hstored := storeTarget_ok hblank.sound hblank.zero
    (hblank.index.not_isIndex (newInode_not_isIndex _)) hlen hsize hstore
  refine ⟨hstored, .of_writable h hfree rfl hstored.writable hstored.leaves hstored.bits
    (fun _ _ => rfl) fun hdir => ?_⟩
  have hmode : I'.mode = ext4SIfLnk ||| 0o777 := hstored.mode
  rw [inodeIsDir, hmode] at hdir
  exact absurd hdir (by decide)

theorem madeLink_of_symlink (h : Rooted g init content d) (henter : Enterable g d path)
    (hx : ext4Symlink g target path d = some (.ok (), d')) :
    ∃ p n name es, MadeLink g init content target path d d' p n name es := by
  obtain ⟨hlen, p, name, group, i, I₁, d₁, I', hname, hfree, hstore, hadd⟩ := ext4Symlink_ok hx
  obtain ⟨dir, hsplit, hlookup⟩ := hname.parent
  obtain ⟨hisDir, hroom⟩ := henter dir name p hsplit hlookup
  have hp : IsDir g d p := ⟨(h.lookupPath hlookup).1, hisDir⟩
  have habsent := hname.not_mem h.dirs hp
  obtain ⟨hstored, hnew⟩ := newNode_of_storeTarget h.dirs hfree hlen hstore
  generalize g.inodeNumber group i = n at hstored hnew hadd
  obtain ⟨dn, hdn⟩ : ∃ dn, dn = d₁.setInode n I₁ := ⟨_, rfl⟩
  rw [← hdn] at hnew hadd
  have hpn : p ≠ n := hnew.ne hp.1
  have hmode : I₁.mode = ext4SIfLnk ||| 0o777 := hstored.mode
  have hnotDir : ¬IsDir g dn n := fun hdir => by
    have hd := hdir.2
    rw [hnew.stored, inodeIsDir, hmode] at hd
    exact absurd hd (by decide)
  have hrooted : Rooted g init content dn := h.change hnew.leaves hnew.dirs
    (fun _ hk => hnew.allocated hk) (fun hdir => hnew.not_allocated hdir.1) hnotDir
  -- the name
  have hp' : IsDir g dn p := hnew.isDir hp
  have hparent := hnew.leaves.inode p hpn
  have hroom' : Roomy g name (dn.inodes p, dn) ∨ (dn.inodes p).size + g.blockSize < 2 ^ 32 := by
    refine hroom.imp (hnew.leaves.roomy hpn (h.dirs.dir p hp).holds) fun hsmall => ?_
    rw [hparent]
    exact hsmall
  rw [← hparent] at hadd
  obtain ⟨es, hcopy, hrewrote, hperm, hfits⟩ := hnew.dirs.add hp' habsent hnew.pos
    (hnew.freeable.2.trans_lt g.totalInodes_lt) hroom' hadd
  have htook := took_of_run (fun hs => hs.addDirent) (Work.slot hnew.dirs.good p) hadd
  have hkept : d'.inodes n = I₁ := (hrewrote.leaves.inode n (Ne.symm hpn)).trans hnew.stored
  have hmarks : ∀ b, Marked g dn b ↔ Marked g d b ∨ b ∈ I₁.area.leaf := fun b => by
    rw [hdn]
    exact hstored.took.marked b
  have hkeeps : ∀ k, IsDir g d k → IsDir g d' k := fun k hk =>
    (hrewrote.same.isDir k).2 (hnew.isDir hk)
  refine ⟨p, n, name, es, ⟨⟨dir, hsplit, hlookup⟩, hp, hkeeps, hrooted.add hrewrote hp' hperm hnew.inUse habsent,
    hperm, habsent, hnew.free, hnew.freeable, (hrewrote.same.allocated n).2 hnew.inUse, ?_, ?_, ?_, ?_, ?_,
    fun k hk => ?_, fun b => ?_, fun b hb => ?_, fun hfit => ?_⟩⟩
  · rw [hkept, inodeIsSymlink, hmode]
    decide
  · rw [hkept, hstored.links]
    rfl
  · exact hkept ▸ hstored.plain
  · exact hkept ▸ hstored.writable.ends
  · refine HoldsTarget.of_leaves ?_ hrewrote.leaves (Ne.symm hpn)
    rw [hnew.stored, hdn]
    exact hstored.holds.of_same rfl
  · rw [← hnew.bits k hk]
    unfold inodeBit
    rw [hrewrote.same.bits]
  · rw [htook.marked b, hmarks b, hkept, ← hcopy, or_assoc]
  · have hnone : (inodeSetSize (newInode (ext4SIfLnk ||| 0o777)) target.length).area.leaf = [] := rfl
    rw [hkept] at hb
    exact (hstored.took.fresh b hb).resolve_left (by simp [hnone])
  · rw [hcopy, hfits (hnew.leaves.roomy hpn (h.dirs.dir p hp).holds hfit), hparent]

/-! ## Reading the link -/

namespace MadeLink

variable (h : MadeLink g init content target path d d' p n name es)
include h

theorem distinct : es.flatten.NodupKeys := by
  simpa using (h.rooted.dirs.dir p (h.keeps p h.isDir)).distinct

theorem name_ne (hold : Rooted g init content d) : name ≠ [dot] ∧ name ≠ [dot, dot] :=
  hold.name_ne h.isDir h.absent

theorem lookupChild_eq (hk : IsDir g d k) (m : List UInt8) : lookupChild g k m d' =
    lookupResult (if k = p ∧ m = name then some n else (content k).flatten.dlookup m) := by
  rw [h.rooted.dirs.lookup (h.keeps k hk), dlookup_added h.distinct h.entered]

theorem parent_lookup (hold : Rooted g init content d) : ∃ dir,
    splitParent path = .ok (dir, name) ∧ lookupPath g dir d' = some (.ok (p, d'.inodes p)) ∧
      lookupChild g p name d' = some (.ok n) := by
  obtain ⟨dir, hsplit, hlookup⟩ := h.parent
  refine ⟨dir, hsplit, hold.lookupPath_of_keeps (fun k m c hk hm => ?_) hlookup, ?_⟩
  · rw [h.lookupChild_eq hk, if_neg, hm]
    · rfl
    · rintro ⟨rfl, rfl⟩
      rw [List.dlookup_eq_none.2 h.absent] at hm
      cases hm
  · rw [h.lookupChild_eq h.isDir, if_pos ⟨rfl, rfl⟩]
    rfl

theorem lookup (hold : Rooted g init content d) :
    lookupPath g path d' = some (.ok (n, d'.inodes n)) := by
  obtain ⟨dir, hsplit, hparent, hchild⟩ := h.parent_lookup hold
  obtain ⟨hdot, hdots⟩ := h.name_ne hold
  exact lookupPath_of_parent hsplit hdot hdots hparent hchild (Nat.ne_of_gt h.inUse.1)

omit h in
theorem map_range_getD {f : Nat → UInt8} (hf : ∀ i, i < target.length → f i = target.getD i 0) :
    (List.range target.length).map f = target := by
  refine List.ext_getElem (by simp) fun i hi hi' => ?_
  rw [List.getElem_map, List.getElem_range, hf i hi', List.getD_eq_getElem _ _ hi']

section
variable (hold : Rooted g init content d) (hlen : target.length ≤ 4096)
include hold hlen

theorem readlink {size : Nat}
    (hsize : target.length < size) : ext4Readlink g path size d' = some (.ok target) := by
  have hroom : ¬size < u64 ((d'.inodes n).size + 1) := by
    rw [h.holds.size, u64, Nat.mod_eq_of_lt (by omega)]
    omega
  unfold ext4Readlink
  rw [if_neg (by omega), Query.bind_of_ok (h.lookup hold)]
  simp only [h.symlink, Bool.not_true, Bool.false_eq_true, if_false, if_neg hroom]
  by_cases hinline : target.length ≤ inlineBytes
  · rw [if_pos (by rwa [h.holds.size]), h.holds.size, h.holds.short hinline, Query.pure_apply]
    exact congrArg (fun l => some (Except.ok l))
      (@map_range_getD target (Area.raw target).bytes fun i _ => rfl)
  · obtain ⟨hends, hbytes⟩ := h.holds.long (Nat.lt_of_not_le hinline)
    obtain ⟨bytes, hread, hall⟩ := readInodeData_ok
      (by rw [h.holds.size, Nat.zero_add]) hends fun i hi => by simpa using hbytes i hi
    have hattempt : (readInodeData g (d'.inodes n) 0 target.length).attempt d' =
        some (.ok (.ok (target.length, bytes))) := by
      rw [Query.attempt, hread]
      rfl
    rw [if_neg (by rwa [h.holds.size]), h.holds.size, Query.bind_of_ok hattempt]
    simp only [if_true, Query.pure_apply]
    rw [map_range_getD hall]

theorem readlink_short {size : Nat} (hsize : size ≤ target.length) :
    ∃ status, ext4Readlink g path size d' = some (.error status) := by
  unfold ext4Readlink
  by_cases hzero : size = 0
  · exact ⟨_, by rw [if_pos hzero]; rfl⟩
  · have hfull : size < u64 ((d'.inodes n).size + 1) := by
      rw [h.holds.size, u64, Nat.mod_eq_of_lt (by omega)]
      omega
    refine ⟨.noMemory, ?_⟩
    rw [if_neg hzero, Query.bind_of_ok (h.lookup hold)]
    simp only [h.symlink, Bool.not_true, Bool.false_eq_true, if_false, if_pos hfull]
    rfl

end

end MadeLink

/-! ## Removing the link -/

theorem dropInode_apply (hcan : I.area.CanFree) (hin : ∀ b ∈ I.area.freed 0, b < g.totalBlocks)
    (hn : 0 < n) (hfree : Freeable g n) : dropInode g n I d =
      some (.ok (), endInode g n (cutInode g I 0) (releaseAll g (I.area.freed 0) d)) := by
  refine Prog.bind_eq_ok.2 ⟨((), cutInode g I 0), releaseAll g (I.area.freed 0) d, ?_, ?_⟩
  · exact passing_eq_ok.2 (freeInodeBlocks_apply hcan hin)
  · exact freeInode_apply hn hfree.1 hfree.2

theorem ext4Remove_last {dir : List UInt8} {d₁ d₂ : Disk}
    (hsplit : splitParent path = .ok (dir, name))
    (hparent : lookupPath g dir d = some (.ok (p, d.inodes p)))
    (hchild : lookupChild g p name d = some (.ok n)) (hn : n ≠ 0)
    (hnot : inodeIsDir (d.inodes n) = false) (hlinks : (d.inodes n).linksCount = 1)
    (hremove : removeDirent g p name (d.inodes p, d) = some (.ok (), I', d₁))
    (hdrop : dropInode g n { d.inodes n with linksCount := 0 } d₁ = some (.ok (), d₂)) :
    ext4Remove g path d = some (.ok (), d₂) := by
  refine Prog.bind_eq_ok.2 ⟨(dir, name), d, split_eq_ok.2 ⟨hsplit, rfl⟩, ?_⟩
  refine Prog.bind_eq_ok.2 ⟨(p, d.inodes p), d, Prog.query_eq_ok.2 ⟨hparent, rfl⟩, ?_⟩
  refine Prog.bind_eq_ok.2 ⟨n, d, Prog.query_eq_ok.2 ⟨hchild, rfl⟩, ?_⟩
  refine Prog.bind_eq_ok.2 ⟨d.inodes n, d, Prog.query_eq_ok.2 ⟨readInode_apply hn, rfl⟩, ?_⟩
  simp only [hnot, Bool.false_eq_true, if_false, hlinks, Nat.sub_self, if_true]
  exact Prog.bind_eq_ok.2 ⟨((), I'), d₁, passing_eq_ok.2 hremove, hdrop⟩

/-- The call that made the link took inode `n` and the blocks of the target, and the removal gives
them back. The other blocks it took are of the directory, which had no room for the name. -/
structure Undone (g : Geometry) (p n : Nat) (name : List UInt8) (d d' d₂ : Disk) : Prop where
  free : inodeBit g d n = false
  made : ∀ k, 0 < k → inodeBit g d' k = (decide (k = n) || inodeBit g d k)
  inodes : ∀ k, 0 < k → inodeBit g d₂ k = inodeBit g d k
  fresh : ∀ b ∈ (d'.inodes n).area.leaf, ¬Marked g d b
  took : ∀ b, Marked g d' b ↔
    Marked g d b ∨ b ∈ (d'.inodes n).area.leaf ∨ b ∈ (d'.inodes p).area.leaf
  blocks : ∀ b, Marked g d₂ b ↔ Marked g d' b ∧ b ∉ (d'.inodes n).area.leaf
  roomy : Roomy g name (d.inodes p, d) → ∀ b, Marked g d₂ b ↔ Marked g d b

theorem MadeLink.removed (h : MadeLink g init content target path d d' p n name es)
    (hold : Rooted g init content d) :
    ∃ d₂, ext4Remove g path d' = some (.ok (), d₂) ∧ Undone g p n name d d' d₂ := by
  obtain ⟨dir, hsplit, hparent, hchild⟩ := h.parent_lookup hold
  have hp := h.keeps p h.isDir
  have hfound : (Function.update content p es p).flatten.dlookup name = some n := by
    rw [dlookup_added h.distinct h.entered, if_pos ⟨rfl, rfl⟩]
  obtain ⟨_, d₁, hremove, -, hrewrote, -⟩ := h.rooted.dirs.remove hp hfound
  have hwork := Work.slot h.rooted.dirs.good p
  have hmarked : ∀ b, Marked g d₁ b ↔ Marked g d' b := fun b => by
    rw [(took_of_run (fun hs => hs.removeDirent) hwork hremove).marked b]
    exact ⟨fun hb => hb.elim id hwork.leaf_marked, .inl⟩
  -- the blocks that go
  have hleaf : (d'.inodes n).area.freed 0 = (d'.inodes n).area.leaf := freed_of_plain h.plain h.ends
  have hlast : ∀ b ∈ (d'.inodes n).area.leaf, Marked g d' b := fun b hb =>
    (h.marks b).2 (.inr (.inl hb))
  have hin : ∀ b ∈ (d'.inodes n).area.freed 0, b < g.totalBlocks := fun b hb =>
    (hlast b (hleaf ▸ hb)).1
  have hnot : inodeIsDir (d'.inodes n) = false := by
    have hlink := h.symlink
    unfold inodeIsDir
    rw [of_decide_eq_true hlink]
    decide
  have hdrop := @dropInode_apply g d₁ n { d'.inodes n with linksCount := 0 } h.plain.1 hin h.inUse.1
    h.freeable
  have hremoved := ext4Remove_last hsplit hparent hchild (Nat.ne_of_gt h.inUse.1) hnot h.links hremove
    hdrop
  have hafter : ∀ b, Marked g (endInode g n (cutInode g { d'.inodes n with linksCount := 0 } 0)
      (releaseAll g ((d'.inodes n).area.freed 0) d₁)) b ↔
        Marked g d' b ∧ b ∉ (d'.inodes n).area.leaf := fun b => by
    rw [marked_endInode, marked_releaseAll hin, hmarked b, hleaf]
  refine ⟨_, hremoved, h.free, h.bits, fun k hk => ?_, h.fresh, h.marks, fun b => ?_, fun hfit b => ?_⟩
  · have hbit : inodeBit g d₁ k = (decide (k = n) || inodeBit g d k) := by
      rw [← h.bits k hk]
      unfold inodeBit
      rw [hrewrote.same.bits]
    rw [inodeBit_endInode h.inUse.1 hk]
    have hsame : inodeBit g (releaseAll g ((d'.inodes n).area.freed 0) d₁) k = inodeBit g d₁ k := by
      unfold inodeBit
      rw [releaseAll_inodeBitmap]
    rw [hsame, hbit]
    by_cases hkn : k = n
    · simp [hkn, h.free]
    · simp [hkn]
  · exact hafter b
  · rw [hafter b, h.marks b, h.roomy hfit]
    have hparentLeaf : b ∈ (d.inodes p).area.leaf → Marked g d b :=
      (Work.slot hold.dirs.good p).leaf_marked
    have hfresh := h.fresh b
    tauto

/-- What reads and removes a link that was made: it is read back whole, or not at all when the buffer
has no room for the zero behind it, and then removed. -/
structure RoundTrip (g : Geometry) (target path : List UInt8) (d d' : Disk) : Prop where
  reads : ∀ size, target.length < size → ext4Readlink g path size d' = some (.ok target)
  short : ∀ size ≤ target.length, ∃ status, ext4Readlink g path size d' = some (.error status)
  removed : ∃ dir name p n d₂, splitParent path = .ok (dir, name) ∧
    lookupPath g dir d = some (.ok (p, d.inodes p)) ∧
    ext4Remove g path d' = some (.ok (), d₂) ∧ Undone g p n name d d' d₂

/-- On a volume with a directory tree every link that is made is read and removed again. -/
theorem roundTrip_of_symlink (h : Rooted g init content d) (henter : Enterable g d path)
    (hx : ext4Symlink g target path d = some (.ok (), d')) : RoundTrip g target path d d' := by
  have hlen := (ext4Symlink_ok hx).1
  obtain ⟨p, n, name, es, hmade⟩ := madeLink_of_symlink h henter hx
  obtain ⟨dir, hsplit, hparent⟩ := hmade.parent
  obtain ⟨d₂, hremove, hundone⟩ := hmade.removed h
  exact ⟨fun size hsize => hmade.readlink h hlen hsize, fun size hsize =>
    hmade.readlink_short h hlen hsize, dir, name, p, n, d₂, hsplit, hparent, hremove, hundone⟩

/-- A link with a target of 61 bytes, which take a block. -/
theorem roundTrip_long : ∃ d', ext4Symlink smallVolume (List.replicate 61 116) [slash, 98] oneFile =
      some (.ok (), d') ∧
    RoundTrip smallVolume (List.replicate 61 116) [slash, 98] oneFile d' := by
  have hrun : (ext4Symlink smallVolume (List.replicate 61 116) [slash, 98] oneFile).map (fun out =>
      out.1.toOption.isSome) = some true := by decide +kernel
  have hlookup : (lookupPath smallVolume [slash] oneFile).bind (fun out =>
      out.toOption.map fun out => out.1) = some 2 := by decide +kernel
  have hroom : Enterable smallVolume oneFile [slash, 98] := by
    intro dir name p hsplit hparent
    obtain ⟨rfl, rfl⟩ : [slash] = dir ∧ [98] = name := by
      have hparts : splitParent [slash, 98] = .ok ([slash], [98]) := by decide +kernel
      simpa [hparts] using hsplit
    obtain rfl : p = 2 := by simpa [hparent, Except.toOption] using hlookup
    exact ⟨by decide, .inr (by decide)⟩
  obtain ⟨⟨out, d'⟩, hx, hout⟩ := Option.map_eq_some_iff.1 hrun
  cases out with
  | error e => cases hout
  | ok u => exact ⟨d', hx, roundTrip_of_symlink rooted_oneFile hroom hx⟩

/-! ## A directory that grows -/

/-- Eight entries of 128 bytes each, between which a name of 126 bytes finds no room. -/
def wideBlock : Nat → UInt8 :=
  [[dot], [dot, dot], [97], [98], [99], [100], [101], [102]].zipIdx.foldl (fun f (name, i) =>
    putEntry (putRecLen f (128 * i) 128) (128 * i) (if i < 2 then 2 else 12) name ext4FtRegular)
    fun _ => 0

def wideEntries : List Entry :=
  [⟨[dot], 2⟩, ⟨[dot, dot], 2⟩, ⟨[97], 12⟩, ⟨[98], 12⟩, ⟨[99], 12⟩, ⟨[100], 12⟩, ⟨[101], 12⟩,
    ⟨[102], 12⟩]

/-- Records of one length tile a block. -/
theorem tiles_even {f : Nat → UInt8} {w m i : Nat} (hw : 4 ∣ w)
    (h : ∀ i < m, recLen f (w * i) = w ∧ recNeed f (w * i) ≤ w) (hi : i ≤ m) :
    Tiles f (w * m) (w * i) ((List.range' i (m - i)).map (w * ·)) := by
  induction hn : m - i generalizing i with
  | zero =>
    obtain rfl : i = m := by omega
    exact .done
  | succ k ih =>
    obtain ⟨hlen, hneed⟩ := h i (by omega)
    refine .record (by rwa [hlen]) (by rwa [hlen]) ?_
    rw [hlen, ← Nat.mul_succ]
    exact ih (by omega) (by omega)

theorem wideBlock_holds : Holds wideBlock 1024 wideEntries := by
  have hlens : ∀ i < 8, recLen wideBlock (128 * i) = 128 ∧ recNeed wideBlock (128 * i) ≤ 128 := by
    decide +kernel
  exact ⟨_, @tiles_even wideBlock 128 8 0 (by decide) hlens (by decide), by decide +kernel⟩

/-- The block by which a full directory grows stays with it when the link is removed. -/
theorem not_roundTrip_grown : ¬∀ (g : Geometry) (init : Nat → Area)
    (content : Nat → List (List Entry)) (d d' : Disk) (target path : List UInt8),
    Rooted g init content d → ext4Symlink g target path d = some (.ok (), d') →
    (∀ size, target.length < size → ext4Readlink g path size d' = some (.ok target)) ∧
    (∀ size ≤ target.length, ∃ status, ext4Readlink g path size d' = some (.error status)) ∧
    ∃ d₂, ext4Remove g path d' = some (.ok (), d₂) ∧
      (∀ k, 0 < k → inodeBit g d₂ k = inodeBit g d k) ∧ ∀ b, Marked g d₂ b ↔ Marked g d b := by
  intro hall
  have hrun : ((ext4Symlink smallVolume [116] (slash :: List.replicate 126 98)
      (withRoot wideBlock)).bind fun out =>
        (ext4Remove smallVolume (slash :: List.replicate 126 98) out.2).map fun out' =>
          (out.1.toOption.isSome, blockBit smallVolume out'.2 33)) = some (true, true) := by
    decide +kernel
  have hfree : blockBit smallVolume (withRoot wideBlock) 33 = false := by decide +kernel
  have hrooted := @rooted_withRoot wideBlock wideEntries wideBlock_holds
    (by decide : ([[dot], [dot, dot], [97], [98], [99], [100], [101], [102]] : List _).Nodup) rfl rfl
    (by decide)
  obtain ⟨⟨out, d'⟩, hx, hrest⟩ := Option.bind_eq_some_iff.1 hrun
  obtain ⟨⟨out', d₂⟩, hremove, hfacts⟩ := Option.map_eq_some_iff.1 hrest
  simp only [Prod.mk.injEq] at hfacts
  cases out with
  | error e => cases hfacts.1
  | ok u =>
    obtain ⟨-, -, d₃, hremove', -, hmarks⟩ := hall _ _ _ _ _ _ _ hrooted hx
    obtain rfl : d₂ = d₃ := by
      rw [hremove] at hremove'
      cases hremove'
      rfl
    have hbit := ((hmarks 33).1 ⟨by decide, hfacts.2⟩).2
    rw [hfree] at hbit
    cases hbit

end RadKernel.Ext4
