import RadKernel.Ext4.Links
import RadKernel.Ext4.Symlink

/-!
# Link counts over runs

The calls that make and remove names keep the tree and its link counts, as long as no count leaves its
16 bits, a new name goes into a directory, and `ext4_rmdir` is not asked for `.`.
-/

namespace RadKernel.Ext4

open Kernel Ownership Naming Prog

variable {g : Geometry} {init : Nat → Area} {content content' : Nat → List (List Entry)}
  {d d' : Disk} {k n p limit : Nat} {I I' : Inode} {name path : List UInt8}
  {f : Nat → UInt8} {es : List Entry} {early later : List (List Entry)}

/-! ## Empty directories -/

theorem isChild_iff {pos : Nat} : isChild f pos = true ↔ entryInode f pos ≠ 0 ∧
    entryName f pos ≠ [dot] ∧ entryName f pos ≠ [dot, dot] := by
  unfold isChild
  simp

/-- A block without a child holds at most dots. -/
theorem Holds.no_child (h : Holds f limit es) (hnone : findIn 8 isChild f limit = none) :
    children es = [] := by
  obtain ⟨ps, htiles, rfl⟩ := h
  rw [htiles.findIn_eq (Nat.le_refl 8)] at hnone
  refine List.map_eq_nil_iff.2 (List.filter_eq_nil_iff.2 fun e he => ?_)
  obtain ⟨pos, hpos, hentry⟩ := List.mem_filterMap.1 he
  have hdots := List.find?_eq_none.1 hnone pos hpos
  rw [isChild_iff] at hdots
  unfold entryAt at hentry
  split at hentry
  · cases hentry
  case isFalse hlive =>
    cases hentry
    simp only [decide_eq_true_eq]
    exact fun hname => hdots ⟨hlive, hname⟩

theorem emptyFrom_true (h : DirHolds g d I (early ++ later)) (hsize : I.size < 2 ^ 32)
    (hx : emptyFrom g I later.length early.length d = some (.ok true)) :
    children later.flatten = [] := by
  induction later generalizing early with
  | nil => rfl
  | cons es later ih =>
    obtain ⟨b, hfile, hb, hholds⟩ := h.middle
    have hlen := h.length_le
    simp only [List.length_append, List.length_cons] at hlen
    have hlogical : u32 early.length = early.length := Nat.mod_eq_of_lt (by omega)
    have hattempt : (fileBlockNumber I early.length).attempt d = some (.ok (.ok b)) := by
      rw [Query.attempt, hfile]
      rfl
    rw [List.length_cons, emptyFrom, Query.bind_of_ok (Query.read_apply d), hlogical,
      Query.bind_of_ok hattempt] at hx
    simp only [hb, if_false] at hx
    cases hscan : findIn 8 isChild (d.blocks b) g.blockSize with
    | some pos =>
      rw [hscan] at hx
      cases hx
    | none =>
      rw [hscan] at hx
      have hrest := @ih (early ++ [es]) (by simpa using h) (by simpa using hx)
      rw [List.flatten_cons, children_append, hholds.no_child hscan, hrest]
      rfl

theorem Dirs.kids_of_empty (h : Dirs g init content d) (hn : IsDir g d n)
    (hx : dirIsEmpty g (d.inodes n) d = some (.ok true)) : kids content n = [] := by
  have hdir := h.dir n hn
  unfold dirIsEmpty at hx
  rw [hdir.holds.blocksBelow_eq] at hx
  exact @emptyFrom_true g d (d.inodes n) [] (content n) hdir.holds hdir.small hx

/-! ## The calls -/

namespace Tree

section
variable (h : Tree g init content d)
include h

/-- The directory of a new name, which it does not hold. -/
theorem fresh (hname : FreshName g d path p name)
    (hdir : inodeIsDir (d.inodes p) = true) : IsDir g d p ∧ name ∉ (content p).flatten.keys ∧
      name ≠ [dot] ∧ name ≠ [dot, dot] := by
  obtain ⟨dir, -, hlookup⟩ := hname.parent
  have hp : IsDir g d p := ⟨(h.rooted.lookupPath hlookup).1, hdir⟩
  have habsent := hname.not_mem h.dirs hp
  exact ⟨hp, habsent, h.rooted.name_ne hp habsent⟩

theorem old (hname : OldName g d path p name n) : IsDir g d p ∧
    (content p).flatten.dlookup name = some n := by
  obtain ⟨dir, -, hlookup⟩ := hname.parent
  obtain ⟨hp, hfound, -⟩ := h.rooted.child (h.rooted.lookupPath hlookup).1 hname.child
  exact ⟨hp, hfound⟩

theorem createFile (hx : createFile g path d = some (.ok (n, I), d')) :
    ∃ content', Tree g init content' d' ∧ d'.inodes n = I ∧ IsFile g d' n := by
  obtain ⟨p, name, group, i, I', hname, hisDir, hfree, rfl, rfl, hadd⟩ := createFile_ok hx
  obtain ⟨hp, habsent, hne⟩ := h.fresh hname hisDir
  have hnew : NewNode g init content content _ (newInode (ext4SIfreg ||| 0o644)) d _ :=
    newNode_of_start h.dirs hfree (by decide)
  obtain ⟨es, htree, hstored, hfile⟩ :=
    h.enterFile hnew (by decide) (by decide) hp habsent hne hadd
  exact ⟨_, htree, hstored, hfile⟩

/-- A file in use is cut to nothing. -/
theorem truncated (hn : IsFile g d n)
    (hx : truncateInode g n 0 (d.inodes n, d) = some (.ok (), I', d')) :
    Tree g init content d' := by
  have hwork := Work.slot h.dirs.good n
  have hgood := ((truncateInode_work (Nat.ne_of_gt hn.1.1)).ok (s := (d.inodes n, d)) hwork hx).1
  obtain ⟨I₁, d₁, hblocks, hcopy, rfl⟩ := truncateInode_zero (Nat.ne_of_gt hn.1.1) hx
  have hlocal : Local g n (d.inodes n, d) (I₁, d₁) := by
    rcases hblocks with hfree | ⟨rfl, rfl⟩
    · exact freeInodeBlocks_local hwork hfree
    · exact .refl g n _
  have hall : Local g n (d.inodes n, d) (I', d₁.setInode n I') :=
    (hlocal.trans (.setCopy g n d₁ (by rw [hcopy]; rfl) (by rw [hcopy]; rfl)
      (by rw [hcopy]; rfl))).trans (.store g n I' d₁)
  obtain ⟨hzero, hunnamed⟩ := hall.zero h.dirs.zero (h.dirs.unnamed n)
  have hstored : (d₁.setInode n I').inodes n = I' := Function.update_self ..
  have hleaves := hall.leaves hwork
  have hkind : SameKind g d (d₁.setInode n I') n := by
    refine ⟨?_, by rw [hstored]; exact hall.mode⟩
    unfold Allocated inodeBit
    rw [hall.bits]
  refine h.touch hleaves ?_ hkind (by rw [hstored]; exact hall.links) hn
  refine h.dirs.change hleaves hgood (fun q hq => ?_) hzero (fun _ _ => rfl) fun hdir =>
    absurd hn (not_isFile (hkind.isDir.1 hdir))
  rw [slotRefs, hstored] at hq
  exact hunnamed q hq

theorem openInode {flags : Nat} (hx : openInode g path flags d = some (.ok (n, I), d')) :
    ∃ content', Tree g init content' d' := by
  obtain ⟨I₀, d₁, hfound, hreg, hcut⟩ := openInode_ok hx
  have hfile : inodeIsDir I₀ = false := by
    unfold inodeIsDir
    rw [of_decide_eq_true hreg]
    decide
  have hfirst : ∃ content', Tree g init content' d₁ ∧ d₁.inodes n = I₀ ∧ IsFile g d₁ n := by
    rcases findOrCreate_ok hfound with ⟨hlookup, rfl⟩ | hcreate
    · obtain ⟨-, rfl⟩ := lookupPath_ok hlookup
      refine ⟨content, h, rfl, (h.lookupPath hlookup).resolve_left fun hdir => ?_⟩
      rw [hdir.2] at hfile
      cases hfile
    · exact h.createFile hcreate
  obtain ⟨content', htree, rfl, hn⟩ := hfirst
  rcases hcut with htruncate | rfl
  · exact ⟨content', htree.truncated hn htruncate⟩
  · exact ⟨content', htree⟩

end

theorem u16_succ {c : Nat} (h : c < 65535) : u16 (c + 1) = c + 1 := Nat.mod_eq_of_lt (by omega)

section
variable (h : Tree g init content d)
include h

theorem mkdir (hx : ext4Mkdir g path d = some (.ok (), d'))
    (hlinks : ∀ p name, FreshName g d path p name → (d.inodes p).linksCount < 65535) :
    ∃ content', Tree g init content' d' := by
  obtain ⟨p, name, group, i, I₁, d₁, I', d₂, hname, hisDir, hfree, hfill, hadd, rfl⟩ :=
    ext4Mkdir_ok hx
  obtain ⟨hp, habsent, hne⟩ := h.fresh hname hisDir
  obtain ⟨hfilled, hnew⟩ := newNode_of_fillDir h.dirs hfree hp.1.1 hp.lt hfill
  have hmode : I₁.mode = ext4SIfdir ||| 0o755 := hfilled.mode
  have htwo : I₁.linksCount = 2 := hfilled.links
  have hdir : inodeIsDir I₁ = true := by
    rw [inodeIsDir, hmode]
    decide
  obtain ⟨hsame, es, htree⟩ := h.enterDir hnew (Function.update_self ..) hdir htwo
    (hfilled.compact.congr rfl rfl rfl) hp habsent hne hadd
  rw [u16_succ (hsame ▸ hlinks p name hname)]
  exact ⟨_, htree⟩

theorem link {oldPath : List UInt8} (hx : ext4Link g oldPath path d = some (.ok (), d'))
    (hparent : ∀ p name, FreshName g d path p name → inodeIsDir (d.inodes p) = true)
    (hlinks : ∀ n, Ext4.lookupPath g oldPath d = some (.ok (n, d.inodes n)) →
      (d.inodes n).linksCount < 65535) : ∃ content', Tree g init content' d' := by
  obtain ⟨n, p, name, I', d₁, hlookup, hnot, hname, hadd, rfl⟩ := ext4Link_ok hx
  obtain ⟨hp, habsent, hne⟩ := h.fresh hname (hparent p name hname)
  have hn : IsFile g d n := (h.lookupPath hlookup).resolve_left fun hdir => by
    rw [hdir.2] at hnot
    cases hnot
  rw [u16_succ (hlinks n hlookup)]
  obtain ⟨es, htree⟩ := h.enterName hn hp habsent hne hadd
  exact ⟨_, htree⟩

theorem symlink {target : List UInt8} (hx : ext4Symlink g target path d = some (.ok (), d'))
    (hparent : ∀ p name, FreshName g d path p name → inodeIsDir (d.inodes p) = true) :
    ∃ content', Tree g init content' d' := by
  obtain ⟨hlen, p, name, group, i, I₁, d₁, I', hname, hfree, hstore, hadd⟩ := ext4Symlink_ok hx
  obtain ⟨hp, habsent, hne⟩ := h.fresh hname (hparent p name hname)
  obtain ⟨hstored, hnew⟩ := newNode_of_storeTarget h.dirs hfree hlen hstore
  have hmode : I₁.mode = ext4SIfLnk ||| 0o777 := hstored.mode
  have hone : I₁.linksCount = 1 := hstored.links
  have hfile : inodeIsDir I₁ = false := by
    rw [inodeIsDir, hmode]
    decide
  obtain ⟨es, htree, -⟩ := h.enterFile hnew hfile hone hp habsent hne hadd
  exact ⟨_, htree⟩

/-- The dots of a directory name directories. -/
theorem name_ne_of_not_dir (hp : IsDir g d p)
    (hpresent : (content p).flatten.dlookup name = some n) (hnot : inodeIsDir (d.inodes n) = false) :
    name ≠ [dot] ∧ name ≠ [dot, dot] := by
  obtain ⟨hself, q, hq, hisDir, -⟩ := h.dotted p hp
  constructor
  · rintro rfl
    rw [hself] at hpresent
    cases hpresent
    rw [hp.2] at hnot
    cases hnot
  · rintro rfl
    rw [hq] at hpresent
    cases hpresent
    rw [hisDir.2] at hnot
    cases hnot

theorem remove (hx : ext4Remove g path d = some (.ok (), d')) :
    ∃ content', Tree g init content' d' := by
  obtain ⟨p, name, n, I', d₁, hname, -, hnot, hremove, hend⟩ := ext4Remove_ok hx
  obtain ⟨hp, hpresent⟩ := h.old hname
  have hne := h.name_ne_of_not_dir hp hpresent hnot
  have hn : IsFile g d n := (h.kid hp (mem_kids hne hpresent)).resolve_left fun hdir => by
    rw [hdir.2] at hnot
    cases hnot
  rcases hend with ⟨hlast, hdrop⟩ | ⟨hmore, rfl⟩
  · obtain ⟨es, htree⟩ := h.leaveFile hn hlast
      (I := { d.inodes n with linksCount := (d.inodes n).linksCount - 1 }) rfl hp hpresent hne hremove
      hdrop
    exact ⟨_, htree⟩
  · obtain ⟨es, htree⟩ := h.leaveName hn hmore hp hpresent hne hremove
    exact ⟨_, htree⟩

theorem rmdir (hx : ext4Rmdir g path d = some (.ok (), d'))
    (hdot : baseName path ≠ [dot]) : ∃ content', Tree g init content' d' := by
  obtain ⟨p, name, n, I', d₁, hname, -, hn0, hisDir, hempty, hremove, hdrop⟩ := ext4Rmdir_ok hx
  obtain ⟨hp, hpresent⟩ := h.old hname
  obtain ⟨dir, hsplit, -⟩ := hname.parent
  have hn : IsDir g d n := ⟨(h.rooted.child hp.1 hname.child).2.2, hisDir⟩
  have hnone := h.dirs.kids_of_empty hn hempty
  have hdots : name ≠ [dot, dot] := by
    rintro rfl
    obtain ⟨-, q, hq, -, hparent⟩ := h.dotted p hp
    rw [hpresent] at hq
    cases hq
    rcases hparent with hmem | ⟨-, rfl⟩
    · simp [hnone] at hmem
    · -- the root is not given back
      obtain ⟨-, -, -, hfirst, -⟩ := dropInode_ok hn0 hdrop
      exact Nat.not_le.2 h.reserved hfirst
  have hne : name ≠ [dot] := by
    rw [(splitParent_ok hsplit).2.1]
    exact hdot
  obtain ⟨es, htree⟩ := h.leaveDir hn hnone rfl hp hpresent ⟨hne, hdots⟩ hremove hdrop
  exact ⟨_, htree⟩

end

end Tree

/-! ## Runs -/

/-- The calls that make and remove names. -/
def Call.Names : Call → Prop
  | .open _ flags => flags &&& vfsCreate ≠ 0
  | .mkdir _ | .link _ _ | .symlink _ _ | .remove _ | .rmdir _ => True
  | _ => False

/-- What keeps a call from breaking the link counts: a count that grows has room in its 16 bits, the
parent of a new name is a directory, and a directory is not removed under the name `.`. -/
def Call.Counts (g : Geometry) (s : Ext4State) : Call → Prop
  | .mkdir path => ∀ p name, FreshName g s.disk path p name → (s.disk.inodes p).linksCount < 65535
  | .link oldPath newPath =>
    (∀ p name, FreshName g s.disk newPath p name → inodeIsDir (s.disk.inodes p) = true) ∧
      ∀ n, lookupPath g oldPath s.disk = some (.ok (n, s.disk.inodes n)) →
        (s.disk.inodes n).linksCount < 65535
  | .symlink _ linkPath =>
    ∀ p name, FreshName g s.disk linkPath p name → inodeIsDir (s.disk.inodes p) = true
  | .rmdir path => baseName path ≠ [dot]
  | _ => True

def Succeeds (g : Geometry) (s : Ext4State) (c : Call) : Prop :=
  ∃ t, perform g c s = some (.ok (), t)

variable {s t : Ext4State}

theorem withDisk_eq_ok {α : Type} {x : DiskM α} {a : α} :
    withDisk x s = some (.ok a, t) ↔ ∃ d, x s.disk = some (.ok a, d) ∧ t = { s with disk := d } := by
  unfold withDisk Prog.focus
  rw [Option.map_eq_some_iff]
  constructor
  · rintro ⟨⟨r, d⟩, hx, heq⟩
    cases heq
    exact ⟨d, hx, rfl⟩
  · rintro ⟨d, hx, rfl⟩
    exact ⟨(.ok a, d), hx, rfl⟩

theorem ext4Open_ok {flags : Nat} {h : Fin maxOpenFiles}
    (hx : ext4Open g path flags s = some (.ok h, t)) :
    ∃ n I, openInode g path flags s.disk = some (.ok (n, I), t.disk) := by
  obtain ⟨⟨n, I⟩, s₁, hopen, hx⟩ := Prog.bind_eq_ok.1 hx
  obtain ⟨d, hinode, rfl⟩ := withDisk_eq_ok.1 hopen
  obtain ⟨s₂, _, hread, hx⟩ := Prog.bind_eq_ok.1 hx
  cases hread
  cases hfree : freeHandle { s with disk := d } with
  | none =>
    rw [hfree] at hx
    cases hx
  | some h =>
    rw [hfree] at hx
    cases hx
    exact ⟨n, I, hinode⟩

theorem tree_of_call {c : Call} (h : Tree g init content s.disk)
    (hc : c.Names) (hcounts : c.Counts g s) (hx : perform g c s = some (.ok (), t)) :
    ∃ content', Tree g init content' t.disk := by
  cases c with
  | «open» path flags =>
    obtain ⟨_, _, hopen, hret⟩ := Prog.bind_eq_ok.1 hx
    cases hret
    obtain ⟨n, I, hinode⟩ := ext4Open_ok hopen
    exact h.openInode hinode
  | mkdir path =>
    obtain ⟨d, hrun, rfl⟩ := withDisk_eq_ok.1 hx
    exact h.mkdir hrun hcounts
  | link oldPath newPath =>
    obtain ⟨d, hrun, rfl⟩ := withDisk_eq_ok.1 hx
    exact h.link hrun hcounts.1 hcounts.2
  | symlink target linkPath =>
    obtain ⟨d, hrun, rfl⟩ := withDisk_eq_ok.1 hx
    exact h.symlink hrun hcounts
  | remove path =>
    obtain ⟨d, hrun, rfl⟩ := withDisk_eq_ok.1 hx
    exact h.remove hrun
  | rmdir path =>
    obtain ⟨d, hrun, rfl⟩ := withDisk_eq_ok.1 hx
    exact h.rmdir hrun hcounts
  | read => exact hc.elim
  | write => exact hc.elim
  | seek => exact hc.elim
  | close => exact hc.elim
  | truncate => exact hc.elim
  | rename => exact hc.elim

/-- The states that calls on names lead to when they succeed, with `P` of each. -/
theorem tree_of_reached (h : Tree g init content d)
    (hrun : Reached g (fun s c => c.Names ∧ c.Counts g s ∧ Succeeds g s c) (mounted d) s) :
    ∃ content', Tree g init content' s.disk := by
  induction hrun with
  | start => exact ⟨content, h⟩
  | call before hp run ih =>
    obtain ⟨content', htree⟩ := ih
    obtain ⟨hc, hcounts, t, hx⟩ := hp
    rw [run] at hx
    cases hx
    exact tree_of_call htree hc hcounts run

/-- The link count of a file is the number of entries that name it, that of a directory is two more
than the number of its subdirectories, and above the reserved inodes those in use have a name. -/
structure LinkLaw (g : Geometry) (content : Nat → List (List Entry)) (d : Disk) : Prop where
  entries : ∀ k, IsDir g d k → DirHolds g d (d.inodes k) (content k)
  file : ∀ k, IsFile g d k → (d.inodes k).linksCount = named (dirsOf g d) (kids content) k
  dir : ∀ k, IsDir g d k → (d.inodes k).linksCount = 2 + subdirs (dirsOf g d) (kids content) k
  inUse : ∀ k, g.firstIno ≤ k → (Allocated g d k ↔ 0 < named (dirsOf g d) (kids content) k)

theorem Tree.law (h : Tree g init content d) : LinkLaw g content d where
  entries k hk := (h.dirs.dir k hk).holds
  file k hk := (h.linked.file k (mem_filesOf.2 hk)).1
  dir k hk := h.linked.dir k (mem_dirsOf.2 hk)
  inUse k hfirst := by
    constructor
    · intro hk
      by_cases hdir : inodeIsDir (d.inodes k) = true
      · have hroot : k ≠ ext4RootInode := Nat.ne_of_gt (h.reserved.trans_le hfirst)
        rw [h.linked.once k (mem_dirsOf.2 ⟨hk, hdir⟩), if_neg hroot]
        exact Nat.one_pos
      · exact (h.linked.file k (mem_filesOf.2 ⟨hk, by simpa using hdir, hfirst⟩)).2
    · intro hpos
      obtain ⟨q, hq, hmem⟩ := exists_of_named_pos hpos
      exact (h.kid (mem_dirsOf.1 hq) hmem).elim And.left And.left

/-- In every run of calls on names that succeed the link counts are right, and the next call gives an
inode back if and only if it removes the last name. -/
theorem links_of_run {s : Ext4State} (h : Tree g init content d)
    (hrun : Reached g (fun s c => c.Names ∧ c.Counts g s ∧ Succeeds g s c) (mounted d) s) :
    ∃ content', LinkLaw g content' s.disk ∧
      ∀ c t, c.Names → c.Counts g s → perform g c s = some (.ok (), t) →
        ∃ content'', LinkLaw g content'' t.disk ∧
          ∀ k, g.firstIno ≤ k → Allocated g s.disk k →
            (¬Allocated g t.disk k ↔ named (dirsOf g t.disk) (kids content'') k = 0) := by
  obtain ⟨content', htree⟩ := tree_of_reached h hrun
  refine ⟨content', htree.law, fun c t hc hcounts hx => ?_⟩
  obtain ⟨content'', htree'⟩ := tree_of_call htree hc hcounts hx
  refine ⟨content'', htree'.law, fun k hfirst _ => ?_⟩
  rw [htree'.law.inUse k hfirst, Nat.not_lt, Nat.le_zero]

/-! ## A small volume -/

/-- The small volume without the inode in use that has no name. -/
def namedFile : Disk := { oneFile with inodeBitmap := fun _ i => i < 10 ∨ i = 11 }

def namedEntries : Nat → List (List Entry) :=
  fun _ => [[⟨[dot], 2⟩, ⟨[dot, dot], 2⟩, ⟨[97], 12⟩]]

theorem allocated_oneFile (h : Allocated smallVolume namedFile k) :
    Allocated smallVolume oneFile k := by
  obtain ⟨hpos, hle, hbit⟩ := h
  refine ⟨hpos, hle, ?_⟩
  have hin : smallVolume.inodeIndex k < 10 ∨ smallVolume.inodeIndex k = 11 := of_decide_eq_true hbit
  exact decide_eq_true (by omega)

/-- With fewer inodes in use. -/
theorem Owned.withInodes {bits : Nat → Nat → Bool} (h : Owned g d)
    (hless : ∀ k, Allocated g { d with inodeBitmap := bits } k → Allocated g d k) :
    Owned g { d with inodeBitmap := bits } :=
  h.mono (fun _ _ _ hn hr => ⟨hless _ hn, hr⟩) fun _ _ _ _ _ hm => hm

theorem namedFile_owned : Owned smallVolume namedFile :=
  oneFile_owned.withInodes fun _ => allocated_oneFile

theorem namedFile_clean : CleanFree smallVolume namedFile := by
  refine ⟨fun n hn => ?_, .inl (by decide)⟩
  have h2 : n ≠ 2 := by
    rintro rfl
    exact hn ⟨by decide, by decide, by decide⟩
  have h12 : n ≠ 12 := by
    rintro rfl
    exact hn ⟨by decide, by decide, by decide⟩
  have harea : (namedFile.inodes n).area = .raw [] := by simp [namedFile, oneFile, h2, h12]
  rw [harea]
  exact ⟨fun h => h, rfl⟩

theorem isDir_namedFile (h : IsDir smallVolume namedFile k) : k = 2 := oneFile_isDir h.2

theorem namedFile_dirs :
    Dirs smallVolume (fun n => (oneFile.inodes n).area) namedEntries namedFile where
  good := good_of_image namedFile_owned namedFile_clean
  unnamed := rooted_oneFile.dirs.unnamed
  zero := rooted_oneFile.dirs.zero
  dir k hk := (rooted_oneFile.dirs.dir k ⟨allocated_oneFile hk.1, hk.2⟩).congr rfl rfl rfl

theorem dirsOf_namedFile : dirsOf smallVolume namedFile = {2} := by decide +kernel

theorem filesOf_namedFile : filesOf smallVolume namedFile = {12} := by decide +kernel

theorem namedFile_tree :
    Tree smallVolume (fun n => (oneFile.inodes n).area) namedEntries namedFile where
  dirs := namedFile_dirs
  compact k hk := by
    obtain rfl := isDir_namedFile hk
    refine .of_leaf ?_ ?_
    · rintro _ ⟨⟩ -
      decide
    · exact fun hindex => hindex.2 rfl
  dotted k hk := by
    obtain rfl := isDir_namedFile hk
    exact ⟨rfl, 2, rfl, hk, .inr ⟨rfl, rfl⟩⟩
  linked := by
    exact ⟨by decide, by decide, by decide, by decide, by decide, by decide⟩
  reserved := by decide

/-- The parent of `/b` is the root directory. -/
theorem fresh_namedFile (h : FreshName smallVolume namedFile [slash, 98] p name) : p = 2 := by
  obtain ⟨dir, hsplit, hlookup⟩ := h.parent
  have hparts : splitParent [slash, 98] = .ok ([slash], [98]) := by decide +kernel
  obtain ⟨rfl, rfl⟩ : [slash] = dir ∧ [98] = name := by simpa [hparts] using hsplit
  have hroot : (lookupPath smallVolume [slash] namedFile).bind (fun out =>
      out.toOption.map fun out => out.1) = some 2 := by decide +kernel
  simpa [hlookup, Except.toOption] using hroot

theorem lookup_namedFile (h : lookupPath smallVolume [slash, 97] namedFile = some (.ok (n, I))) :
    n = 12 := by
  have hfile : (lookupPath smallVolume [slash, 97] namedFile).bind (fun out =>
      out.toOption.map fun out => out.1) = some 12 := by decide +kernel
  simpa [h, Except.toOption] using hfile

/-- The file gets a second name. -/
theorem links_linked : ∃ s content', Reached smallVolume
      (fun s c => c.Names ∧ c.Counts smallVolume s ∧ Succeeds smallVolume s c) (mounted namedFile) s ∧
    (s.disk.inodes 12).linksCount = 2 ∧ LinkLaw smallVolume content' s.disk := by
  have hrun : (perform smallVolume (.link [slash, 97] [slash, 98]) (mounted namedFile)).map (fun out =>
      (out.1.toOption.isSome, (out.2.disk.inodes 12).linksCount)) = some (true, 2) := by
    decide +kernel
  obtain ⟨⟨out, s⟩, hx, hfacts⟩ := Option.map_eq_some_iff.1 hrun
  simp only [Prod.mk.injEq] at hfacts
  cases out with
  | error e => cases hfacts.1
  | ok u =>
    have hcounts : (Call.link [slash, 97] [slash, 98]).Counts smallVolume (mounted namedFile) := by
      refine ⟨fun p name hname => ?_, fun n hlookup => ?_⟩
      · obtain rfl := fresh_namedFile hname
        exact (by decide : inodeIsDir (namedFile.inodes 2) = true)
      · obtain rfl := lookup_namedFile hlookup
        exact (by decide : (namedFile.inodes 12).linksCount < 65535)
    have hnames : (Call.link [slash, 97] [slash, 98]).Names := trivial
    have hreached : Reached smallVolume
        (fun s c => c.Names ∧ c.Counts smallVolume s ∧ Succeeds smallVolume s c)
        (mounted namedFile) s := .call .start ⟨hnames, hcounts, s, hx⟩ hx
    obtain ⟨content', hlaw, -⟩ := links_of_run namedFile_tree hreached
    exact ⟨s, content', hreached, hfacts.2, hlaw⟩

/-- A link to `/a` under the name `/a/b`, where `/a` is a regular file: the entry goes into its blocks,
and the count grows. -/
theorem not_links_fileParent : ¬∀ (g : Geometry) (init : Nat → Area)
    (content : Nat → List (List Entry)) (d : Disk) (s : Ext4State), Tree g init content d →
    Reached g (fun s c => c.Names ∧ Succeeds g s c) (mounted d) s →
    ∃ content', LinkLaw g content' s.disk := by
  intro hall
  have hrun : (perform smallVolume (.link [slash, 97] [slash, 97, slash, 98])
      (mounted namedFile)).map (fun out => out.1.toOption.isSome) = some true := by decide +kernel
  obtain ⟨⟨out, s⟩, hx, hok⟩ := Option.map_eq_some_iff.1 hrun
  cases out with
  | error e => cases hok
  | ok u =>
    have hnames : (Call.link [slash, 97] [slash, 97, slash, 98]).Names := trivial
    obtain ⟨content', hlaw⟩ := hall smallVolume _ _ _ s namedFile_tree
      (.call .start ⟨hnames, s, hx⟩ hx)
    obtain ⟨d', hlink, rfl⟩ := withDisk_eq_ok.1 hx
    obtain ⟨n, p, name, I', d₁, hlookup, -, hname, hadd, hend⟩ := ext4Link_ok hlink
    obtain rfl := lookup_namedFile hlookup
    obtain ⟨dir, hsplit, hparent⟩ := hname.parent
    have hparts : splitParent [slash, 97, slash, 98] = .ok ([slash, 97], [98]) := by decide +kernel
    obtain ⟨rfl, rfl⟩ : [slash, 97] = dir ∧ [98] = name := by simpa [hparts] using hsplit
    obtain rfl := lookup_namedFile hparent
    -- nothing but the file has changed
    have hwork := Work.slot namedFile_dirs.good 12
    obtain ⟨-, hlocal⟩ := local_of_run (fun hs => hs.addDirent) hwork hadd
    have hleaves : Leaves smallVolume 12 namedFile d' :=
      hend ▸ (hlocal.leaves hwork).trans (leaves_setInode ..)
    have hstored : (d'.inodes 12).mode = (namedFile.inodes 12).mode ∧
        (d'.inodes 12).linksCount = 2 := by
      simp only [hend, Disk.setInode, Function.update_self]
      exact ⟨rfl, rfl⟩
    have hkind : SameKind smallVolume namedFile d' 12 := by
      refine ⟨?_, hstored.1⟩
      rw [hend]
      unfold Allocated inodeBit
      rw [← hlocal.bits]
      rfl
    have hdirs : dirsOf smallVolume d' = {2} := by
      rw [← dirsOf_namedFile]
      exact dirsOf_of_same (fun k hk => hleaves.kind hk) hkind.isDir
    have hroot : IsDir smallVolume namedFile 2 := mem_dirsOf.1 namedFile_tree.linked.root_mem
    have hentries : content' 2 = namedEntries 2 :=
      (hlaw.entries 2 ((hleaves.isDir (by decide)).2 hroot)).unique
        (hleaves.dirHolds (by decide) (namedFile_dirs.dir 2 hroot).holds)
    have hfile : IsFile smallVolume namedFile 12 := by
      rw [← mem_filesOf, filesOf_namedFile]
      exact Finset.mem_singleton_self 12
    have hcount : (d'.inodes 12).linksCount = named (dirsOf smallVolume d') (kids content') 12 :=
      hlaw.file 12 (hkind.isFile.2 hfile)
    rw [hstored.2, hdirs, named, Finset.sum_singleton, kids, hentries] at hcount
    exact absurd hcount (by decide)

end RadKernel.Ext4
