import RadKernel.Ext4.NewInode

/-!
# The tree of names and the link counts

The entries of all directories other than `.` and `..` name the inodes of the volume. A step on the
volume changes one entry of one directory and one or two link counts, and the counts of
`RadKernel.Naming` say which.
-/

namespace RadKernel.Ext4

open Kernel Ownership Naming Prog Function

variable {g : Geometry} {init : Nat → Area} {content content' content₁ : Nat → List (List Entry)}
  {d d' d₁ : Disk} {k n p q c : Nat} {I I' : Inode} {name m path : List UInt8}
  {es : List (List Entry)} {entries entries' : List Entry}

/-- The inodes that entries name, the dots left out. -/
def children (es : List Entry) : List Nat :=
  (es.filter fun e => e.1 ≠ [dot] ∧ e.1 ≠ [dot, dot]).map Sigma.snd

def kids (content : Nat → List (List Entry)) (k : Nat) : List Nat := children (content k).flatten

/-- An inode in use that is no directory and none of the reserved ones. -/
def IsFile (g : Geometry) (d : Disk) (k : Nat) : Prop :=
  Allocated g d k ∧ inodeIsDir (d.inodes k) = false ∧ g.firstIno ≤ k

instance (g : Geometry) (d : Disk) (k : Nat) : Decidable (Allocated g d k) :=
  inferInstanceAs (Decidable (_ ∧ _))

instance (g : Geometry) (d : Disk) : DecidablePred (IsDir g d) :=
  fun k => inferInstanceAs (Decidable (Allocated g d k ∧ _))

instance (g : Geometry) (d : Disk) : DecidablePred (IsFile g d) :=
  fun k => inferInstanceAs (Decidable (Allocated g d k ∧ _))

def dirsOf (g : Geometry) (d : Disk) : Finset Nat :=
  (Finset.range (g.totalInodes + 1)).filter (IsDir g d)

def filesOf (g : Geometry) (d : Disk) : Finset Nat :=
  (Finset.range (g.totalInodes + 1)).filter (IsFile g d)

/-- Directory `k` names itself and its parent. -/
def Dotted (g : Geometry) (content : Nat → List (List Entry)) (d : Disk) (k : Nat) : Prop :=
  (content k).flatten.dlookup [dot] = some k ∧
    ∃ q, (content k).flatten.dlookup [dot, dot] = some q ∧ IsDir g d q ∧
      (k ∈ kids content q ∨ k = ext4RootInode ∧ q = ext4RootInode)

/-- A volume whose directories form a tree and whose link counts are right. -/
structure Tree (g : Geometry) (init : Nat → Area) (content : Nat → List (List Entry)) (d : Disk) :
    Prop where
  dirs : Dirs g init content d
  compact : ∀ k, IsDir g d k → Compact g d (d.inodes k)
  dotted : ∀ k, IsDir g d k → Dotted g content d k
  linked : Linked (dirsOf g d) (filesOf g d) ext4RootInode (kids content) fun k =>
    (d.inodes k).linksCount
  reserved : ext4RootInode < g.firstIno

@[simp] theorem mem_dirsOf : k ∈ dirsOf g d ↔ IsDir g d k := by
  unfold dirsOf
  rw [Finset.mem_filter, Finset.mem_range]
  exact and_iff_right_of_imp fun h => Nat.lt_succ_of_le h.1.2.1

@[simp] theorem mem_filesOf : k ∈ filesOf g d ↔ IsFile g d k := by
  unfold filesOf
  rw [Finset.mem_filter, Finset.mem_range]
  exact and_iff_right_of_imp fun h => Nat.lt_succ_of_le h.1.2.1

/-! ## Entries -/

theorem children_perm (h : entries.Perm entries') : (children entries).Perm (children entries') :=
  (h.filter _).map _

theorem children_cons (hname : name ≠ [dot] ∧ name ≠ [dot, dot]) :
    children (⟨name, n⟩ :: entries) = n :: children entries := by
  unfold children
  rw [List.filter_cons_of_pos (by simpa using hname)]
  rfl

theorem children_append :
    children (entries ++ entries') = children entries ++ children entries' := by
  unfold children
  rw [List.filter_append, List.map_append]

theorem mem_kids (hname : m ≠ [dot] ∧ m ≠ [dot, dot])
    (h : (content k).flatten.dlookup m = some n) : n ∈ kids content k :=
  List.mem_map.2 ⟨⟨m, n⟩, List.mem_filter.2 ⟨List.of_mem_dlookup h, by simpa using hname⟩, rfl⟩

variable {dirs : Finset Nat}

/-- One entry more in one directory. -/
theorem enters_of_added (hperm : es.flatten.Perm (⟨name, n⟩ :: (content p).flatten))
    (hname : name ≠ [dot] ∧ name ≠ [dot, dot]) (hsame : ∀ k ∈ dirs, content₁ k = content k) :
    Enters dirs p n (kids content) (kids (update content₁ p es)) where
  here := by
    unfold kids
    rw [update_self, ← children_cons hname]
    exact children_perm hperm
  other k hk hkp := by
    unfold kids
    rw [update_of_ne hkp, hsame k hk]

/-- One entry less in one directory. -/
theorem enters_of_removed (hperm : (content p).flatten.Perm (⟨name, n⟩ :: es.flatten))
    (hname : name ≠ [dot] ∧ name ≠ [dot, dot]) :
    Enters dirs p n (kids (update content p es)) (kids content) where
  here := by
    unfold kids
    rw [update_self, ← children_cons hname]
    exact children_perm hperm
  other k _ hkp := by
    unfold kids
    rw [update_of_ne hkp]

/-- The names of a directory with one entry less. -/
theorem dlookup_removed (hdistinct : (content p).flatten.NodupKeys)
    (hperm : (content p).flatten.Perm (⟨name, n⟩ :: es.flatten)) (hm : m ≠ name) (k : Nat) :
    (update content p es k).flatten.dlookup m = (content k).flatten.dlookup m := by
  by_cases hk : k = p
  · subst hk
    rw [update_self, List.perm_dlookup m hdistinct hperm, List.dlookup_cons_ne _ _ hm]
  · rw [update_of_ne hk]

/-- The dots of a directory stay when its parent still names it. -/
theorem Dotted.of_same (h : Dotted g content d k)
    (hdots : ∀ m, m = [dot] ∨ m = [dot, dot] →
      (content' k).flatten.dlookup m = (content k).flatten.dlookup m)
    (hup : ∀ q, IsDir g d q → IsDir g d' q ∨ kids content q = [] ∧ q ≠ ext4RootInode)
    (hkids : ∀ q, IsDir g d q → k ∈ kids content q → k ∈ kids content' q) :
    Dotted g content' d' k := by
  obtain ⟨hself, q, hq, hisDir, hparent⟩ := h
  have hq' : IsDir g d' q := by
    refine (hup q hisDir).resolve_right fun hgone => ?_
    rcases hparent with hmem | ⟨-, hroot⟩
    · simp [hgone.1] at hmem
    · exact hgone.2 hroot
  exact ⟨(hdots _ (.inl rfl)).trans hself, q, (hdots _ (.inr rfl)).trans hq, hq',
    hparent.imp_left (hkids q hisDir)⟩

/-! ## Following paths -/

namespace Tree

section
variable (h : Tree g init content d)
include h

theorem root : IsDir g d ext4RootInode := mem_dirsOf.1 h.linked.root_mem

theorem kid (hk : IsDir g d k) (hn : n ∈ kids content k) : IsDir g d n ∨ IsFile g d n := by
  simpa using h.linked.closed k (mem_dirsOf.2 hk) n hn

/-- Every path that can be followed ends at an inode in use. -/
theorem rooted : Rooted g init content d where
  dirs := h.dirs
  root := h.root
  closed k hk e he := by
    obtain ⟨hself, q, hq, hisDir, -⟩ := h.dotted k hk
    have hfound : (content k).flatten.dlookup e.1 = some e.2 :=
      List.mem_dlookup (h.dirs.dir k hk).distinct he
    by_cases hdot : e.1 = [dot]
    · rw [hdot, hself] at hfound
      cases hfound
      exact hk.1
    · by_cases hdots : e.1 = [dot, dot]
      · rw [hdots, hq] at hfound
        cases hfound
        exact hisDir.1
      · exact (h.kid hk (mem_kids ⟨hdot, hdots⟩ hfound)).elim And.left And.left
  self k hk := (h.dotted k hk).1
  up k hk := by
    obtain ⟨-, q, hq, -⟩ := h.dotted k hk
    exact ⟨q, hq⟩

theorem lookupParts {parts : List (List UInt8)}
    (hk : IsDir g d k ∨ IsFile g d k) (hx : lookupParts g parts k d = some (.ok n)) :
    IsDir g d n ∨ IsFile g d n := by
  induction parts generalizing k with
  | nil =>
    cases hx
    exact hk
  | cons part parts ih =>
    rw [lookupParts_cons] at hx
    split at hx
    case isTrue => exact ih hk hx
    case isFalse hdot =>
      split at hx
      · cases hx
      case isFalse hdots =>
        obtain ⟨c, hc, hx⟩ := Query.bind_eq_ok.1 hx
        obtain ⟨hdir, hfound, -⟩ := h.rooted.child (hk.elim And.left And.left) hc
        exact ih (h.kid hdir (mem_kids ⟨fun heq => hdot (.inr heq), hdots⟩ hfound)) hx

theorem lookupPath (hx : lookupPath g path d = some (.ok (n, I))) : IsDir g d n ∨ IsFile g d n := by
  unfold Ext4.lookupPath at hx
  split at hx
  · cases hx
  · obtain ⟨current, hcurrent, hx⟩ := Query.bind_eq_ok.1 hx
    obtain ⟨inode, -, hx⟩ := Query.bind_eq_ok.1 hx
    cases hx
    exact h.lookupParts (.inl h.root) hcurrent

end

end Tree

/-! ## Inodes -/

/-- Inode `k` is in use as before, with the mode it had. -/
structure SameKind (g : Geometry) (d d' : Disk) (k : Nat) : Prop where
  allocated : Allocated g d' k ↔ Allocated g d k
  mode : (d'.inodes k).mode = (d.inodes k).mode

namespace SameKind

theorem trans (h : SameKind g d d₁ k) (h' : SameKind g d₁ d' k) : SameKind g d d' k :=
  ⟨h'.allocated.trans h.allocated, h'.mode.trans h.mode⟩

theorem isDir (h : SameKind g d d' k) : IsDir g d' k ↔ IsDir g d k :=
  and_congr h.allocated (by rw [inodeIsDir_congr h.mode])

theorem isFile (h : SameKind g d d' k) : IsFile g d' k ↔ IsFile g d k :=
  and_congr h.allocated (by rw [inodeIsDir_congr h.mode])

end SameKind

theorem SameNodes.kind (h : SameNodes g d d') (k : Nat) : SameKind g d d' k :=
  ⟨h.allocated k, h.mode k⟩

theorem Leaves.kind (h : Leaves g n d d') (hk : k ≠ n) : SameKind g d d' k :=
  ⟨h.allocated hk, by rw [h.inode k hk]⟩

theorem not_isFile (h : IsDir g d k) : ¬IsFile g d k := fun hfile => by
  have hdir := h.2
  rw [hfile.2.1] at hdir
  cases hdir

theorem IsDir.ne_file (hp : IsDir g d p) (hn : IsFile g d n) : n ≠ p := by
  rintro rfl
  exact not_isFile hp hn

section Sets

variable (h : ∀ k, k ≠ n → SameKind g d d' k)
include h

theorem dirsOf_of_same (hn : IsDir g d' n ↔ IsDir g d n) : dirsOf g d' = dirsOf g d := by
  ext k
  by_cases hk : k = n
  · simpa [hk] using hn
  · simpa using (h k hk).isDir

theorem filesOf_of_same (hn : IsFile g d' n ↔ IsFile g d n) : filesOf g d' = filesOf g d := by
  ext k
  by_cases hk : k = n
  · simpa [hk] using hn
  · simpa using (h k hk).isFile

theorem dirsOf_of_new (hn : IsDir g d' n) : dirsOf g d' = insert n (dirsOf g d) := by
  ext k
  by_cases hk : k = n
  · simp [hk, hn]
  · simpa [hk] using (h k hk).isDir

theorem filesOf_of_new (hn : IsFile g d' n) : filesOf g d' = insert n (filesOf g d) := by
  ext k
  by_cases hk : k = n
  · simp [hk, hn]
  · simpa [hk] using (h k hk).isFile

theorem dirsOf_of_gone (hn : ¬Allocated g d' n) : dirsOf g d' = (dirsOf g d).erase n := by
  ext k
  by_cases hk : k = n
  · simpa [hk] using fun hdir : IsDir g d' n => hn hdir.1
  · simpa [hk] using (h k hk).isDir

theorem filesOf_of_gone (hn : ¬Allocated g d' n) : filesOf g d' = (filesOf g d).erase n := by
  ext k
  by_cases hk : k = n
  · simpa [hk] using fun hfile : IsFile g d' n => hn hfile.1
  · simpa [hk] using (h k hk).isFile

end Sets

/-! ## Link counts -/

/-- Inode `n` with the link count `c`. -/
def Disk.relink (d : Disk) (n c : Nat) : Disk := d.setInode n { d.inodes n with linksCount := c }

section Relink

theorem relink_self (d : Disk) (n c : Nat) :
    (d.relink n c).inodes n = { d.inodes n with linksCount := c } := update_self ..

theorem relink_of_ne (hk : k ≠ n) : (d.relink n c).inodes k = d.inodes k :=
  update_of_ne hk ..

theorem setInode_links (h : d.inodes n = I) (c : Nat) :
    d.setInode n { I with linksCount := c } = d.relink n c := by
  rw [Disk.relink, h]

theorem relink_links (d : Disk) (n c : Nat) : ((d.relink n c).inodes n).linksCount = c := by
  rw [relink_self]

/-- Nothing but the link count of the one inode changes. -/
theorem relink_same (d : Disk) (n c k : Nat) : ((d.relink n c).inodes k).mode = (d.inodes k).mode ∧
    ((d.relink n c).inodes k).area = (d.inodes k).area ∧
    ((d.relink n c).inodes k).size = (d.inodes k).size := by
  by_cases hk : k = n
  · subst hk
    rw [relink_self]
    exact ⟨rfl, rfl, rfl⟩
  · rw [relink_of_ne hk]
    exact ⟨rfl, rfl, rfl⟩

theorem relink_kind (d : Disk) (n c k : Nat) : SameKind g d (d.relink n c) k :=
  ⟨Iff.rfl, (relink_same d n c k).1⟩

theorem Dirs.relink (h : Dirs g init content d) (n c : Nat) :
    Dirs g init content (d.relink n c) := by
  have hwork : Work g init (fun _ => True) n { d.inodes n with linksCount := c } n (d.inodes n) d :=
    (Work.slot h.good n).setCopy rfl
  obtain ⟨-, harea, hsize⟩ := relink_same d n c n
  refine h.change (leaves_setInode g n d _) hwork.commit.sound (fun q hq => ?_) h.zero
    (fun _ _ => rfl) fun hdir => ?_
  · refine h.unnamed n q ?_
    unfold slotRefs at hq ⊢
    rwa [← harea]
  · exact (h.dir n ((relink_kind d n c n).isDir.1 hdir)).congr harea hsize rfl

theorem Compact.relink (h : Compact g d (d.inodes k)) (n c : Nat) :
    Compact g (d.relink n c) ((d.relink n c).inodes k) := by
  obtain ⟨-, harea, hsize⟩ := relink_same d n c k
  exact h.congr harea hsize rfl

end Relink

theorem zeroTaken_endInode (h : ZeroTaken g d) : ZeroTaken g (endInode g n I d) := by
  refine h.imp_right fun hbit => ?_
  unfold blockBit endInode
  split <;> exact hbit

/-- An inode is given back, with its blocks. -/
theorem Dirs.drop (h : Dirs g init content d) (hn : 0 < n) (harea : I.area = (d.inodes n).area)
    (hx : dropInode g n I d = some (.ok (), d')) :
    Dirs g init content d' ∧ Leaves g n d d' ∧ ¬Allocated g d' n ∧ g.firstIno ≤ n := by
  obtain ⟨I₁, d₁, hfree, hfirst, hlast, rfl⟩ := dropInode_ok (Nat.ne_of_gt hn) hx
  have hwork : Work g init (fun _ => True) n I n (d.inodes n) d :=
    (Work.slot h.good n).setCopy harea
  have hlocal := freeInodeBlocks_local hwork hfree
  have hleaves := (hlocal.leaves hwork).trans (@leaves_endInode g d₁ n I₁ hn)
  have hgone : ¬Allocated g (endInode g n I₁ d₁) n := fun hin => by
    have hbit := hin.2.2
    rw [inodeBit_endInode hn hn] at hbit
    simp at hbit
  have hunnamed : ∀ q, ¬areaRefs d.blocks I.area q 0 := fun q hq =>
    h.unnamed n q (by rwa [slotRefs, ← harea])
  obtain ⟨hzero, -⟩ := hlocal.zero h.zero hunnamed
  refine ⟨h.change hleaves ((dropInode_work (Nat.ne_of_gt hn) ⟨hfirst, hlast⟩).ok hwork hx)
    (fun q hq => ?_) (zeroTaken_endInode hzero) (fun _ _ => rfl) fun hdir => absurd hdir.1 hgone,
    hleaves, hgone, hfirst⟩
  rw [slotRefs, endInode_inodes, update_self] at hq
  exact areaRefs_raw hq

/-! ## One entry -/

theorem compact_of_leaves (h : ∀ k, IsDir g d k → Compact g d (d.inodes k))
    (hleaves : Leaves g n d d') (hn : IsDir g d' n → Compact g d' (d'.inodes n)) :
    ∀ k, IsDir g d' k → Compact g d' (d'.inodes k) := by
  intro k hk
  by_cases hkn : k = n
  · subst hkn
    exact hn hk
  · exact (h k ((hleaves.isDir hkn).1 hk)).of_leaves hleaves hkn

theorem Rewrote.distinct (h : Rewrote g init content p es d d') (hp : IsDir g d p) :
    es.flatten.NodupKeys := by
  simpa using (h.dirs.dir p ((h.same.isDir p).2 hp)).distinct

section
variable (h : Dirs g init content d) (hcompact : Compact g d (d.inodes p)) (hp : IsDir g d p)
include h hcompact hp

/-- An entry is added to a directory of the tree. -/
theorem Dirs.entered {fileType : Nat}
    (habsent : name ∉ (content p).flatten.keys) (hn : Allocated g d n)
    (hx : addDirent g p n name fileType (d.inodes p, d) = some (.ok (), I', d')) :
    ∃ es, d'.inodes p = I' ∧ Rewrote g init content p es d d' ∧ Compact g d' (d'.inodes p) ∧
      es.flatten.Perm (⟨name, n⟩ :: (content p).flatten) := by
  have hdir := h.dir p hp
  have hn32 : n < 2 ^ 32 := hn.2.1.trans_lt g.totalInodes_lt
  obtain ⟨hcompact', hsmall⟩ := hcompact.added hp.pos (h.state hp) hdir.nonempty hdir.small habsent
    hn.1 hn32 hx
  obtain ⟨es, hstored, hrewrote, hperm⟩ := h.enter hp habsent hn.1 hn32 hsmall hx
  exact ⟨es, hstored, hrewrote, hstored ▸ hcompact', hperm⟩

/-- An entry is taken away from a directory of the tree. -/
theorem Dirs.departed (hpresent : (content p).flatten.dlookup name = some n)
    (hx : removeDirent g p name (d.inodes p, d) = some (.ok (), I', d')) :
    ∃ es, d'.inodes p = I' ∧ Rewrote g init content p es d d' ∧ Compact g d' (d'.inodes p) ∧
      (content p).flatten.Perm (⟨name, n⟩ :: es.flatten) := by
  obtain ⟨es, d₁, hrun, hstored, hrewrote, hperm⟩ := h.remove hp hpresent
  obtain ⟨rfl, rfl⟩ : { d.inodes p with mtime := 1, ctime := 1 } = I' ∧ d₁ = d' := by
    simpa [hrun] using hx
  have hcompact' := hcompact.of_run (fun hs => hs.removeDirent) (Work.slot h.good p) hx fun _ => rfl
  exact ⟨es, hstored, hrewrote, hstored ▸ hcompact', hperm⟩

end

section Added

variable (hp : content₁ p = content p)
  (hperm : es.flatten.Perm (⟨name, n⟩ :: (content₁ p).flatten))
  (hname : name ≠ [dot] ∧ name ≠ [dot, dot])
include hp hperm hname

/-- A directory keeps its dots when an entry is added to one directory. -/
theorem Dotted.added (h : Dotted g content d k) (hdistinct : es.flatten.NodupKeys)
    (hsame : ∀ q, IsDir g d q → content₁ q = content q) (hk : IsDir g d k)
    (hdirs : ∀ q, IsDir g d q → IsDir g d' q) : Dotted g (update content₁ p es) d' k := by
  refine h.of_same (fun m hm => ?_) (fun q hq => .inl (hdirs q hq)) fun q hq hmem => ?_
  · have hne : m ≠ name := by
      rintro rfl
      exact hm.elim hname.1 hname.2
    rw [dlookup_added hdistinct hperm, if_neg fun hand => hne hand.2, hsame k hk]
  · have henter : Enters (dirsOf g d) p n (kids content) (kids (update content₁ p es)) :=
      enters_of_added (hp ▸ hperm) hname fun q hq => hsame q (mem_dirsOf.1 hq)
    exact (henter.mem_iff (mem_dirsOf.2 hq)).2 (.inr hmem)

end Added

/-- A directory keeps its dots when the entry of another inode is taken away. -/
theorem Dotted.departed (h : Dotted g content d k)
    (hperm : (content p).flatten.Perm (⟨name, n⟩ :: es.flatten))
    (hdistinct : (content p).flatten.NodupKeys) (hname : name ≠ [dot] ∧ name ≠ [dot, dot])
    (hkn : k ≠ n)
    (hdirs : ∀ q, IsDir g d q → IsDir g d' q ∨ kids content q = [] ∧ q ≠ ext4RootInode) :
    Dotted g (update content p es) d' k := by
  refine h.of_same (fun m hm => ?_) hdirs fun q hq hmem => ?_
  · have hne : m ≠ name := by
      rintro rfl
      exact hm.elim hname.1 hname.2
    exact dlookup_removed hdistinct hperm hne k
  · have hleave : Enters (dirsOf g d) p n (kids (update content p es)) (kids content) :=
      enters_of_removed hperm hname
    exact ((hleave.mem_iff (mem_dirsOf.2 hq)).1 hmem).resolve_left fun hand => hkn hand.2

/-! ## The steps on the tree -/

theorem allocated_of_mem {m : Nat} (h : m ∈ dirsOf g d ∨ m ∈ filesOf g d) : Allocated g d m :=
  h.elim (fun hdir => (mem_dirsOf.1 hdir).1) fun hfile => (mem_filesOf.1 hfile).1

theorem not_mem_of_free (h : ¬Allocated g d n) : n ∉ dirsOf g d ∧ n ∉ filesOf g d :=
  ⟨fun hdir => h (allocated_of_mem (.inl hdir)), fun hfile => h (allocated_of_mem (.inr hfile))⟩

namespace Tree

variable {dn : Disk} {fileType : Nat}

section
variable (h : Tree g init content d)
include h

theorem enterFile (hnew : NewNode g init content content n I d dn) (hfile : inodeIsDir I = false)
    (hone : I.linksCount = 1) (hp : IsDir g d p) (habsent : name ∉ (content p).flatten.keys)
    (hname : name ≠ [dot] ∧ name ≠ [dot, dot])
    (hx : addDirent g p n name fileType (d.inodes p, dn) = some (.ok (), I', d')) :
    ∃ es, Tree g init (update content p es) d' ∧ d'.inodes n = I ∧ IsFile g d' n := by
  have hpn : p ≠ n := hnew.ne hp.1
  rw [← hnew.leaves.inode p hpn] at hx
  have hnotDir : ¬IsDir g dn n := fun hdir => by
    have hmode := hdir.2
    rw [hnew.stored, hfile] at hmode
    cases hmode
  have hcompact := compact_of_leaves h.compact hnew.leaves fun hdir => absurd hdir hnotDir
  have hp' : IsDir g dn p := hnew.isDir hp
  obtain ⟨es, -, hrewrote, hcompact', hperm⟩ :=
    hnew.dirs.entered (hcompact p hp') hp' habsent hnew.inUse hx
  have hkind : ∀ k, k ≠ n → SameKind g d d' k := fun k hk =>
    (hnew.leaves.kind hk).trans (hrewrote.same.kind k)
  have hkept : d'.inodes n = I := (hrewrote.leaves.inode n (Ne.symm hpn)).trans hnew.stored
  have hn : IsFile g d' n :=
    ⟨(hrewrote.same.allocated n).2 hnew.inUse, hkept ▸ hfile, hnew.freeable.1⟩
  have hdirs : dirsOf g d' = dirsOf g d := dirsOf_of_same hkind
    ⟨fun hdir => absurd hn (not_isFile hdir), fun hdir => absurd hdir.1 hnew.not_allocated⟩
  obtain ⟨hnew₁, hnew₂⟩ := not_mem_of_free hnew.not_allocated
  have hdistinct := hrewrote.distinct hp'
  refine ⟨es, ⟨hrewrote.dirs, compact_of_leaves hcompact hrewrote.leaves fun _ => hcompact',
    fun k hk => ?_, ?_, h.reserved⟩, hkept, hn⟩
  · have hk' : IsDir g d k := by simpa [hdirs] using mem_dirsOf.2 hk
    exact (h.dotted k hk').added rfl hperm hname hdistinct (fun _ _ => rfl) hk' fun q hq =>
      (hkind q (hnew.ne hq.1)).isDir.2 hq
  · rw [hdirs, filesOf_of_new hkind hn]
    refine h.linked.newFile (mem_dirsOf.2 hp) hnew₁ hnew₂
      (enters_of_added hperm hname fun _ _ => rfl) (fun m hm => ?_) (hkept ▸ hone)
    rw [hrewrote.same.links, hnew.leaves.inode m (hnew.ne (allocated_of_mem hm))]

theorem enterName (hn : IsFile g d n) (hp : IsDir g d p) (habsent : name ∉ (content p).flatten.keys)
    (hname : name ≠ [dot] ∧ name ≠ [dot, dot])
    (hx : addDirent g p n name fileType (d.inodes p, d) = some (.ok (), I', d₁)) :
    ∃ es, Tree g init (update content p es)
      (d₁.setInode n { d.inodes n with linksCount := (d.inodes n).linksCount + 1 }) := by
  obtain ⟨es, -, hrewrote, hcompact', hperm⟩ :=
    h.dirs.entered (h.compact p hp) hp habsent hn.1 hx
  obtain ⟨c, hc⟩ : ∃ c, c = (d.inodes n).linksCount + 1 := ⟨_, rfl⟩
  rw [← hc, setInode_links (hrewrote.leaves.inode n (hp.ne_file hn))]
  have hkind : ∀ k, SameKind g d (d₁.relink n c) k := fun k =>
    (hrewrote.same.kind k).trans (relink_kind d₁ n c k)
  have hdirs : dirsOf g (d₁.relink n c) = dirsOf g d :=
    dirsOf_of_same (fun k _ => hkind k) (hkind n).isDir
  have hfiles : filesOf g (d₁.relink n c) = filesOf g d :=
    filesOf_of_same (fun k _ => hkind k) (hkind n).isFile
  have hdistinct := hrewrote.distinct hp
  have hcompact := compact_of_leaves h.compact hrewrote.leaves fun _ => hcompact'
  refine ⟨es, hrewrote.dirs.relink n c, fun k hk => ?_, fun k hk => ?_, ?_, h.reserved⟩
  · exact (hcompact k ((relink_kind d₁ n c k).isDir.1 hk)).relink n c
  · have hk' := (hkind k).isDir.1 hk
    exact (h.dotted k hk').added rfl hperm hname hdistinct (fun _ _ => rfl) hk' fun q hq =>
      (hkind q).isDir.2 hq
  · rw [hdirs, hfiles]
    refine h.linked.addName (mem_dirsOf.2 hp) (mem_filesOf.2 hn)
      (enters_of_added hperm hname fun _ _ => rfl) (fun m _ hm => ?_) ?_
    · rw [relink_of_ne hm, hrewrote.same.links]
    · rw [relink_links, hc]

theorem enterDir (hnew : NewNode g init content content₁ n I d dn)
    (hdots : content₁ n = [[⟨[dot], n⟩, ⟨[dot, dot], p⟩]]) (hdir : inodeIsDir I = true)
    (htwo : I.linksCount = 2) (hcompactNew : Compact g dn I) (hp : IsDir g d p)
    (habsent : name ∉ (content p).flatten.keys) (hname : name ≠ [dot] ∧ name ≠ [dot, dot])
    (hx : addDirent g p n name fileType (d.inodes p, dn) = some (.ok (), I', d₁)) :
    I'.linksCount = (d.inodes p).linksCount ∧ ∃ es, Tree g init (update content₁ p es)
      (d₁.setInode p { I' with linksCount := I'.linksCount + 1 }) := by
  have hpn : p ≠ n := hnew.ne hp.1
  have hsame : ∀ q, IsDir g d q → content₁ q = content q := fun q hq => hnew.same q (hnew.ne hq.1)
  have hparent := hnew.leaves.inode p hpn
  rw [← hparent] at hx
  have hcompact := compact_of_leaves h.compact hnew.leaves fun _ => hnew.stored ▸ hcompactNew
  have hp' : IsDir g dn p := hnew.isDir hp
  obtain ⟨es, hstored, hrewrote, hcompact', hperm⟩ :=
    hnew.dirs.entered (hcompact p hp') hp' (hsame p hp ▸ habsent) hnew.inUse hx
  have hlinks : I'.linksCount = (d.inodes p).linksCount := by
    rw [← hstored, hrewrote.same.links, hparent]
  refine ⟨hlinks, es, ?_⟩
  obtain ⟨c, hc⟩ : ∃ c, c = (d.inodes p).linksCount + 1 := ⟨_, rfl⟩
  rw [hlinks, ← hc, setInode_links hstored]
  have hkind : ∀ k, k ≠ n → SameKind g d (d₁.relink p c) k := fun k hk =>
    ((hnew.leaves.kind hk).trans (hrewrote.same.kind k)).trans (relink_kind d₁ p c k)
  have hkept : d₁.inodes n = I := (hrewrote.leaves.inode n (Ne.symm hpn)).trans hnew.stored
  have hn : IsDir g (d₁.relink p c) n :=
    (relink_kind d₁ p c n).isDir.2 ⟨(hrewrote.same.allocated n).2 hnew.inUse, hkept ▸ hdir⟩
  have hdirs := dirsOf_of_new hkind hn
  have hfiles : filesOf g (d₁.relink p c) = filesOf g d := filesOf_of_same hkind
    ⟨fun hfile => absurd hfile (not_isFile hn), fun hfile => absurd hfile.1 hnew.not_allocated⟩
  obtain ⟨hnew₁, hnew₂⟩ := not_mem_of_free hnew.not_allocated
  have hdistinct := hrewrote.distinct hp'
  have hall := compact_of_leaves hcompact hrewrote.leaves fun _ => hcompact'
  have henter : Enters (dirsOf g d) p n (kids content) (kids (update content₁ p es)) :=
    enters_of_added (hsame p hp ▸ hperm) hname fun q hq => hsame q (mem_dirsOf.1 hq)
  have hdots' : update content₁ p es n = [[⟨[dot], n⟩, ⟨[dot, dot], p⟩]] := by
    rw [update_of_ne (Ne.symm hpn), hdots]
  refine ⟨hrewrote.dirs.relink p c, fun k hk => ?_, fun k hk => ?_, ?_, h.reserved⟩
  · exact (hall k ((relink_kind d₁ p c k).isDir.1 hk)).relink p c
  · have hk' : k = n ∨ IsDir g d k := by simpa [hdirs] using mem_dirsOf.2 hk
    rcases hk' with rfl | hk'
    · refine ⟨by rw [hdots']; rfl, p, by rw [hdots']; rfl, (hkind p hpn).isDir.2 hp, .inl ?_⟩
      exact (henter.mem_iff (mem_dirsOf.2 hp)).2 (.inl ⟨rfl, rfl⟩)
    · exact (h.dotted k hk').added (hsame p hp) hperm hname hdistinct hsame hk' fun q hq =>
        (hkind q (hnew.ne hq.1)).isDir.2 hq
  · rw [hdirs, hfiles]
    refine h.linked.newDir (mem_dirsOf.2 hp) hnew₁ hnew₂ henter ?_ (fun m hm hmp => ?_) ?_ ?_
    · unfold kids
      rw [hdots']
      rfl
    · rw [relink_of_ne hmp, hrewrote.same.links, hnew.leaves.inode m (hnew.ne (allocated_of_mem hm))]
    · rw [relink_links, hc]
    · rw [relink_of_ne (Ne.symm hpn), hkept, htwo]

theorem leaveName (hn : IsFile g d n) (hmore : 1 < (d.inodes n).linksCount)
    (hp : IsDir g d p) (hpresent : (content p).flatten.dlookup name = some n)
    (hname : name ≠ [dot] ∧ name ≠ [dot, dot])
    (hx : removeDirent g p name (d.inodes p, d) = some (.ok (), I', d₁)) :
    ∃ es, Tree g init (update content p es)
      (d₁.setInode n { d.inodes n with linksCount := (d.inodes n).linksCount - 1 }) := by
  obtain ⟨es, -, hrewrote, hcompact', hperm⟩ := h.dirs.departed (h.compact p hp) hp hpresent hx
  obtain ⟨c, hc⟩ : ∃ c, c = (d.inodes n).linksCount - 1 := ⟨_, rfl⟩
  rw [← hc, setInode_links (hrewrote.leaves.inode n (hp.ne_file hn))]
  have hkind : ∀ k, SameKind g d (d₁.relink n c) k := fun k =>
    (hrewrote.same.kind k).trans (relink_kind d₁ n c k)
  have hdirs : dirsOf g (d₁.relink n c) = dirsOf g d :=
    dirsOf_of_same (fun k _ => hkind k) (hkind n).isDir
  have hfiles : filesOf g (d₁.relink n c) = filesOf g d :=
    filesOf_of_same (fun k _ => hkind k) (hkind n).isFile
  have hcompact := compact_of_leaves h.compact hrewrote.leaves fun _ => hcompact'
  refine ⟨es, hrewrote.dirs.relink n c, fun k hk => ?_, fun k hk => ?_, ?_, h.reserved⟩
  · exact (hcompact k ((relink_kind d₁ n c k).isDir.1 hk)).relink n c
  · have hk' := (hkind k).isDir.1 hk
    exact (h.dotted k hk').departed hperm (h.dirs.dir p hp).distinct hname (hk'.ne_file hn).symm
      fun q hq => .inl ((hkind q).isDir.2 hq)
  · rw [hdirs, hfiles]
    refine h.linked.dropName (mem_dirsOf.2 hp) (mem_filesOf.2 hn) (enters_of_removed hperm hname)
      (fun m _ hm => ?_) ?_ hmore
    · rw [relink_of_ne hm, hrewrote.same.links]
    · rw [relink_links, hc]

theorem leaveFile (hn : IsFile g d n)
    (hlast : (d.inodes n).linksCount ≤ 1) (harea : I.area = (d.inodes n).area) (hp : IsDir g d p)
    (hpresent : (content p).flatten.dlookup name = some n)
    (hname : name ≠ [dot] ∧ name ≠ [dot, dot])
    (hx : removeDirent g p name (d.inodes p, d) = some (.ok (), I', d₁))
    (hdrop : dropInode g n I d₁ = some (.ok (), d')) :
    ∃ es, Tree g init (update content p es) d' := by
  obtain ⟨es, -, hrewrote, hcompact', hperm⟩ := h.dirs.departed (h.compact p hp) hp hpresent hx
  have hnode := hrewrote.leaves.inode n (hp.ne_file hn)
  obtain ⟨hdirs', hleaves, hgone, -⟩ := hrewrote.dirs.drop hn.1.1 (hnode ▸ harea) hdrop
  have hkind : ∀ k, k ≠ n → SameKind g d d' k := fun k hk =>
    (hrewrote.same.kind k).trans (hleaves.kind hk)
  have hdirs : dirsOf g d' = dirsOf g d := dirsOf_of_same hkind
    ⟨fun hdir => absurd hdir.1 hgone, fun hdir => absurd hn (not_isFile hdir)⟩
  have hcompact := compact_of_leaves h.compact hrewrote.leaves fun _ => hcompact'
  refine ⟨es, hdirs', compact_of_leaves hcompact hleaves fun hdir => absurd hdir.1 hgone,
    fun k hk => ?_, ?_, h.reserved⟩
  · have hkn : k ≠ n := fun heq => hgone (heq ▸ hk.1)
    exact (h.dotted k ((hkind k hkn).isDir.1 hk)).departed hperm (h.dirs.dir p hp).distinct hname hkn
      fun q hq => .inl ((hkind q (hq.ne_file hn).symm).isDir.2 hq)
  · rw [hdirs, filesOf_of_gone hkind hgone]
    refine h.linked.dropFile (mem_dirsOf.2 hp) (mem_filesOf.2 hn) (enters_of_removed hperm hname)
      (fun m _ hm => ?_) hlast
    rw [hleaves.inode m hm, hrewrote.same.links]

/-- A directory without entries goes with its name. -/
theorem leaveDir (hn : IsDir g d n) (hnone : kids content n = [])
    (harea : I.area = (d.inodes n).area) (hp : IsDir g d p)
    (hpresent : (content p).flatten.dlookup name = some n)
    (hname : name ≠ [dot] ∧ name ≠ [dot, dot])
    (hx : removeDirent g p name (d.inodes p, d) = some (.ok (), I', d₁))
    (hdrop : dropInode g n I (d₁.setInode p { I' with linksCount := I'.linksCount - 1 }) =
      some (.ok (), d')) : ∃ es, Tree g init (update content p es) d' := by
  have hmem : n ∈ kids content p := mem_kids hname hpresent
  have hnp : n ≠ p := by
    rintro rfl
    simp [hnone] at hmem
  obtain ⟨es, hstored, hrewrote, hcompact', hperm⟩ := h.dirs.departed (h.compact p hp) hp hpresent hx
  obtain ⟨c, hc⟩ : ∃ c, c = I'.linksCount - 1 := ⟨_, rfl⟩
  rw [← hc, setInode_links hstored] at hdrop
  have hnode : (d₁.relink p c).inodes n = d.inodes n :=
    (relink_of_ne hnp).trans (hrewrote.leaves.inode n hnp)
  obtain ⟨hdirs', hleaves, hgone, hfirst⟩ :=
    (hrewrote.dirs.relink p c).drop hn.1.1 (hnode ▸ harea) hdrop
  have hroot : n ≠ ext4RootInode := by
    rintro rfl
    exact Nat.not_le.2 h.reserved hfirst
  have hkind : ∀ k, k ≠ n → SameKind g d d' k := fun k hk =>
    ((hrewrote.same.kind k).trans (relink_kind d₁ p c k)).trans (hleaves.kind hk)
  have hdirs := dirsOf_of_gone hkind hgone
  have hfiles : filesOf g d' = filesOf g d := filesOf_of_same hkind
    ⟨fun hfile => absurd hfile.1 hgone, fun hfile => absurd hfile (not_isFile hn)⟩
  have hcompact := compact_of_leaves h.compact hrewrote.leaves fun _ => hcompact'
  have hrelinked : ∀ k, IsDir g (d₁.relink p c) k →
      Compact g (d₁.relink p c) ((d₁.relink p c).inodes k) := fun k hk =>
    (hcompact k ((relink_kind d₁ p c k).isDir.1 hk)).relink p c
  refine ⟨es, hdirs', compact_of_leaves hrelinked hleaves fun hdir => absurd hdir.1 hgone,
    fun k hk => ?_, ?_, h.reserved⟩
  · have hkn : k ≠ n := fun heq => hgone (heq ▸ hk.1)
    refine (h.dotted k ((hkind k hkn).isDir.1 hk)).departed hperm (h.dirs.dir p hp).distinct hname hkn
      fun q hq => ?_
    by_cases hqn : q = n
    · subst hqn
      exact .inr ⟨hnone, hroot⟩
    · exact .inl ((hkind q hqn).isDir.2 hq)
  · rw [hdirs, hfiles]
    refine h.linked.dropDir (mem_dirsOf.2 hp) (mem_dirsOf.2 hn) (enters_of_removed hperm hname) hnone
      (fun m _ hmp hmn => ?_) ?_
    · rw [hleaves.inode m hmn, relink_of_ne hmp, hrewrote.same.links]
    · rw [hleaves.inode p (Ne.symm hnp), relink_links, hc, ← hstored, hrewrote.same.links]

/-- A file is changed in other ways. -/
theorem touch (hleaves : Leaves g n d d') (hdirs' : Dirs g init content d')
    (hkind : SameKind g d d' n) (hlinks : (d'.inodes n).linksCount = (d.inodes n).linksCount)
    (hn : IsFile g d n) : Tree g init content d' := by
  have hall : ∀ k, SameKind g d d' k := fun k => by
    by_cases hk : k = n
    · exact hk ▸ hkind
    · exact hleaves.kind hk
  have hdirs : dirsOf g d' = dirsOf g d := dirsOf_of_same (fun k _ => hall k) hkind.isDir
  have hfiles : filesOf g d' = filesOf g d := filesOf_of_same (fun k _ => hall k) hkind.isFile
  refine ⟨hdirs', compact_of_leaves h.compact hleaves fun hdir =>
    absurd hn (not_isFile (hkind.isDir.1 hdir)), fun k hk => ?_, ?_, h.reserved⟩
  · exact (h.dotted k ((hall k).isDir.1 hk)).of_same (fun _ _ => rfl)
      (fun q hq => .inl ((hall q).isDir.2 hq)) fun _ _ hmem => hmem
  · have hsame : (fun k => (d'.inodes k).linksCount) = fun k => (d.inodes k).linksCount := by
      ext k
      by_cases hk : k = n
      · rw [hk, hlinks]
      · rw [hleaves.inode k hk]
    rw [hdirs, hfiles, hsame]
    exact h.linked

end

end Tree

end RadKernel.Ext4
