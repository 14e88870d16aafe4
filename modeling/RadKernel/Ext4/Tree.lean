import RadKernel.Ext4.DirMap
import RadKernel.Ext4.Local
import RadKernel.Lib.Naming

/-!
# The directories of a volume

Every directory in use holds well-formed entries, and no two inodes share a block, so a change of one
directory or of one file is not seen in the others.
-/

namespace RadKernel.Ext4

open Kernel Ownership Prog Function List

variable {g : Geometry} {init : Nat → Area} {content content' : Nat → List (List Entry)}
  {d d' : Disk} {k n p q : Nat} {I I' : Inode} {name m : List UInt8} {es : List (List Entry)}

def IsDir (g : Geometry) (d : Disk) (k : Nat) : Prop :=
  Allocated g d k ∧ inodeIsDir (d.inodes k) = true

/-- The inode of a directory with the entries `es`. -/
structure DirOk (g : Geometry) (d : Disk) (I : Inode) (es : List (List Entry)) : Prop where
  holds : DirHolds g d I es
  distinct : es.flatten.NodupKeys
  nonempty : es ≠ []
  small : I.size < 2 ^ 32
  ends : I.area.EndsInRange

/-- The directories of a volume are as the format has them. -/
structure Dirs (g : Geometry) (init : Nat → Area) (content : Nat → List (List Entry)) (d : Disk) :
    Prop where
  good : Good g init d
  unnamed : ∀ k p, ¬slotRefs d k p 0
  zero : ZeroTaken g d
  dir : ∀ k, IsDir g d k → DirOk g d (d.inodes k) (content k)

/-- The inodes are in use as before, with the modes and link counts they had. -/
structure SameNodes (g : Geometry) (d d' : Disk) : Prop where
  bits : d'.inodeBitmap = d.inodeBitmap
  mode : ∀ k, (d'.inodes k).mode = (d.inodes k).mode
  links : ∀ k, (d'.inodes k).linksCount = (d.inodes k).linksCount

theorem inodeIsDir_congr (h : I'.mode = I.mode) : inodeIsDir I' = inodeIsDir I := by
  unfold inodeIsDir
  rw [h]

namespace SameNodes

theorem allocated (h : SameNodes g d d') (k : Nat) : Allocated g d' k ↔ Allocated g d k := by
  unfold Allocated inodeBit
  rw [h.bits]

theorem isDir (h : SameNodes g d d') (k : Nat) : IsDir g d' k ↔ IsDir g d k := by
  unfold IsDir
  rw [h.allocated, inodeIsDir_congr (h.mode k)]

end SameNodes

theorem IsDir.pos (h : IsDir g d k) : k ≠ 0 := Nat.ne_of_gt h.1.1

theorem IsDir.lt (h : IsDir g d k) : k < 2 ^ 32 := h.1.2.1.trans_lt g.totalInodes_lt

theorem DirOk.congr (h : DirOk g d I es) (harea : I'.area = I.area) (hsize : I'.size = I.size)
    (hblocks : d'.blocks = d.blocks) : DirOk g d' I' es where
  holds := h.holds.congr harea hsize hblocks
  distinct := h.distinct
  nonempty := h.nonempty
  small := hsize ▸ h.small
  ends := harea ▸ h.ends

theorem Leaves.dirHolds (h : Leaves g n d d') (hk : k ≠ n) (hholds : DirHolds g d (d.inodes k) es) :
    DirHolds g d' (d'.inodes k) es := by
  refine ⟨by rw [h.inode k hk, hholds.size], fun l e hl => ?_⟩
  obtain ⟨b, hfile, hb, hblock⟩ := hholds.block l e hl
  exact ⟨b, (h.file hk).trans hfile, hb, h.bytes hk hfile hb ▸ hblock⟩

theorem Leaves.isDir (h : Leaves g n d d') (hk : k ≠ n) : IsDir g d' k ↔ IsDir g d k := by
  unfold IsDir
  rw [h.allocated hk, h.inode k hk]

namespace Dirs

section
variable (h : Dirs g init content d)
include h

theorem writable (hends : (d.inodes k).area.EndsInRange) : Writable g init k (d.inodes k, d) :=
  ⟨h.good, h.good.heldSlot k, h.good.index k, hends, h.unnamed k, h.zero⟩

theorem state (hk : IsDir g d k) : DirState g init k (content k) (d.inodes k, d) :=
  ⟨rfl, hk.2, h.writable (h.dir k hk).ends, (h.dir k hk).holds, (h.dir k hk).distinct⟩

theorem lookup (hk : IsDir g d k) (m : List UInt8) :
    lookupChild g k m d = lookupResult ((content k).flatten.dlookup m) :=
  (h.state hk).lookup hk.pos (h.dir k hk).small m

/-- One inode is changed; what it is a directory of, when it is one, is known. -/
theorem change (hleaves : Leaves g n d d') (hgood : Good g init d')
    (hunnamed : ∀ p, ¬slotRefs d' n p 0) (hzero : ZeroTaken g d')
    (hcontent : ∀ k, k ≠ n → content' k = content k)
    (hn : IsDir g d' n → DirOk g d' (d'.inodes n) (content' n)) : Dirs g init content' d' where
  good := hgood
  unnamed k p hr := by
    by_cases hk : k = n
    · subst hk
      exact hunnamed p hr
    · exact h.unnamed k p ((hleaves.slotRefs_iff hk).1 hr)
  zero := hzero
  dir k hdir := by
    by_cases hk : k = n
    · subst hk
      exact hn hdir
    · have hold := h.dir k ((hleaves.isDir hk).1 hdir)
      rw [hcontent k hk]
      exact ⟨hleaves.dirHolds hk hold.holds, hold.distinct, hold.nonempty,
        hleaves.inode k hk ▸ hold.small, hleaves.inode k hk ▸ hold.ends⟩

end

end Dirs

/-- Directory `p` has the entries `es` now, and nothing else happened. -/
structure Rewrote (g : Geometry) (init : Nat → Area) (content : Nat → List (List Entry)) (p : Nat)
    (es : List (List Entry)) (d d' : Disk) : Prop where
  dirs : Dirs g init (Function.update content p es) d'
  leaves : Leaves g p d d'
  same : SameNodes g d d'

theorem Dirs.rewrote {x : CopyM Unit} (h : Dirs g init content d) (hp : IsDir g d p)
    (hstable : ∀ {K : Inode × Disk → Prop}, Stable g p K → Triple K x (fun _ => K) fun _ => K)
    (hx : x (d.inodes p, d) = some (.ok (), I', d')) (hstate : DirState g init p es (I', d'))
    (hne : es ≠ []) (hsmall : I'.size < 2 ^ 32) : Rewrote g init content p es d d' := by
  have hwork := Work.slot h.good p
  obtain ⟨hwork', hlocal⟩ := local_of_run hstable hwork hx
  have hleaves := hlocal.leaves hwork
  have hstored : d'.inodes p = I' := hstate.stored
  obtain ⟨hzero, hunnamed⟩ := hlocal.zero h.zero (h.unnamed p)
  refine ⟨h.change hleaves hwork'.sound ?_ hzero (fun k hk => update_of_ne hk ..)
    fun _ => ?_, hleaves, hlocal.bits, fun k => ?_, fun k => ?_⟩
  · unfold slotRefs
    rwa [hstored]
  · rw [update_self, hstored]
    exact ⟨hstate.holds, hstate.distinct, hne, hsmall, hstate.writable.ends⟩
  · by_cases hk : k = p
    · subst hk
      rw [hstored]
      exact hlocal.mode
    · rw [hlocal.inodes k hk]
  · by_cases hk : k = p
    · subst hk
      rw [hstored]
      exact hlocal.links
    · rw [hlocal.inodes k hk]

variable {fileType : Nat} {parent : List UInt8} {f : Nat → UInt8}

section
variable (h : Dirs g init content d) (hp : IsDir g d p) (habsent : name ∉ (content p).flatten.keys)
  (hn : 0 < n) (hn32 : n < 2 ^ 32)
include h hp habsent hn hn32

/-- An entry is added to a directory that is below `2 ^ 32` bytes afterwards. -/
theorem Dirs.enter (hsmall : I'.size < 2 ^ 32)
    (hx : addDirent g p n name fileType (d.inodes p, d) = some (.ok (), I', d')) :
    ∃ es, d'.inodes p = I' ∧ Rewrote g init content p es d d' ∧
      es.flatten.Perm (⟨name, n⟩ :: (content p).flatten) := by
  have hdir := h.dir p hp
  obtain ⟨es, hstate, hne, hperm, -⟩ :=
    addDirent_ok hp.pos (h.state hp) hdir.nonempty hdir.small habsent hn hn32 hx
  exact ⟨es, hstate.stored, h.rewrote hp (fun hs => hs.addDirent) hx hstate hne hsmall, hperm⟩

/-- An entry is added to a directory that has room for it or stays below `2 ^ 32` bytes. -/
theorem Dirs.add (hroom : Roomy g name (d.inodes p, d) ∨ (d.inodes p).size + g.blockSize < 2 ^ 32)
    (hx : addDirent g p n name fileType (d.inodes p, d) = some (.ok (), I', d')) :
    ∃ es, d'.inodes p = I' ∧ Rewrote g init content p es d d' ∧
      es.flatten.Perm (⟨name, n⟩ :: (content p).flatten) ∧
      (Roomy g name (d.inodes p, d) → I' = d.inodes p) := by
  have hdir := h.dir p hp
  obtain ⟨-, -, -, -, hgrown⟩ :=
    addDirent_ok hp.pos (h.state hp) hdir.nonempty hdir.small habsent hn hn32 hx
  have hsmall : I'.size < 2 ^ 32 := by
    rcases hgrown with hsame | ⟨hmore, hfull⟩
    · exact hsame ▸ hdir.small
    · exact hmore ▸ hroom.resolve_left hfull
  obtain ⟨es, hstored, hrewrote, hperm⟩ := h.enter hp habsent hn hn32 hsmall hx
  exact ⟨es, hstored, hrewrote, hperm, fun hfits => hgrown.resolve_right fun hfull => hfull.2 hfits⟩

end

/-- An entry is taken away from a directory. -/
theorem Dirs.remove (h : Dirs g init content d) (hp : IsDir g d p)
    (hpresent : (content p).flatten.dlookup name = some n) :
    ∃ es d', removeDirent g p name (d.inodes p, d) =
        some (.ok (), { d.inodes p with mtime := 1, ctime := 1 }, d') ∧
      d'.inodes p = { d.inodes p with mtime := 1, ctime := 1 } ∧
      Rewrote g init content p es d d' ∧
      (content p).flatten.Perm (⟨name, n⟩ :: es.flatten) := by
  have hdir := h.dir p hp
  have hfound : (content p).flatten.dlookup name ≠ none := by simp [hpresent]
  obtain ⟨_, d', es, k, hx, hstate, hne, rfl, hperm⟩ :=
    removeDirent_ok hp.pos (h.state hp) hdir.small hfound
  have hkn : k = n := by
    have hlookup := perm_dlookup name hdir.distinct hperm
    rw [hpresent, dlookup_cons_eq] at hlookup
    exact (Option.some.inj hlookup).symm
  subst hkn
  exact ⟨es, d', hx, hstate.stored, h.rewrote hp (fun hs => hs.removeDirent) hx hstate hne hdir.small,
    hperm⟩

/-! ## Paths -/

/-- The parts of a path that are not empty. -/
def steps (path : List UInt8) : List (List UInt8) := (path.splitOn slash).filter (· ≠ [])

theorem steps_slash (xs ys : List UInt8) : steps (xs ++ slash :: ys) = steps xs ++ steps ys := by
  unfold steps
  rw [splitOn_append_cons_self, filter_append]

theorem steps_of_not_mem {xs : List UInt8} (hmem : slash ∉ xs) (hne : xs ≠ []) :
    steps xs = [xs] := by
  unfold steps
  rw [splitOn_eq_singleton hmem]
  simp [hne]

theorem steps_slashes {xs tail : List UInt8} (h : ∀ c ∈ tail, c = slash) :
    steps (xs ++ tail) = steps xs := by
  induction tail generalizing xs with
  | nil => rw [append_nil]
  | cons c tail ih =>
    obtain rfl : c = slash := h c mem_cons_self
    have hrest : steps ([] ++ tail) = [] := ih fun c hc => h c (mem_cons_of_mem _ hc)
    rw [steps_slash, ← nil_append tail, hrest, append_nil]

variable {path : List UInt8}

theorem steps_parentPath (hbase : baseName path ≠ []) :
    steps path = steps (parentPath path) ++ [baseName path] := by
  have hstrip : steps path = steps (stripTrailing path) := by
    cases path with
    | nil => rfl
    | cons c rest =>
      have hcut := rdropWhile_append_rtakeWhile (p := fun c => decide (c = slash)) (l := rest)
      have htail : ∀ c ∈ rest.rtakeWhile fun c => decide (c = slash), c = slash := fun c hc => by
        simpa using mem_rtakeWhile_imp hc
      have hall := @steps_slashes (c :: rest.rdropWhile fun c => decide (c = slash)) _ htail
      rwa [cons_append, hcut] at hall
  obtain ⟨dir, hdir⟩ : ∃ dir, dir = (stripTrailing path).rdropWhile (· ≠ slash) := ⟨_, rfl⟩
  have hcut : dir ++ baseName path = stripTrailing path := by
    rw [hdir]
    exact rdropWhile_append_rtakeWhile
  have hmem : slash ∉ baseName path := fun h => by simpa using mem_rtakeWhile_imp h
  have hparent : parentPath path = if dir.dropLast = [] then [slash] else dir.dropLast := by
    rw [hdir]
    rfl
  have hslash : steps [slash] = [] := by decide
  rw [hstrip, ← hcut, hparent]
  by_cases hnil : dir = []
  · subst hnil
    rw [nil_append, steps_of_not_mem hmem hbase]
    rfl
  · have hlast : dir.getLast hnil = slash := by
      subst hdir
      simpa using rdropWhile_last_not _ _ hnil
    have hsplit : dir ++ baseName path = dir.dropLast ++ slash :: baseName path := by
      conv_lhs => rw [← dropLast_append_getLast hnil, hlast]
      simp
    rw [hsplit, steps_slash, steps_of_not_mem hmem hbase]
    split
    case isTrue hroot =>
      rw [hroot, hslash]
      rfl
    case isFalse => rfl

theorem lookupParts_cons (part : List UInt8) (parts : List (List UInt8)) :
    lookupParts g (part :: parts) k =
      if part = [] ∨ part = [dot] then lookupParts g parts k
      else if part = [dot, dot] then Query.fail .notSupported
      else lookupChild g k part >>= lookupParts g parts := rfl

theorem lookupParts_append {xs ys : List (List UInt8)} (h : lookupParts g xs k d = some (.ok n)) :
    lookupParts g (xs ++ ys) k d = lookupParts g ys n d := by
  induction xs generalizing k with
  | nil =>
    cases h
    rfl
  | cons x xs ih =>
    rw [cons_append, lookupParts_cons]
    rw [lookupParts_cons] at h
    split at h
    case isTrue hskip =>
      rw [if_pos hskip]
      exact ih h
    case isFalse hskip =>
      rw [if_neg hskip]
      split at h
      · cases h
      case isFalse hup =>
        obtain ⟨c, hc, h⟩ := Query.bind_eq_ok.1 h
        rw [if_neg hup, Query.bind_of_ok hc]
        exact ih h

/-- Empty parts are passed over. -/
theorem lookupParts_steps (parts : List (List UInt8)) (k : Nat) :
    lookupParts g parts k d = lookupParts g (parts.filter (· ≠ [])) k d := by
  induction parts generalizing k with
  | nil => rfl
  | cons x parts ih =>
    by_cases hx : x = []
    · subst hx
      exact ih k
    · rw [filter_cons_of_pos (by simpa using hx), lookupParts_cons, lookupParts_cons]
      split
      · exact ih k
      · split
        · rfl
        · rw [Query.bind_apply, Query.bind_apply]
          simp only [ih]

theorem splitParent_ok (h : splitParent path = .ok (parent, name)) :
    path.length < 128 ∧ name = baseName path ∧ parent = parentPath path ∧ name ≠ [] ∧
      parent.length < 128 := by
  unfold splitParent at h
  split at h
  · cases h
  · split at h
    · cases h
    · split at h
      · cases h
      · cases h
        grind

theorem lookupPath_of_parent (hsplit : splitParent path = .ok (parent, name))
    (hdot : name ≠ [dot]) (hdots : name ≠ [dot, dot])
    (hparent : lookupPath g parent d = some (.ok (p, I)))
    (hchild : lookupChild g p name d = some (.ok n)) (hn : n ≠ 0) :
    lookupPath g path d = some (.ok (n, d.inodes n)) := by
  obtain ⟨hlen, rfl, rfl, hbase, hlen'⟩ := splitParent_ok hsplit
  unfold lookupPath at hparent ⊢
  rw [if_neg (by omega)] at hparent ⊢
  obtain ⟨current, hcurrent, hparent⟩ := Query.bind_eq_ok.1 hparent
  obtain ⟨inode, -, hparent⟩ := Query.bind_eq_ok.1 hparent
  cases hparent
  have hlast : lookupParts g [baseName path] p d = some (.ok n) := by
    rw [lookupParts_cons, if_neg (by simp [hbase, hdot]), if_neg hdots, Query.bind_of_ok hchild]
    rfl
  have hparts : lookupParts g (path.splitOn slash) ext4RootInode d = some (.ok n) := by
    rw [lookupParts_steps] at hcurrent ⊢
    have hsteps := steps_parentPath hbase
    unfold steps at hsteps
    rw [hsteps, lookupParts_append hcurrent]
    exact hlast
  rw [Query.bind_of_ok hparts, Query.bind_of_ok (readInode_apply hn)]
  rfl

/-- Entries name inodes in use, and the root directory is there. -/
structure Rooted (g : Geometry) (init : Nat → Area) (content : Nat → List (List Entry)) (d : Disk) :
    Prop where
  dirs : Dirs g init content d
  root : IsDir g d ext4RootInode
  closed : ∀ k, IsDir g d k → ∀ e ∈ (content k).flatten, Allocated g d e.2
  self : ∀ k, IsDir g d k → (content k).flatten.dlookup [dot] = some k
  up : ∀ k, IsDir g d k → ∃ q, (content k).flatten.dlookup [dot, dot] = some q

theorem lookupChild_notDir (hn : n ≠ 0) (h : inodeIsDir (d.inodes n) = false) :
    lookupChild g n m d = some (.error .invalidArgument) := by
  rw [lookupChild, Query.bind_of_ok (readInode_apply hn)]
  simp [h]

namespace Rooted

theorem child (h : Rooted g init content d) (hk : Allocated g d k)
    (hx : lookupChild g k m d = some (.ok n)) :
    IsDir g d k ∧ (content k).flatten.dlookup m = some n ∧ Allocated g d n := by
  have hdir : IsDir g d k := by
    refine ⟨hk, ?_⟩
    by_contra hnot
    rw [lookupChild_notDir (Nat.ne_of_gt hk.1) (by simpa using hnot)] at hx
    cases hx
  rw [h.dirs.lookup hdir] at hx
  cases hfound : (content k).flatten.dlookup m with
  | none =>
    rw [hfound] at hx
    cases hx
  | some c =>
    rw [hfound] at hx
    cases hx
    exact ⟨hdir, rfl, h.closed k hdir _ (of_mem_dlookup hfound)⟩

/-- A name that is absent is not one of the dots. -/
theorem name_ne (h : Rooted g init content d) (hp : IsDir g d p)
    (habsent : name ∉ (content p).flatten.keys) : name ≠ [dot] ∧ name ≠ [dot, dot] := by
  have hnone := List.dlookup_eq_none.2 habsent
  obtain ⟨q, hq⟩ := h.up p hp
  constructor
  · rintro rfl
    rw [h.self p hp] at hnone
    cases hnone
  · rintro rfl
    rw [hq] at hnone
    cases hnone

variable {parts : List (List UInt8)}

theorem lookupParts (h : Rooted g init content d)
    (hk : Allocated g d k) (hx : lookupParts g parts k d = some (.ok n)) : Allocated g d n := by
  induction parts generalizing k with
  | nil =>
    cases hx
    exact hk
  | cons part parts ih =>
    rw [lookupParts_cons] at hx
    split at hx
    · exact ih hk hx
    · split at hx
      · cases hx
      · obtain ⟨c, hc, hx⟩ := Query.bind_eq_ok.1 hx
        exact ih (h.child hk hc).2.2 hx

variable {path : List UInt8}

theorem lookupPath (h : Rooted g init content d)
    (hx : lookupPath g path d = some (.ok (n, I))) : Allocated g d n ∧ I = d.inodes n := by
  refine ⟨?_, (lookupPath_ok hx).2⟩
  unfold Ext4.lookupPath at hx
  split at hx
  · cases hx
  · obtain ⟨current, hcurrent, hx⟩ := Query.bind_eq_ok.1 hx
    obtain ⟨inode, -, hx⟩ := Query.bind_eq_ok.1 hx
    cases hx
    exact h.lookupParts h.root.1 hcurrent

section
variable (h : Rooted g init content d)
  (hkeeps : ∀ k m n, IsDir g d k → (content k).flatten.dlookup m = some n → lookupChild g k m d' = some (.ok n))
include h hkeeps

/-- Entries that stay keep every path that could be followed. -/
theorem lookupParts_of_keeps (hk : Allocated g d k)
    (hx : Ext4.lookupParts g parts k d = some (.ok n)) :
    Ext4.lookupParts g parts k d' = some (.ok n) := by
  induction parts generalizing k with
  | nil => exact hx
  | cons part parts ih =>
    rw [lookupParts_cons] at hx ⊢
    split at hx
    case isTrue hskip =>
      rw [if_pos hskip]
      exact ih hk hx
    case isFalse hskip =>
      rw [if_neg hskip]
      split at hx
      · cases hx
      case isFalse hup =>
        rw [if_neg hup]
        obtain ⟨c, hc, hx⟩ := Query.bind_eq_ok.1 hx
        obtain ⟨hdir, hfound, hc'⟩ := h.child hk hc
        exact Query.bind_eq_ok.2 ⟨c, hkeeps k part c hdir hfound, ih hc' hx⟩

/-- A path leads where it led as long as no entry goes. -/
theorem lookupPath_of_keeps (hx : Ext4.lookupPath g path d = some (.ok (n, I))) :
    Ext4.lookupPath g path d' = some (.ok (n, d'.inodes n)) := by
  have hn := (lookupPath_ok hx).1
  unfold Ext4.lookupPath at hx ⊢
  split at hx
  · cases hx
  case isFalse hlen =>
    obtain ⟨current, hcurrent, hx⟩ := Query.bind_eq_ok.1 hx
    obtain ⟨inode, -, hx⟩ := Query.bind_eq_ok.1 hx
    cases hx
    rw [if_neg hlen, Query.bind_of_ok (h.lookupParts_of_keeps hkeeps h.root.1 hcurrent),
      Query.bind_of_ok (readInode_apply hn)]
    rfl

end

/-- A change of an inode that is no directory. -/
theorem change (h : Rooted g init content d) (hleaves : Leaves g n d d')
    (hdirs : Dirs g init content d') (hkeep : ∀ k, Allocated g d k → Allocated g d' k)
    (hold : ¬IsDir g d n) (hnew : ¬IsDir g d' n) : Rooted g init content d' := by
  have hback : ∀ {k}, IsDir g d' k → IsDir g d k := by
    intro k hk
    have hkn : k ≠ n := fun heq => hnew (heq ▸ hk)
    exact (hleaves.isDir hkn).1 hk
  have hroot : ext4RootInode ≠ n := fun heq => hold (heq ▸ h.root)
  exact ⟨hdirs, (hleaves.isDir hroot).2 h.root, fun k hk e he => hkeep _ (h.closed k (hback hk) e he),
    fun k hk => h.self k (hback hk), fun k hk => h.up k (hback hk)⟩

end Rooted

/-- The names of a directory with one entry more. -/
theorem dlookup_added (hdistinct : es.flatten.NodupKeys)
    (hperm : es.flatten.Perm (⟨name, n⟩ :: (content p).flatten)) (k : Nat) (m : List UInt8) :
    (update content p es k).flatten.dlookup m =
      if k = p ∧ m = name then some n else (content k).flatten.dlookup m := by
  by_cases hk : k = p
  · subst hk
    rw [update_self, perm_dlookup m hdistinct hperm]
    by_cases hm : m = name
    · subst hm
      simp
    · rw [dlookup_cons_ne _ _ hm, if_neg fun hand => hm hand.2]
  · rw [update_of_ne hk, if_neg fun hand => hk hand.1]

/-- A name is added for an inode in use. -/
theorem Rooted.add (h : Rooted g init content d) (hr : Rewrote g init content p es d d')
    (hp : IsDir g d p) (hperm : es.flatten.Perm (⟨name, n⟩ :: (content p).flatten))
    (hn : Allocated g d n) (habsent : name ∉ (content p).flatten.keys) :
    Rooted g init (update content p es) d' := by
  have hdistinct : es.flatten.NodupKeys := by
    simpa using (hr.dirs.dir p ((hr.same.isDir p).2 hp)).distinct
  -- the directory has its dots already
  have hdots : ∀ {m c}, (content p).flatten.dlookup m = some c → m ≠ name := by
    rintro m c hm rfl
    rw [List.dlookup_eq_none.2 habsent] at hm
    cases hm
  have hsame : ∀ {k m c}, (content k).flatten.dlookup m = some c →
      (update content p es k).flatten.dlookup m = some c := by
    intro k m c hm
    rw [dlookup_added hdistinct hperm, if_neg, hm]
    rintro ⟨rfl, rfl⟩
    exact hdots hm rfl
  refine ⟨hr.dirs, (hr.same.isDir _).2 h.root, fun k hk e he => ?_, fun k hk => ?_, fun k hk => ?_⟩
  · refine (hr.same.allocated _).2 ?_
    by_cases hkp : k = p
    · subst hkp
      rw [update_self] at he
      rcases List.mem_cons.1 (hperm.mem_iff.1 he) with rfl | he
      · exact hn
      · exact h.closed k hp e he
    · rw [update_of_ne hkp] at he
      exact h.closed k ((hr.same.isDir k).1 hk) e he
  · exact hsame (h.self k ((hr.same.isDir k).1 hk))
  · obtain ⟨q, hq⟩ := h.up k ((hr.same.isDir k).1 hk)
    exact ⟨q, hsame hq⟩

/-- A path under which a name can be added: its parent is a directory that has room for the name or
stays below `2 ^ 32` bytes. -/
def Enterable (g : Geometry) (d : Disk) (path : List UInt8) : Prop :=
  ∀ dir name p, splitParent path = .ok (dir, name) →
    lookupPath g dir d = some (.ok (p, d.inodes p)) → inodeIsDir (d.inodes p) = true ∧
      (Roomy g name (d.inodes p, d) ∨ (d.inodes p).size + g.blockSize < 2 ^ 32)

theorem Leaves.roomy (h : Leaves g n d d') (hk : k ≠ n) (hholds : DirHolds g d (d.inodes k) es)
    (hroom : Roomy g name (d.inodes k, d)) : Roomy g name (d'.inodes k, d') := by
  obtain ⟨l, b, hl, hfile, hfound⟩ := hroom
  have hlt : l < es.length := by
    rw [hholds.size] at hl
    exact Nat.lt_of_mul_lt_mul_right hl
  obtain ⟨c, hc, hc0, -⟩ := hholds.block l _ (List.getElem?_eq_getElem hlt)
  obtain rfl : c = b := by simpa [hfile] using hc.symm
  exact ⟨l, c, by rwa [h.inode k hk], (h.file hk).trans hfile, by rwa [h.bytes hk hfile hc0]⟩

/-! ## A small volume -/

/-- The small volume with another block of its root directory. -/
def withRoot (f : Nat → UInt8) : Disk :=
  { oneFile with blocks := fun b => if b = 10 then f else fun _ => 0 }

theorem withRoot_refs (f : Nat → UInt8) {b : Nat} {p : List Nat} :
    slotRefs (withRoot f) n p b ↔ slotRefs oneFile n p b := by
  rcases oneFile_slot n with hraw | ⟨hnot, -⟩
  · have hnone : ∀ blocks, ¬areaRefs blocks (oneFile.inodes n).area p b := fun blocks => by
      rw [hraw]
      exact areaRefs_raw
    exact iff_of_false (hnone _) (hnone _)
  · exact (areaRefs_iff_leaf hnot).trans (areaRefs_iff_leaf hnot).symm

/-- With other contents of the blocks, as long as no inode names others. -/
theorem good_withBlocks (howned : Owned g d) (hclean : CleanFree g d) (bs : Nat → Nat → UInt8)
    (hrefs : ∀ n p b, slotRefs { d with blocks := bs } n p b → slotRefs d n p b) :
    Good g (fun n => (d.inodes n).area) { d with blocks := bs } :=
  @good_of_image g { d with blocks := bs }
    (howned.mono (fun n p b hn hr => ⟨hn, hrefs n p b hr⟩) fun _ _ _ _ _ hm => hm) hclean

theorem zeroTaken_withBlocks (h : ZeroTaken g d)
    (bs : Nat → Nat → UInt8) : ZeroTaken g { d with blocks := bs } := h

theorem allocated_withRoot (h : k = 2 ∨ k = 12) : Allocated smallVolume (withRoot f) k := by
  rcases h with rfl | rfl <;> exact ⟨by decide, by decide, rfl⟩

theorem oneFile_isDir (h : inodeIsDir (oneFile.inodes k) = true) : k = 2 := by
  unfold oneFile at h
  by_contra hk
  by_cases hfile : k = 12
  · subst hfile
    exact absurd h (by decide)
  · simp only [hk, hfile, if_false] at h
    exact absurd h (by decide)

theorem isDir_withRoot (h : IsDir smallVolume (withRoot f) k) : k = 2 :=
  oneFile_isDir h.2

theorem rooted_withRoot {f : Nat → UInt8} {es : List Entry} (hholds : Holds f 1024 es)
    (hdistinct : es.NodupKeys) (hself : es.dlookup [dot] = some 2)
    (hup : es.dlookup [dot, dot] = some 2) (hclosed : ∀ e ∈ es, e.2 = 2 ∨ e.2 = 12) :
    Rooted smallVolume (fun n => (oneFile.inodes n).area) (fun _ => [es]) (withRoot f) where
  dirs :=
    { good := good_withBlocks oneFile_owned oneFile_clean _ fun n p b hr => (withRoot_refs f).1 hr
      unnamed := fun k p hr => oneFile_consistent.unnamed k p ((withRoot_refs f).1 hr)
      zero := zeroTaken_withBlocks oneFile_consistent.zero _
      dir := by
        intro k hk
        obtain rfl := isDir_withRoot hk
        refine ⟨⟨(by decide : (oneFile.inodes 2).size = 1 * 1024), fun l es' hl => ?_⟩, by simpa using hdistinct, by simp,
          (by decide : 1024 < 2 ^ 32), ?_⟩
        · obtain ⟨rfl, rfl⟩ : l = 0 ∧ es = es' := by
            cases l with
            | zero => simpa using hl
            | succ l => simp at hl
          have hmap : ∀ d' : Disk, fileBlockNumber (oneFile.inodes 2) 0 d' = some (.ok 10) :=
            fun _ => rfl
          exact ⟨10, hmap _, by decide, hholds⟩
        · rintro node hnode - e he
          cases hnode
          obtain rfl : e = ⟨0, 1, 0, 10⟩ := by simpa using he
          decide }
  root := ⟨allocated_withRoot (.inl rfl), (by decide : inodeIsDir (oneFile.inodes 2) = true)⟩
  closed _ _ e he := allocated_withRoot (hclosed e (by simpa using he))
  self k hk := by
    obtain rfl := isDir_withRoot hk
    simpa using hself
  up k _ := ⟨2, by simpa using hup⟩

theorem rooted_oneFile :
    Rooted smallVolume (fun n => (oneFile.inodes n).area)
      (fun _ => [[⟨[dot], 2⟩, ⟨[dot, dot], 2⟩, ⟨[97], 12⟩]]) oneFile :=
  @rooted_withRoot (insertEntry (dotBlock smallVolume 2 2) 12 12 [97] ext4FtRegular) _ oneFile_holds
    (by decide : ([[dot], [dot, dot], [97]] : List (List UInt8)).Nodup) rfl rfl (by decide)

end RadKernel.Ext4
