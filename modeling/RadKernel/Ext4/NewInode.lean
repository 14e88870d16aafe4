import RadKernel.Ext4.Capacity
import RadKernel.Ext4.Successes

/-!
# A new inode before it has a name

`ext4_open`, `ext4_mkdir` and `ext4_symlink` take a free inode, fill it, and enter it in its parent
directory afterwards. In between it is in use and nothing names it.
-/

namespace RadKernel.Ext4

open Kernel Ownership Prog

variable {g : Geometry} {init : Nat → Area} {content content' : Nat → List (List Entry)}
  {d d' d₁ : Disk} {k n p mode group i : Nat} {I I₁ : Inode} {name path : List UInt8}
 

/-- A new inode has a number of its own, above the reserved ones. -/
theorem new_inode (hgood : Good g init d) (hfree : findFreeInode g d = some (group, i)) :
    0 < g.inodeNumber group i ∧ Freeable g (g.inodeNumber group i) ∧
      inodeBit g d (g.inodeNumber group i) = false := by
  obtain ⟨hpos, hle, -, -, hfirst, hbit, -⟩ := findFreeInode_some hfree
  refine ⟨hpos, ⟨?_, hle⟩, hbit⟩
  rcases hfirst with hfirst | hroot
  · exact hfirst
  · rw [hroot] at hbit ⊢
    exact hgood.root.resolve_left (by simp [hbit])

/-- A copy that names no blocks can be written through. -/
theorem writable_of_blank (hgood : Good g init d) (hzero : ZeroTaken g d)
    (hinit : ¬(init n).IsIndex)
    (hnot : ¬I.area.IsIndex) (hleaf : I.area.leaf = []) (hends : I.area.EndsInRange) :
    Writable g init n (I, d) := by
  have hnone : ∀ p b, ¬areaRefs d.blocks I.area p b := fun p b hr => by
    have hmem := mem_of_ofList ((areaRefs_iff_leaf hnot).1 hr)
    simp [hleaf] at hmem
  exact
    { sound := hgood
      copy := (Work.blank (Work.slot hgood n) hinit hnot hnone).copy
      index := sameIndex_of_not hnot hinit
      ends := hends
      unnamed := fun p => hnone p 0
      zero := hzero }

theorem FreshName.not_mem {q : Nat} (h : FreshName g d path q name) (hdirs : Dirs g init content d)
    (hq : IsDir g d q) : name ∉ (content q).flatten.keys := by
  obtain ⟨e, he⟩ := h.absent
  rw [hdirs.lookup hq] at he
  cases hfound : (content q).flatten.dlookup name with
  | none => exact List.dlookup_eq_none.1 hfound
  | some c =>
    rw [hfound] at he
    cases he

/-- Inode `n` was free and holds `I` now, a file or a directory with the entries `content' n`. -/
structure NewNode (g : Geometry) (init : Nat → Area) (content content' : Nat → List (List Entry))
    (n : Nat) (I : Inode) (d d' : Disk) : Prop where
  stored : d'.inodes n = I
  leaves : Leaves g n d d'
  dirs : Dirs g init content' d'
  same : ∀ k, k ≠ n → content' k = content k
  pos : 0 < n
  freeable : Freeable g n
  free : inodeBit g d n = false
  bits : ∀ k, 0 < k → inodeBit g d' k = (decide (k = n) || inodeBit g d k)

namespace NewNode

section
variable (h : NewNode g init content content' n I d d')
include h

theorem inUse : Allocated g d' n :=
  ⟨h.pos, h.freeable.2, by simp [h.bits n h.pos]⟩

theorem ne (hk : Allocated g d k) : k ≠ n := by
  rintro rfl
  have hfree := h.free
  rw [hk.2.2] at hfree
  cases hfree

theorem not_allocated : ¬Allocated g d n :=
  fun hn => h.ne hn rfl

theorem allocated (hk : Allocated g d k) :
    Allocated g d' k := (h.leaves.allocated (h.ne hk)).2 hk

theorem isDir (hk : IsDir g d k) : IsDir g d' k :=
  (h.leaves.isDir (h.ne hk.1)).2 hk

end

/-- The inode was filled through its copy and stored. -/
theorem of_writable (h : Dirs g init content d) (hfree : findFreeInode g d = some (group, i))
    (hn : n = g.inodeNumber group i) (hw : Writable g init n (I, d₁))
    (hleaves : Leaves g n (startInode g mode group i d) d₁)
    (hbits : d₁.inodeBitmap = (startInode g mode group i d).inodeBitmap)
    (hsame : ∀ k, k ≠ n → content' k = content k)
    (hdir : inodeIsDir I = true → DirOk g (d₁.setInode n I) I (content' n)) :
    NewNode g init content content' n I d (d₁.setInode n I) := by
  obtain ⟨hpos, hfreeable, hbit⟩ := new_inode h.good hfree
  rw [← hn] at hpos hfreeable hbit
  have hslot : (d₁.setInode n I).inodes n = I := Function.update_self ..
  have hall : Leaves g n d (d₁.setInode n I) :=
    (hn ▸ leaves_startInode hfree).trans (hleaves.trans (leaves_setInode g n d₁ I))
  refine ⟨hslot, hall, ?_, hsame, hpos, hfreeable, hbit, fun k hk => ?_⟩
  · refine h.change hall hw.commit.sound (fun q hq => ?_) hw.zero hsame fun hisDir => ?_
    · rw [slotRefs, hslot] at hq
      exact hw.unnamed q hq
    · have hmode := hisDir.2
      rw [hslot] at hmode ⊢
      exact hdir hmode
  · have hstart : inodeBit g (d₁.setInode n I) k = inodeBit g (startInode g mode group i d) k :=
      congrFun (congrFun hbits _) _
    rw [hstart, inodeBit_startInode hfree hk, hn]

end NewNode

/-! ## The new inodes of the calls -/

theorem newInode_leaf (mode : Nat) : (newInode mode).area.leaf = [] := by
  rcases newInode_area mode with harea | harea <;> rw [harea] <;> rfl

theorem newInode_ends (mode : Nat) : (newInode mode).area.EndsInRange := by
  rcases newInode_area mode with harea | harea
  · rw [harea]
    rintro _ ⟨⟩
  · rw [harea]
    rintro _ ⟨⟩ - e he
    simp [emptyNode] at he

theorem newInode_fits (mode : Nat) : (newInode mode).area.Fits := by
  rcases newInode_area mode with harea | harea
  · rw [harea]
    rintro _ ⟨⟩
  · rw [harea]
    rintro _ ⟨⟩ -
    exact ⟨Nat.le_refl 4, Nat.zero_le 4, by rintro e ⟨⟩⟩

section
variable (h : Dirs g init content d) (hfree : findFreeInode g d = some (group, i))
include h hfree

theorem writable_startInode :
    Writable g init (g.inodeNumber group i) (newInode mode, startInode g mode group i d) := by
  have hcreate : Work g init (fun _ => True) _ (newInode mode) 0 (d.inodes 0) _ :=
    Work.create h.good hfree 0
  exact writable_of_blank hcreate.sound h.zero
    (hcreate.copyIndex.not_isIndex (newInode_not_isIndex mode)) (newInode_not_isIndex mode)
    (newInode_leaf mode) (newInode_ends mode)

/-- The new file of `ext4_open`. -/
theorem newNode_of_start (hmode : inodeIsDir (newInode mode) = false) :
    NewNode g init content content (g.inodeNumber group i) (newInode mode) d
      (startInode g mode group i d) := by
  have hsame : (startInode g mode group i d).setInode (g.inodeNumber group i) (newInode mode) =
      startInode g mode group i d := by
    unfold startInode Disk.setInode
    rw [Function.update_idem]
  have hnew : NewNode g init content content _ (newInode mode) d
      ((startInode g mode group i d).setInode (g.inodeNumber group i) (newInode mode)) :=
    .of_writable h hfree rfl (writable_startInode h hfree) (.refl g _ _) rfl (fun _ _ => rfl)
      fun hdir => by
        rw [hmode] at hdir
        cases hdir
  rwa [hsame] at hnew

end

/-! ## The new directory -/

/-- The block of a new directory holds its two dots. -/
theorem dotBlock_holds (hn : 0 < n) (hn32 : n < 2 ^ 32) (hp : 0 < p) (hp32 : p < 2 ^ 32) :
    Holds (dotBlock g n p) g.blockSize [⟨[dot], n⟩, ⟨[dot, dot], p⟩] := by
  have hsize := g.blockSize_eq
  obtain ⟨f, hf⟩ : ∃ f, f = putEntry (putRecLen (fun _ => 0) 0 12) 0 n [dot] ext4FtDirectory :=
    ⟨_, rfl⟩
  have hblock : dotBlock g n p =
      putEntry (putRecLen f 12 (g.blockSize - 12)) 12 p [dot, dot] ext4FtDirectory := by
    rw [hf]
    rfl
  -- the first record
  have hagree : Agree f (dotBlock g n p) 0 12 := by
    intro j _ hj
    rw [hblock, putEntry_agree (.inl (Nat.le_refl 12)) j (Nat.zero_le j) hj]
    exact putLe_agree (.inl (by omega : 16 ≤ 16)) j (Nat.zero_le j) (by omega)
  obtain ⟨hinode, hlen, hnameLen, hname⟩ := putEntry_fields (putRecLen (fun _ => 0) 0 12) 0
    ext4FtDirectory hn32 (by decide : [dot].length ≤ ext4NameMax)
  rw [← hf] at hinode hlen hnameLen hname
  have hrec : recLen f 0 = 12 := hlen.trans (le16_putLe (by decide))
  have hneed : recNeed f 0 = 12 := by
    rw [recNeed, if_neg (by omega), hnameLen]
    rfl
  have hrec' : recLen (dotBlock g n p) 0 = 12 :=
    (recLen_congr (hagree.mono (Nat.le_refl 0) (by omega))).trans hrec
  have hneed' : recNeed (dotBlock g n p) 0 = 12 :=
    (recNeed_congr (hagree.mono (Nat.le_refl 0) (by omega))).trans hneed
  have hentry : entryAt (dotBlock g n p) 0 = some ⟨[dot], n⟩ := by
    have hsame : entryAt (dotBlock g n p) 0 = entryAt f 0 :=
      entryAt_congr (by omega) (by rwa [hrec])
    rw [hsame, entryAt, if_neg (by omega), hinode, hname]
  -- the second, up to the end
  obtain ⟨hinode₂, hlen₂, hnameLen₂, hname₂⟩ := putEntry_fields
    (putRecLen f 12 (g.blockSize - 12)) 12 ext4FtDirectory hp32
    (by decide : [dot, dot].length ≤ ext4NameMax)
  rw [← hblock] at hinode₂ hlen₂ hnameLen₂ hname₂
  have hrec₂ : recLen (dotBlock g n p) 12 = g.blockSize - 12 :=
    hlen₂.trans (le16_putLe (by omega))
  have hneed₂ : recNeed (dotBlock g n p) 12 = 12 := by
    rw [recNeed, if_neg (by omega), hnameLen₂]
    rfl
  have hentry₂ : entryAt (dotBlock g n p) 12 = some ⟨[dot, dot], p⟩ := by
    rw [entryAt, if_neg (by omega), hinode₂, hname₂]
  refine ⟨[0, 12], .record (by omega) (by omega) ?_, ?_⟩
  · rw [hrec', Nat.zero_add]
    refine .record (by omega) (by omega) ?_
    rw [hrec₂, Nat.add_sub_cancel' (by omega)]
    exact .done
  · rw [entries_cons, hentry, entries_cons, hentry₂, entries_nil]
    rfl

/-- What `ext4_mkdir` has made of a new inode before it is entered under its name. -/
structure Filled (g : Geometry) (init : Nat → Area) (n p : Nat) (s s' : Inode × Disk) : Prop where
  writable : Writable g init n s'
  leaves : Leaves g n s.2 s'.2
  bits : s'.2.inodeBitmap = s.2.inodeBitmap
  mode : s'.1.mode = s.1.mode
  links : s'.1.linksCount = s.1.linksCount
  compact : Compact g s'.2 s'.1
  holds : DirHolds g s'.2 s'.1 [[⟨[dot], n⟩, ⟨[dot, dot], p⟩]]
  small : s'.1.size < 2 ^ 32

theorem fillDir_ok (h : Writable g init n (I, d)) (hn : 0 < n) (hn32 : n < 2 ^ 32) (hp : 0 < p)
    (hp32 : p < 2 ^ 32) (hsize : I.size = 0) (hfits : I.area.Fits) (hnot : ¬I.area.IsIndex)
    (hx : fillDir g n p (I, d) = some (.ok (), I₁, d₁)) : Filled g init n p (I, d) (I₁, d₁) := by
  have hblock := g.blockSize_eq
  obtain ⟨-, hlocal⟩ := local_of_run (fun hs => hs.fillDir) h.work hx
  have hcompact := (Compact.of_leaf hfits hnot).of_run (fun hs => hs.fillDir) h.work hx
    fun hindex => absurd hindex hnot
  have hempty : DirHolds g d I [] := ⟨by rw [hsize]; simp, fun l e hl => by simp at hl⟩
  obtain ⟨b, ⟨I₂, d₂⟩, hensure, hx⟩ := Prog.bind_eq_ok.1 hx
  obtain ⟨hw, hb, hensured⟩ := ensureInodeBlock_ok h (by decide) hensure
  cases hx
  have hholds := (hempty.append hw hb hensured (dotBlock_holds hn hn32 hp hp32)).2
    (by simp; rw [u64, Nat.mod_eq_of_lt (by omega)])
  simp only [List.length_nil, Nat.zero_add, Nat.one_mul, List.nil_append] at hholds
  have hwrite := (hw.write hensured.file hb (overlay (d₂.blocks b) 0 g.blockSize (dotBlock g n p))).1
  refine ⟨hwrite.setCopy rfl, hlocal.leaves h.work, hlocal.bits, hlocal.mode, hlocal.links, hcompact,
    hholds, ?_⟩
  have hsmall : u64 g.blockSize = g.blockSize := Nat.mod_eq_of_lt (by omega)
  show u64 g.blockSize < 2 ^ 32
  omega

theorem newNode_of_fillDir (h : Dirs g init content d) (hfree : findFreeInode g d = some (group, i))
    (hp : 0 < p) (hp32 : p < 2 ^ 32)
    (hfill : fillDir g (g.inodeNumber group i) p (newInode (ext4SIfdir ||| 0o755),
      startInode g (ext4SIfdir ||| 0o755) group i d) = some (.ok (), I₁, d₁)) :
    Filled g init (g.inodeNumber group i) p (newInode (ext4SIfdir ||| 0o755),
        startInode g (ext4SIfdir ||| 0o755) group i d) (I₁, d₁) ∧
      NewNode g init content (Function.update content (g.inodeNumber group i)
        [[⟨[dot], g.inodeNumber group i⟩, ⟨[dot, dot], p⟩]]) (g.inodeNumber group i) I₁ d
        (d₁.setInode (g.inodeNumber group i) I₁) := by
  obtain ⟨hpos, hfreeable, -⟩ := new_inode h.good hfree
  have hfilled := fillDir_ok (writable_startInode h hfree) hpos
    (hfreeable.2.trans_lt g.totalInodes_lt) hp hp32 rfl (newInode_fits _) (newInode_not_isIndex _)
    hfill
  refine ⟨hfilled, .of_writable h hfree rfl hfilled.writable hfilled.leaves hfilled.bits
    (fun k hk => Function.update_of_ne hk ..) fun _ => ?_⟩
  rw [Function.update_self]
  exact ⟨hfilled.holds.congr rfl rfl rfl,
    (by decide : ([[dot], [dot, dot]] : List (List UInt8)).Nodup), by simp, hfilled.small,
    hfilled.writable.ends⟩

end RadKernel.Ext4
