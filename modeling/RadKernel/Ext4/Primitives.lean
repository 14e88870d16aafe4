import RadKernel.Ext4.Refs

/-!
# What the steps of a program on a copy keep

The programs of `fs/ext4.cpp` on a copy of an inode change it and the volume in four ways: a block
is looked up or added, a block of the copy is written, fields other than the blocks are set, and the
copy is stored in its slot. What these four keep, every program keeps that does nothing else.
-/

namespace RadKernel.Ext4

open Kernel Prog

/-- An assertion that the four steps keep. -/
structure Stable (g : Geometry) (n : Nat) (K : Inode × Disk → Prop) : Prop where
  ensure : ∀ {logical : Nat}, Triple K (ensureInodeBlock g logical)
    (fun b s => K s ∧ ∃ p, AreaRef s.2.blocks s.1.area false p b) fun _ => K
  write : ∀ {I : Inode} {d : Disk} {p : List Nat} {x : Nat} (f : Nat → UInt8), K (I, d) →
    AreaRef d.blocks I.area false p x → K (I, d.setBlock x f)
  copy : ∀ {I I' : Inode} {d : Disk}, K (I, d) → I'.area = I.area → I'.mode = I.mode →
    I'.linksCount = I.linksCount → K (I', d)
  store : ∀ {I : Inode} {d : Disk}, K (I, d) → K (I, d.setInode n I)

section
variable (I : Inode) (size : Nat)
include I size

theorem grownInode_area : (grownInode I size).area = I.area := by
  unfold grownInode
  split <;> rfl

theorem grownInode_mode : (grownInode I size).mode = I.mode := by
  unfold grownInode
  split <;> rfl

theorem grownInode_linksCount : (grownInode I size).linksCount = I.linksCount := by
  unfold grownInode
  split <;> rfl

end

namespace Stable

variable {g : Geometry} {n child fileType offset fuel logical : Nat} {name : List UInt8}
  {K : Inode × Disk → Prop} {E : Status → Inode × Disk → Prop}

theorem writeBlockPart {x off len : Nat} {src : Nat → UInt8}
    (h : Stable g n K) : Triple (fun s => K s ∧ ∃ p, AreaRef s.2.blocks s.1.area false p x)
      (runDisk (writeBlockPart x off len src)) (fun _ => K) E := by
  rintro ⟨I, d⟩ ⟨hs, p, hp⟩ r s' hx
  cases hx
  exact h.write _ hs hp

theorem modifyCopy {f : Inode → Inode} (h : Stable g n K)
    (harea : ∀ I, (f I).area = I.area) (hmode : ∀ I, (f I).mode = I.mode)
    (hlinks : ∀ I, (f I).linksCount = I.linksCount) : Triple K (modifyCopy f) (fun _ => K) E :=
  Triple.modify fun s hs => h.copy hs (harea s.1) (hmode s.1) (hlinks s.1)

theorem writeCopy (h : Stable g n K) : Triple K (writeCopy n) (fun _ => K) fun _ => K := by
  rintro ⟨I, d⟩ hs r s' hx
  unfold Ext4.writeCopy at hx
  simp only [bind_apply, read_apply, runDisk_apply, writeInode] at hx
  split at hx
  case isTrue =>
    cases hx
    exact hs
  case isFalse =>
    cases hx
    exact h.store hs

variable {size left : Nat} {data : Nat → UInt8}

section
variable (h : Stable g n K)
include h

theorem writeLoop {done : Nat} :
    Triple K (writeLoop g offset size data fuel done) (fun _ => K) fun _ => K := by
  induction fuel generalizing done with
  | zero => exact Triple.diverge
  | succ fuel ih =>
    refine Triple.ite (fun _ => Triple.pure fun _ hs => hs) fun _ => ?_
    refine Triple.bind h.ensure fun b => ?_
    refine Triple.bind h.writeBlockPart fun _ => ?_
    exact Triple.ite (fun _ => Triple.diverge) fun _ => ih

theorem writeInodeDataGrow :
    Triple K (writeInodeDataGrow g n offset size data) (fun _ => K) fun _ => K := by
  refine Triple.bind h.writeLoop fun done => ?_
  refine Triple.bind (h.modifyCopy (grownInode_area · _) (grownInode_mode · _)
    (grownInode_linksCount · _)) fun _ => ?_
  refine Triple.bind h.writeCopy fun _ => ?_
  exact Triple.pure fun _ hs => hs

theorem growLoop {pos : Nat} : Triple K (growLoop g n size fuel pos) (fun _ => K) fun _ => K := by
  induction fuel generalizing pos with
  | zero => exact Triple.diverge
  | succ fuel ih =>
    refine Triple.ite (fun _ => Triple.pure fun _ hs => hs) fun _ => ?_
    refine Triple.bind h.writeInodeDataGrow fun done => ?_
    exact Triple.ite (fun _ => Triple.diverge) fun _ => ih

theorem addToBlocks :
    Triple K (addToBlocks g n child name fileType left logical) (fun _ => K) fun _ => K := by
  induction left generalizing logical with
  | zero => exact Triple.pure fun _ hs => hs
  | succ left ih =>
    refine Triple.bind h.ensure fun b => ?_
    refine Triple.bind_read fun s hs => ?_
    dsimp only
    split
    case h_1 pos _ =>
      refine Triple.bind (h.writeBlockPart.pre fun t ht => ht ▸ hs) fun _ => ?_
      refine Triple.bind h.writeCopy fun _ => ?_
      exact Triple.pure fun _ hs => hs
    case h_2 => exact ih.pre fun t ht => ht ▸ hs.1

theorem addDirent : Triple K (addDirent g n child name fileType) (fun _ => K) fun _ => K := by
  refine Triple.ite (fun _ => Triple.fail fun _ hs => hs) fun _ => ?_
  refine Triple.bind_read fun s hs => ?_
  refine Triple.bind (h.addToBlocks.pre fun t ht => ht ▸ hs) fun placed => ?_
  refine Triple.ite (fun _ => Triple.pure fun _ hs => hs) fun _ => ?_
  refine Triple.bind h.ensure fun b => ?_
  refine Triple.bind (Q := fun _ s => K s ∧ ∃ p, AreaRef s.2.blocks s.1.area false p b) ?_ fun _ => ?_
  · exact Triple.modify fun t ht => ⟨h.copy ht.1 rfl rfl rfl, ht.2⟩
  · exact Triple.bind h.writeBlockPart fun _ => h.writeCopy

theorem removeFromBlocks :
    Triple K (removeFromBlocks g n name left logical) (fun _ => K) fun _ => K := by
  induction left generalizing logical with
  | zero => exact Triple.pure fun _ hs => hs
  | succ left ih =>
    refine Triple.bind_read fun s hs => ?_
    refine Triple.bind_query (fun t e ht _ => ht ▸ hs) fun b => ?_
    refine Triple.ite (fun _ => ih.pre fun t ht => ht.1 ▸ hs) fun hb => ?_
    dsimp only
    split
    case h_1 pos _ =>
      refine Triple.bind (h.writeBlockPart.pre fun t ht => ?_) fun _ => ?_
      · obtain ⟨rfl, hfile⟩ := ht
        exact ⟨hs, fileBlockNumber_ref hfile hb⟩
      refine Triple.bind (h.modifyCopy ?_ ?_ ?_) fun _ => ?_
      · exact fun _ => rfl
      · exact fun _ => rfl
      · exact fun _ => rfl
      refine Triple.bind h.writeCopy fun _ => ?_
      exact Triple.pure fun _ hs => hs
    case h_2 => exact ih.pre fun t ht => ht.1 ▸ hs

theorem removeDirent : Triple K (removeDirent g n name) (fun _ => K) fun _ => K := by
  refine Triple.bind_read fun s hs => ?_
  refine Triple.bind (h.removeFromBlocks.pre fun t ht => ht ▸ hs) fun found => ?_
  refine Triple.ite (fun _ => Triple.pure fun _ hs => hs) fun _ => ?_
  exact Triple.ite (fun _ => Triple.diverge) fun _ => Triple.fail fun _ hs => hs

theorem fillDir {parent : Nat} : Triple K (fillDir g n parent) (fun _ => K) fun _ => K := by
  refine Triple.bind h.ensure fun b => ?_
  refine Triple.bind ?_ fun _ =>
    h.writeBlockPart
  exact Triple.modify fun t ht => ⟨h.copy ht.1 rfl rfl rfl, ht.2⟩

end

end Stable

end RadKernel.Ext4
