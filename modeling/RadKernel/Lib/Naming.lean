import Mathlib.Algebra.BigOperators.Group.Finset.Piecewise
import Mathlib.Algebra.Order.BigOperators.Group.Finset

/-!
# Names and link counts

Directories hold entries, an entry names a file or a directory. The link count of a file is the number
of entries that name it, that of a directory is two more than the number of its subdirectories. The
entries come and go one at a time.
-/

namespace RadKernel.Naming

open Finset

variable {ι : Type*} [DecidableEq ι] {dirs files : Finset ι} {root p n m k : ι}
  {kids kids' : ι → List ι} {links links' : ι → ℕ}

/-- The number of entries that name `n`. -/
def named (dirs : Finset ι) (kids : ι → List ι) (n : ι) : ℕ := ∑ k ∈ dirs, (kids k).count n

/-- The number of entries of `k` that name directories. -/
def subdirs (dirs : Finset ι) (kids : ι → List ι) (k : ι) : ℕ := (kids k).countP (· ∈ dirs)

/-- The link counts are right, and every node has a name. -/
structure Linked (dirs files : Finset ι) (root : ι) (kids : ι → List ι) (links : ι → ℕ) : Prop where
  disjoint : Disjoint dirs files
  root_mem : root ∈ dirs
  closed : ∀ k ∈ dirs, ∀ n ∈ kids k, n ∈ dirs ∨ n ∈ files
  file : ∀ n ∈ files, links n = named dirs kids n ∧ 0 < named dirs kids n
  dir : ∀ k ∈ dirs, links k = 2 + subdirs dirs kids k
  once : ∀ k ∈ dirs, named dirs kids k = if k = root then 0 else 1

/-- An entry for `n` comes to the entries of `p`. -/
structure Enters (dirs : Finset ι) (p n : ι) (kids kids' : ι → List ι) : Prop where
  here : (kids' p).Perm (n :: kids p)
  other : ∀ k ∈ dirs, k ≠ p → kids' k = kids k

theorem named_pos (hk : k ∈ dirs) (hn : n ∈ kids k) : 0 < named dirs kids n :=
  sum_pos' (fun _ _ => Nat.zero_le _) ⟨k, hk, List.count_pos_iff.2 hn⟩

theorem named_eq_zero (h : ∀ k ∈ dirs, n ∉ kids k) : named dirs kids n = 0 :=
  sum_eq_zero fun k hk => List.count_eq_zero.2 (h k hk)

theorem exists_of_named_pos (h : 0 < named dirs kids n) : ∃ k ∈ dirs, n ∈ kids k := by
  by_contra hnone
  push Not at hnone
  rw [named_eq_zero hnone] at h
  exact Nat.lt_irrefl 0 h

theorem named_insert (hn : n ∉ dirs) (hnone : kids n = []) :
    named (insert n dirs) kids m = named dirs kids m := by
  unfold named
  rw [sum_insert hn, hnone]
  simp

theorem named_erase (hn : n ∈ dirs) (hnone : kids n = []) :
    named (dirs.erase n) kids m = named dirs kids m := by
  unfold named
  rw [← add_sum_erase dirs _ hn, hnone]
  simp

namespace Enters

section
variable (h : Enters dirs p n kids kids')
include h

theorem named_eq (hp : p ∈ dirs) :
    named dirs kids' m = named dirs kids m + if m = n then 1 else 0 := by
  have hrest : ∑ k ∈ dirs.erase p, (kids' k).count m = ∑ k ∈ dirs.erase p, (kids k).count m := by
    refine sum_congr rfl fun k hk => ?_
    rw [h.other k (mem_of_mem_erase hk) (ne_of_mem_erase hk)]
  unfold named
  rw [← add_sum_erase dirs _ hp, ← add_sum_erase dirs _ hp, hrest, h.here.count_eq m, List.count_cons]
  grind

theorem subdirs_eq (hk : k ∈ dirs) :
    subdirs dirs kids' k = subdirs dirs kids k + if k = p ∧ n ∈ dirs then 1 else 0 := by
  unfold subdirs
  by_cases hkp : k = p
  · subst hkp
    rw [h.here.countP_eq, List.countP_cons]
    simp
  · rw [h.other k hk hkp, if_neg fun hand => hkp hand.1, Nat.add_zero]

/-- Entering what is no directory changes no count of the directories. -/
theorem dirs_eq (hp : p ∈ dirs) (hn : n ∉ dirs) (hk : k ∈ dirs) :
    subdirs dirs kids' k = subdirs dirs kids k ∧ named dirs kids' k = named dirs kids k := by
  have hkn : k ≠ n := fun heq => hn (heq ▸ hk)
  rw [h.subdirs_eq hk, h.named_eq hp, if_neg fun hand => hn hand.2, if_neg hkn]
  exact ⟨rfl, rfl⟩

theorem mem_iff (hk : k ∈ dirs) : m ∈ kids' k ↔ (k = p ∧ m = n) ∨ m ∈ kids k := by
  by_cases hkp : k = p
  · subst hkp
    rw [h.here.mem_iff, List.mem_cons]
    simp
  · rw [h.other k hk hkp]
    simp [hkp]

end

end Enters

namespace Linked

theorem not_file (h : Linked dirs files root kids links) (hn : n ∈ dirs) : n ∉ files :=
  fun hfile => disjoint_left.1 h.disjoint hn hfile

theorem named_of_new (h : Linked dirs files root kids links) (hn : n ∉ dirs) (hn' : n ∉ files) :
    named dirs kids n = 0 :=
  named_eq_zero fun k hk hmem => (h.closed k hk n hmem).elim hn hn'

section
variable (h : Linked dirs files root kids links) (hp : p ∈ dirs)
include h hp

/-- A file is made under its first name. -/
theorem newFile (hn : n ∉ dirs) (hn' : n ∉ files) (henter : Enters dirs p n kids kids')
    (hlinks : ∀ m, m ∈ dirs ∨ m ∈ files → links' m = links m) (hone : links' n = 1) :
    Linked dirs (insert n files) root kids' links' where
  disjoint := disjoint_insert_right.2 ⟨hn, h.disjoint⟩
  root_mem := h.root_mem
  closed k hk m hm := by
    rcases (henter.mem_iff hk).1 hm with ⟨-, rfl⟩ | hm
    · exact .inr (mem_insert_self m files)
    · exact (h.closed k hk m hm).imp_right mem_insert_of_mem
  file m hm := by
    rw [henter.named_eq hp]
    rcases mem_insert.1 hm with rfl | hm
    · simp [h.named_of_new hn hn', hone]
    · have hmn : m ≠ n := fun heq => hn' (heq ▸ hm)
      rw [if_neg hmn, Nat.add_zero, hlinks m (.inr hm)]
      exact h.file m hm
  dir k hk := by
    rw [(henter.dirs_eq hp hn hk).1, hlinks k (.inl hk)]
    exact h.dir k hk
  once k hk := (henter.dirs_eq hp hn hk).2.trans (h.once k hk)

/-- A file gets another name. -/
theorem addName (hn : n ∈ files) (henter : Enters dirs p n kids kids')
    (hlinks : ∀ m, m ∈ dirs ∨ m ∈ files → m ≠ n → links' m = links m)
    (hmore : links' n = links n + 1) : Linked dirs files root kids' links' := by
  have hdir : n ∉ dirs := fun hdir => h.not_file hdir hn
  refine ⟨h.disjoint, h.root_mem, fun k hk m hm => ?_, fun m hm => ?_, fun k hk => ?_, fun k hk => ?_⟩
  · rcases (henter.mem_iff hk).1 hm with ⟨-, rfl⟩ | hm
    · exact .inr hn
    · exact h.closed k hk m hm
  · rw [henter.named_eq hp]
    obtain ⟨hcount, hpos⟩ := h.file m hm
    by_cases hmn : m = n
    · subst hmn
      rw [if_pos rfl, hmore, hcount]
      omega
    · rw [if_neg hmn, hlinks m (.inr hm) hmn]
      exact ⟨hcount, hpos⟩
  · have hkn : k ≠ n := fun heq => hdir (heq ▸ hk)
    rw [(henter.dirs_eq hp hdir hk).1, hlinks k (.inl hk) hkn]
    exact h.dir k hk
  · exact (henter.dirs_eq hp hdir hk).2.trans (h.once k hk)

/-- A directory without entries is made under its name. -/
theorem newDir (hn : n ∉ dirs)
    (hn' : n ∉ files) (henter : Enters dirs p n kids kids') (hnone : kids' n = [])
    (hlinks : ∀ m, m ∈ dirs ∨ m ∈ files → m ≠ p → links' m = links m)
    (hmore : links' p = links p + 1) (htwo : links' n = 2) :
    Linked (insert n dirs) files root kids' links' := by
  have hnamed : ∀ m, named (insert n dirs) kids' m =
      named dirs kids m + if m = n then 1 else 0 := fun m => by
    rw [named_insert hn hnone, henter.named_eq hp]
  -- the entry for `n` becomes one for a directory
  have hsubdirs : ∀ k ∈ dirs, subdirs (insert n dirs) kids' k =
      subdirs dirs kids k + if k = p then 1 else 0 := by
    intro k hk
    have hnot : n ∉ kids k := fun hmem => (h.closed k hk n hmem).elim hn hn'
    have hsame : (kids k).countP (· ∈ insert n dirs) = (kids k).countP (· ∈ dirs) := by
      refine List.countP_congr fun m hm => ?_
      have hmn : m ≠ n := fun heq => hnot (heq ▸ hm)
      simp [hmn]
    unfold subdirs
    by_cases hkp : k = p
    · subst hkp
      rw [henter.here.countP_eq, List.countP_cons, hsame]
      simp
    · rw [henter.other k hk hkp, hsame, if_neg hkp, Nat.add_zero]
  refine ⟨disjoint_insert_left.2 ⟨hn', h.disjoint⟩, mem_insert_of_mem h.root_mem,
    fun k hk m hm => ?_, fun m hm => ?_, fun k hk => ?_, fun k hk => ?_⟩
  · rcases mem_insert.1 hk with rfl | hk
    · simp [hnone] at hm
    · rcases (henter.mem_iff hk).1 hm with ⟨-, rfl⟩ | hm
      · exact .inl (mem_insert_self m dirs)
      · exact (h.closed k hk m hm).imp_left mem_insert_of_mem
  · have hmn : m ≠ n := fun heq => hn' (heq ▸ hm)
    have hmp : m ≠ p := fun heq => h.not_file hp (heq ▸ hm)
    rw [hnamed, if_neg hmn, Nat.add_zero, hlinks m (.inr hm) hmp]
    exact h.file m hm
  · rcases mem_insert.1 hk with rfl | hk
    · rw [htwo]
      simp [subdirs, hnone]
    · rw [hsubdirs k hk]
      by_cases hkp : k = p
      · subst hkp
        rw [if_pos rfl, hmore, h.dir k hk, Nat.add_assoc]
      · rw [if_neg hkp, Nat.add_zero, hlinks k (.inl hk) hkp]
        exact h.dir k hk
  · rw [hnamed]
    rcases mem_insert.1 hk with rfl | hk
    · have hroot : k ≠ root := fun heq => hn (heq ▸ h.root_mem)
      rw [h.named_of_new hn hn', if_pos rfl, if_neg hroot]
    · have hkn : k ≠ n := fun heq => hn (heq ▸ hk)
      rw [if_neg hkn, Nat.add_zero]
      exact h.once k hk

section
variable (hn : n ∈ files) (hleave : Enters dirs p n kids' kids)
  (hlinks : ∀ m, m ∈ dirs ∨ m ∈ files → m ≠ n → links' m = links m)
include hn hleave hlinks

theorem dropName
    (hless : links' n = links n - 1) (hmore : 1 < links n) : Linked dirs files root kids' links' := by
  have hdir : n ∉ dirs := fun hdir => h.not_file hdir hn
  refine ⟨h.disjoint, h.root_mem, fun k hk m hm => ?_, fun m hm => ?_, fun k hk => ?_, fun k hk => ?_⟩
  · exact h.closed k hk m ((hleave.mem_iff hk).2 (.inr hm))
  · obtain ⟨hcount, hpos⟩ := h.file m hm
    have hnamed := hleave.named_eq (m := m) hp
    by_cases hmn : m = n
    · subst hmn
      rw [if_pos rfl] at hnamed
      omega
    · rw [if_neg hmn] at hnamed
      rw [hlinks m (.inr hm) hmn]
      omega
  · have hkn : k ≠ n := fun heq => hdir (heq ▸ hk)
    rw [hlinks k (.inl hk) hkn, h.dir k hk, (hleave.dirs_eq hp hdir hk).1]
  · exact (hleave.dirs_eq hp hdir hk).2.symm.trans (h.once k hk)

/-- A file goes with its last name. -/
theorem dropFile (hlast : links n ≤ 1) : Linked dirs (files.erase n) root kids' links' := by
  have hdir : n ∉ dirs := fun hdir => h.not_file hdir hn
  have hgone : named dirs kids' n = 0 := by
    have hnamed := hleave.named_eq (m := n) hp
    rw [if_pos rfl] at hnamed
    have := (h.file n hn).1
    omega
  refine ⟨h.disjoint.mono_right (erase_subset _ _), h.root_mem, fun k hk m hm => ?_, fun m hm => ?_,
    fun k hk => ?_, fun k hk => ?_⟩
  · refine (h.closed k hk m ((hleave.mem_iff hk).2 (.inr hm))).imp_right fun hfile => ?_
    refine mem_erase.2 ⟨?_, hfile⟩
    rintro rfl
    exact Nat.ne_of_gt (named_pos hk hm) hgone
  · obtain ⟨hmn, hm⟩ := mem_erase.1 hm
    have hnamed := hleave.named_eq (m := m) hp
    rw [if_neg hmn, Nat.add_zero] at hnamed
    rw [hlinks m (.inr hm) hmn, ← hnamed]
    exact h.file m hm
  · have hkn : k ≠ n := fun heq => hdir (heq ▸ hk)
    rw [hlinks k (.inl hk) hkn, h.dir k hk, (hleave.dirs_eq hp hdir hk).1]
  · exact (hleave.dirs_eq hp hdir hk).2.symm.trans (h.once k hk)

end

/-- A directory without entries goes with its name. -/
theorem dropDir (hn : n ∈ dirs) (hleave : Enters dirs p n kids' kids) (hnone : kids n = [])
    (hlinks : ∀ m, m ∈ dirs ∨ m ∈ files → m ≠ p → m ≠ n → links' m = links m)
    (hless : links' p = links p - 1) : Linked (dirs.erase n) files root kids' links' := by
  have hnp : n ≠ p := by
    rintro rfl
    simpa [hnone] using hleave.here.length_eq
  have hnone' : kids' n = [] := (hleave.other n hn hnp).symm.trans hnone
  have hnamed : ∀ m, named dirs kids m =
      named (dirs.erase n) kids' m + if m = n then 1 else 0 := fun m => by
    rw [named_erase hn hnone', hleave.named_eq hp]
  have hroot : n ≠ root := by
    rintro rfl
    have hzero := h.once n hn
    rw [hnamed] at hzero
    simp at hzero
  have hgone : named (dirs.erase n) kids' n = 0 := by
    have hone := h.once n hn
    rw [hnamed, if_pos rfl, if_neg hroot] at hone
    omega
  -- no entry that is left is one for `n`
  have hsubdirs : ∀ k ∈ dirs.erase n, subdirs dirs kids k =
      subdirs (dirs.erase n) kids' k + if k = p then 1 else 0 := by
    intro k hk
    have hnot : n ∉ kids' k := fun hmem => Nat.ne_of_gt (named_pos hk hmem) hgone
    have hsame : (kids' k).countP (· ∈ dirs.erase n) = (kids' k).countP (· ∈ dirs) := by
      refine List.countP_congr fun m hm => ?_
      have hmn : m ≠ n := fun heq => hnot (heq ▸ hm)
      simp [hmn]
    rw [hleave.subdirs_eq (mem_of_mem_erase hk)]
    unfold subdirs
    rw [hsame]
    simp [hn]
  refine ⟨h.disjoint.mono_left (erase_subset _ _), mem_erase.2 ⟨Ne.symm hroot, h.root_mem⟩,
    fun k hk m hm => ?_, fun m hm => ?_, fun k hk => ?_, fun k hk => ?_⟩
  · have hmem := (hleave.mem_iff (mem_of_mem_erase hk)).2 (.inr hm)
    refine (h.closed k (mem_of_mem_erase hk) m hmem).imp_left fun hdir => mem_erase.2 ⟨?_, hdir⟩
    rintro rfl
    exact Nat.ne_of_gt (named_pos hk hm) hgone
  · have hmn : m ≠ n := fun heq => h.not_file hn (heq ▸ hm)
    have hmp : m ≠ p := fun heq => h.not_file hp (heq ▸ hm)
    have heq := hnamed m
    rw [if_neg hmn, Nat.add_zero] at heq
    rw [hlinks m (.inr hm) hmp hmn, ← heq]
    exact h.file m hm
  · obtain ⟨hkn, hdir⟩ := mem_erase.1 hk
    have hsub := hsubdirs k hk
    have hcount := h.dir k hdir
    by_cases hkp : k = p
    · subst hkp
      rw [if_pos rfl] at hsub
      omega
    · rw [if_neg hkp, Nat.add_zero] at hsub
      rw [hlinks k (.inl hdir) hkp hkn, hcount, hsub]
  · obtain ⟨hkn, hdir⟩ := mem_erase.1 hk
    have heq := hnamed k
    rw [if_neg hkn, Nat.add_zero] at heq
    rw [← heq]
    exact h.once k hdir

end

end Linked

end RadKernel.Naming
