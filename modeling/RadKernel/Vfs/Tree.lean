import RadKernel.Lib.Run
import RadKernel.Vfs.Paths

/-!
# The in-memory tree

The in-memory files form a tree through nothing but their paths: a record lies in the
directory whose path is its own up to the last slash. `rad_vfs_rename` writes one path, so it
moves a directory away from what lies in it, and `rad_vfs_rmdir` does not see a child whose
name was cut away.
-/

namespace RadKernel.Vfs

open Kernel

variable {β : Type} {ops : Nat → BackendOps β} {roots : List (List Char)} {s t : VfsState β}
  {c : Credentials} {path p old new : List Char} {flags i j d : Nat}

def InUse (s : VfsState β) (i : Nat) : Prop := i < maxVfsFiles ∧ (s.files i).used = true

instance InUse.decidable (s : VfsState β) (i : Nat) : Decidable (InUse s i) :=
  inferInstanceAs (Decidable (_ ∧ _))

/-- The paths in use are distinct, and a record that is no mount root lies in a directory. -/
structure Tree (roots : List (List Char)) (s : VfsState β) : Prop where
  distinct : ∀ i j, InUse s i → InUse s j → (s.files i).path = (s.files j).path → i = j
  parent : ∀ i, InUse s i → (s.files i).path ∉ roots → ∃ d, InUse s d ∧
    (s.files d).isDirectory = true ∧ (s.files d).path = parentPath (s.files i).path

/-- After the rename the paths from `new` on resolve as those from `old` on did, and nothing
is left there. -/
structure Moves (s : VfsState β) (old new : List Char) (t : VfsState β) : Prop where
  moved : ∀ suffix : List Char, suffix = [] ∨ suffix.head? = some '/' →
    findFileOrDir t (new ++ suffix) = findFileOrDir s (old ++ suffix)
  gone : ∀ path, below old path = true → findFileOrDir t path = none

/-! ## Calls -/

inductive TreeCall where
  | «open» (c : Credentials) (path : List Char) (flags : Nat) (allocated : Bool)
  | mkdir (c : Credentials) (path : List Char)
  | remove (c : Credentials) (path : List Char)
  | rmdir (c : Credentials) (path : List Char)
  | rename (c : Credentials) (oldPath newPath : List Char)

def performTree (ops : Nat → BackendOps β) (s : VfsState β) : TreeCall → Status × VfsState β
  | .open c path flags allocated => radVfsOpen ops s c path flags allocated
  | .mkdir c path => radVfsMkdir ops s c path
  | .remove c path => radVfsRemove ops s c path
  | .rmdir c path => radVfsRmdir ops s c path
  | .rename c oldPath newPath => radVfsRename ops s c oldPath newPath

/-- The states before the first of these calls: some paths were mounted, on the root of an
in-memory tree or of a provider. -/
inductive Mounted : List (List Char) → VfsState β → Prop
  | boot (cwd : List Char) (backend : β) : Mounted [] { cwd := cwd, backend := backend }
  | sd {roots : List (List Char)} {s : VfsState β} (c : Credentials) (hal : Option Status)
      (point : List Char) : Mounted roots s → (radVfsMountSd s c hal point).1 = .ok →
      Mounted (normalizePath s.cwd point :: roots) (radVfsMountSd s c hal point).2
  | provider {roots : List (List Char)} {s : VfsState β} (c : Credentials)
      (point : List Char) : Mounted roots s → (radVfsMountProvider s c point).1 = .ok →
      Mounted (normalizePath s.cwd point :: roots) (radVfsMountProvider s c point).2

/-- The checks of `rad_vfs_open` and `rad_vfs_mkdir` let the record in slot `i` become `p`. -/
def Adds (s : VfsState β) (c : Credentials) (p : List Char) (i : Nat) : Prop :=
  providerForPath s p = none ∧ mountedPath s p = true ∧ findFileOrDir s p = none ∧
    freeFile s = some i ∧ ∃ d, findFileOrDir s (parentPath p) = some d ∧
      (s.files d).isDirectory = true ∧ mayChange c (s.files d) = true

/-- The checks of `rad_vfs_remove` and `rad_vfs_rmdir` let the record in slot `i` go. -/
def Drops (s : VfsState β) (c : Credentials) (p : List Char) (i : Nat) : Prop :=
  providerForPath s p = none ∧ findFileOrDir s p = some i ∧
    ((s.files i).isDirectory = true → hasChildren s p = false) ∧
    ∀ d, findFileOrDir s (parentPath p) = some d → mayChange c (s.files d) = true

/-- The checks of `rad_vfs_rename` let the record in slot `i` have another path. -/
def Renames (s : VfsState β) (c : Credentials) (old new : List Char) (i : Nat) : Prop :=
  providerForPath s old = none ∧ providerForPath s new = none ∧
    findFileOrDir s old = some i ∧ findFileOrDir s new = none ∧
    ∃ d, findFileOrDir s (parentPath new) = some d ∧ (s.files d).isDirectory = true ∧
      mayChange c (s.files d) = true

/-- A directory is dropped only when no name in it was cut away; a path is given to another
place only when nothing else lies below it, the other place is not in itself, and nothing lies
below that place yet. -/
def Careful (roots : List (List Char)) (s : VfsState β) : TreeCall → Prop
  | .open _ _ _ _ | .mkdir _ _ => True
  | .remove c path | .rmdir c path =>
    let p := normalizePath s.cwd path
    ∀ i, Drops s c p i → ∀ j, InUse s j → (s.files j).path = p ++ ['/'] → p ++ ['/'] ∈ roots
  | .rename c oldPath newPath =>
    let old := normalizePath s.cwd oldPath
    let new := normalizePath s.cwd newPath
    ∀ i, Renames s c old new i → parentPath new ≠ old ∧
      ∀ j, InUse s j → (below old (s.files j).path = true → j = i) ∧
        below new (s.files j).path = false

/-! ## What a call does to the table -/

theorem findFileOrDir_some (h : findFileOrDir s p = some i) : InUse s i ∧ (s.files i).path = p := by
  have hmem := List.mem_of_find?_eq_some h
  have hi : (s.files i).used = true ∧ (s.files i).path = p := by
    simpa using List.find?_some h
  exact ⟨⟨List.mem_range.1 hmem, hi.1⟩, hi.2⟩

theorem findFileOrDir_eq_none :
    findFileOrDir s p = none ↔ ∀ i, InUse s i → (s.files i).path ≠ p := by
  simp [findFileOrDir, InUse]

theorem Tree.find (h : Tree roots s) (hi : InUse s i) :
    findFileOrDir s (s.files i).path = some i := by
  cases hfind : findFileOrDir s (s.files i).path with
  | none => exact absurd rfl (findFileOrDir_eq_none.1 hfind i hi)
  | some j =>
    obtain ⟨hj, hpath⟩ := findFileOrDir_some hfind
    rw [h.distinct j i hj hi hpath]

theorem freeFile_some (h : freeFile s = some i) : i < maxVfsFiles ∧ (s.files i).used = false := by
  have hmem := List.mem_of_find?_eq_some h
  exact ⟨List.mem_range.1 hmem, by simpa using List.find?_some h⟩

/-- The effects that a call may have on the table of files. -/
inductive Effect (s : VfsState β) : TreeCall → VfsState β → Prop
  | same {k : TreeCall} {t : VfsState β} : t.files = s.files → Effect s k t
  | emptied {c : Credentials} {path : List Char} {flags : Nat} {allocated : Bool}
      {t : VfsState β} {i : Nat} :
      t.files = Function.update s.files i { s.files i with size := 0 } →
      Effect s (.open c path flags allocated) t
  | created {c : Credentials} {path : List Char} {flags : Nat} {allocated : Bool}
      {t : VfsState β} {i : Nat} :
      flags &&& vfsCreate ≠ 0 → Adds s c (normalizePath s.cwd path) i →
      t.files = Function.update s.files i
        (newFile (s.files i) c (normalizePath s.cwd path) false) →
      Effect s (.open c path flags allocated) t
  | made {c : Credentials} {path : List Char} {t : VfsState β} {i : Nat} :
      Adds s c (normalizePath s.cwd path) i →
      t.files = Function.update s.files i
        (newFile (s.files i) c (normalizePath s.cwd path) true) →
      Effect s (.mkdir c path) t
  | removed {c : Credentials} {path : List Char} {t : VfsState β} {i : Nat} :
      Drops s c (normalizePath s.cwd path) i → t.files = Function.update s.files i {} →
      Effect s (.remove c path) t
  | removedDir {c : Credentials} {path : List Char} {t : VfsState β} {i : Nat} :
      Drops s c (normalizePath s.cwd path) i → t.files = Function.update s.files i {} →
      Effect s (.rmdir c path) t
  | renamed {c : Credentials} {oldPath newPath : List Char} {t : VfsState β} {i : Nat} :
      Renames s c (normalizePath s.cwd oldPath) (normalizePath s.cwd newPath) i →
      t.files = Function.update s.files i
        { s.files i with path := normalizePath s.cwd newPath } →
      Effect s (.rename c oldPath newPath) t

@[simp] theorem callProvider_files (s : VfsState β) (operation : Option (β → Status × β)) :
    (callProvider s operation).2.files = s.files := by
  cases operation <;> rfl

/-- What a successful open does: it found a file that the flags may use, or made one. -/
theorem openRecord_cases (h : openRecord s c p flags = .ok (i, t)) :
    (findFileOrDir s p = some i ∧ t = truncateRecord flags i s) ∨
    (findFileOrDir s p = none ∧ flags &&& vfsCreate ≠ 0 ∧ (∃ d,
      findFileOrDir s (parentPath p) = some d ∧ (s.files d).isDirectory = true ∧
      mayChange c (s.files d) = true) ∧ freeFile s = some i ∧
      t = setFile s i (newFile (s.files i) c p false)) := by
  simp only [openRecord] at h
  cases hfind : findFileOrDir s p with
  | some j =>
    simp only [hfind] at h
    split_ifs at h with hdir hflags
    obtain ⟨rfl, rfl⟩ := Prod.mk.inj (Except.ok.inj h)
    exact .inl ⟨rfl, rfl⟩
  | none =>
    simp only [hfind] at h
    split_ifs at h with hcreate
    cases hd : findFileOrDir s (parentPath p) with
    | none => simp [hd] at h
    | some d =>
      simp only [hd] at h
      split_ifs at h with hdir hmay
      cases hfree : freeFile s with
      | none => simp [hfree] at h
      | some j =>
        simp only [hfree] at h
        obtain ⟨rfl, rfl⟩ := Prod.mk.inj (Except.ok.inj h)
        refine .inr ⟨rfl, hcreate, ⟨d, rfl, by simpa using hdir, by simpa using hmay⟩, rfl, ?_⟩
        -- a new file has size 0, with the flag or without
        simp [truncateRecord, setFile, newFile]

variable {allocated : Bool}

theorem radVfsOpen_opened (hp : providerForPath s (normalizePath s.cwd path) = none)
    (hmount : mountedPath s (normalizePath s.cwd path) = true)
    (h : openRecord s c (normalizePath s.cwd path) flags = .ok (i, t)) :
    radVfsOpen ops s c path flags allocated = (if allocated then .ok else .noMemory, t) := by
  simp [radVfsOpen, hp, hmount, h]

theorem truncateRecord_effect :
    Effect s (.open c path flags allocated) (truncateRecord flags i s) := by
  unfold truncateRecord
  split_ifs
  · exact .emptied rfl
  · exact .same rfl

theorem radVfsOpen_effect (c : Credentials) (path : List Char) (flags : Nat) (allocated : Bool) :
    Effect s (.open c path flags allocated) (radVfsOpen ops s c path flags allocated).2 := by
  cases hp : providerForPath s (normalizePath s.cwd path) with
  | some r =>
    refine .same ?_
    simp only [radVfsOpen, hp, apply_ite Prod.snd, apply_ite VfsState.files, ite_self]
  | none =>
    cases hmount : mountedPath s (normalizePath s.cwd path) with
    | false => exact .same (by simp [radVfsOpen, hp, hmount])
    | true =>
      cases hopen : openRecord s c (normalizePath s.cwd path) flags with
      | error status => exact .same (by simp [radVfsOpen, hp, hmount, hopen])
      | ok r =>
        obtain ⟨i, t⟩ := r
        rw [radVfsOpen_opened hp hmount hopen]
        obtain ⟨-, rfl⟩ | ⟨hfind, hcreate, hd, hfree, rfl⟩ := openRecord_cases hopen
        · exact truncateRecord_effect
        · exact .created hcreate ⟨hp, hmount, hfind, hfree, hd⟩ rfl

theorem radVfsMkdir_effect (c : Credentials) (path : List Char) :
    Effect s (.mkdir c path) (radVfsMkdir ops s c path).2 := by
  simp only [radVfsMkdir]
  cases hp : providerForPath s (normalizePath s.cwd path) with
  | some r => exact .same (by simp)
  | none =>
    cases hd : findFileOrDir s (parentPath (normalizePath s.cwd path)) with
    | none => exact .same (by dsimp only; split <;> rfl)
    | some d =>
      cases hfind : findFileOrDir s (normalizePath s.cwd path) with
      | some i => exact .same (by dsimp only; split_ifs <;> rfl)
      | none =>
        cases hfree : freeFile s with
        | none =>
          refine .same ?_
          simp only [ensureDirectory, hfind, hfree]
          split_ifs <;> rfl
        | some i =>
          simp only [ensureDirectory, hfind, hfree, if_true]
          split_ifs with hmount hdir hmay
          · exact .same rfl
          · exact .same rfl
          · exact .same rfl
          · refine .made ⟨hp, by simpa using hmount, hfind, hfree, d, hd, ?_, ?_⟩ rfl
            · simpa using hdir
            · simpa using hmay

/-- The record goes, or the parent may not be changed and nothing happens. -/
theorem dropRecord_cases (s : VfsState β) (c : Credentials) (p : List Char) (i : Nat) :
    (dropRecord s c p i).2 = s ∨
      ((∀ d, findFileOrDir s (parentPath p) = some d → mayChange c (s.files d) = true) ∧
        (dropRecord s c p i).2 = setFile s i {}) := by
  unfold dropRecord
  cases findFileOrDir s (parentPath p) with
  | none => exact .inr ⟨by simp, rfl⟩
  | some d => cases hmay : mayChange c (s.files d) <;> simp [hmay]

theorem radVfsRemove_effect (c : Credentials) (path : List Char) :
    Effect s (.remove c path) (radVfsRemove ops s c path).2 := by
  simp only [radVfsRemove]
  cases hp : providerForPath s (normalizePath s.cwd path) with
  | some r => exact .same (by simp)
  | none =>
    cases hfind : findFileOrDir s (normalizePath s.cwd path) with
    | none => exact .same rfl
    | some i =>
      dsimp only
      split_ifs with hchild
      · exact .same rfl
      · obtain hs | ⟨hmay, ht⟩ := dropRecord_cases s c (normalizePath s.cwd path) i
        · exact .same (by rw [hs])
        · refine .removed ⟨hp, hfind, ?_, hmay⟩ (by rw [ht]; rfl)
          simpa using hchild

theorem radVfsRmdir_effect (c : Credentials) (path : List Char) :
    Effect s (.rmdir c path) (radVfsRmdir ops s c path).2 := by
  simp only [radVfsRmdir]
  cases hp : providerForPath s (normalizePath s.cwd path) with
  | some r => exact .same (by simp)
  | none =>
    cases hfind : findFileOrDir s (normalizePath s.cwd path) with
    | none => exact .same rfl
    | some i =>
      dsimp only
      split_ifs with hdir hchild
      · exact .same rfl
      · exact .same rfl
      · obtain hs | ⟨hmay, ht⟩ := dropRecord_cases s c (normalizePath s.cwd path) i
        · exact .same (by rw [hs])
        · refine .removedDir ⟨hp, hfind, fun _ => ?_, hmay⟩ (by rw [ht]; rfl)
          simpa using hchild

/-- A rename of an in-memory path that succeeds has passed the checks and writes the path. -/
theorem radVfsRename_cases (ops : Nat → BackendOps β) (s : VfsState β) (c : Credentials)
    (oldPath newPath : List Char) :
    (∃ i, Renames s c (normalizePath s.cwd oldPath) (normalizePath s.cwd newPath) i ∧
      (radVfsRename ops s c oldPath newPath).2 =
        setFile s i { s.files i with path := normalizePath s.cwd newPath }) ∨
    ((radVfsRename ops s c oldPath newPath).2.files = s.files ∧
      (providerForPath s (normalizePath s.cwd oldPath) = none →
        (radVfsRename ops s c oldPath newPath).1 ≠ .ok)) := by
  have hcopy := (shape_normalizePath s.cwd newPath).copyString
  simp only [radVfsRename, hcopy]
  generalize normalizePath s.cwd oldPath = old
  generalize normalizePath s.cwd newPath = new
  cases hold : providerForPath s old with
  | some r =>
    refine .inr ⟨?_, by simp⟩
    cases providerForPath s new with
    | none => rfl
    | some r' =>
      dsimp only
      split_ifs
      · rfl
      · simp
  | none =>
    cases hnew : providerForPath s new with
    | some r => exact .inr ⟨rfl, by simp⟩
    | none =>
      cases hi : findFileOrDir s old with
      | none => exact .inr ⟨rfl, by simp⟩
      | some i =>
        cases hfind : findFileOrDir s new with
        | some j => exact .inr ⟨by simp, by simp⟩
        | none =>
          cases hd : findFileOrDir s (parentPath new) with
          | none => exact .inr ⟨by simp, by simp⟩
          | some d =>
            cases hdir : (s.files d).isDirectory with
            | false => exact .inr ⟨by simp [hdir], by simp [hdir]⟩
            | true =>
              cases hmay : mayChange c (s.files d) with
              | false => exact .inr ⟨by simp [hdir, hmay], by simp [hdir, hmay]⟩
              | true =>
                refine .inl ⟨i, ⟨hold, hnew, hi, hfind, d, hd, hdir, hmay⟩, ?_⟩
                simp [hdir, hmay]

theorem performTree_effect (ops : Nat → BackendOps β) (s : VfsState β) (k : TreeCall) :
    Effect s k (performTree ops s k).2 := by
  cases k with
  | «open» c path flags allocated => exact radVfsOpen_effect c path flags allocated
  | mkdir c path => exact radVfsMkdir_effect c path
  | remove c path => exact radVfsRemove_effect c path
  | rmdir c path => exact radVfsRmdir_effect c path
  | rename c oldPath newPath =>
    obtain ⟨i, hi, ht⟩ | ⟨hs, -⟩ := radVfsRename_cases ops s c oldPath newPath
    · exact .renamed hi (congrArg VfsState.files ht)
    · exact .same hs

/-! ## The invariant -/

/-- The tree, with the form of the paths in use. -/
structure Rooted (roots : List (List Char)) (s : VfsState β) : Prop extends Tree roots s where
  shape : ∀ i, InUse s i → Shape (s.files i).path

variable {r : VfsFileRecord}

section
variable (ht : t.files = Function.update s.files i r) (h : j ≠ i)
include ht h

theorem inUse_update_of_ne : InUse t j ↔ InUse s j := by
  rw [InUse, InUse, ht, Function.update_of_ne h]

theorem files_update_of_ne : t.files j = s.files j := by
  rw [ht, Function.update_of_ne h]

end

section
variable (h : Rooted roots s)
include h

/-- What slot `i` must hold for the table to stay a tree when only that slot changes. -/
theorem Rooted.update (ht : t.files = Function.update s.files i r)
    (hnew : r.used = true → Shape r.path ∧ (∀ j, InUse s j → j ≠ i → (s.files j).path ≠ r.path) ∧
      (r.path ∉ roots → ∃ d, d ≠ i ∧ InUse s d ∧ (s.files d).isDirectory = true ∧
        (s.files d).path = parentPath r.path))
    (hothers : InUse s i → ∀ j, InUse s j → j ≠ i → (s.files j).path ∉ roots →
      parentPath (s.files j).path ≠ (s.files i).path) : Rooted roots t := by
  have hi : InUse t i → r.used = true := by
    rintro ⟨-, hused⟩
    simpa [ht] using hused
  have hself : t.files i = r := by rw [ht, Function.update_self]
  refine ⟨⟨fun j k hj hk hpath => ?_, fun j hj hroot => ?_⟩, fun j hj => ?_⟩
  · by_cases hji : j = i <;> by_cases hki : k = i
    · rw [hji, hki]
    · subst hji
      rw [hself, files_update_of_ne ht hki] at hpath
      exact absurd hpath.symm ((hnew (hi hj)).2.1 k ((inUse_update_of_ne ht hki).1 hk) hki)
    · subst hki
      rw [hself, files_update_of_ne ht hji] at hpath
      exact absurd hpath ((hnew (hi hk)).2.1 j ((inUse_update_of_ne ht hji).1 hj) hji)
    · rw [files_update_of_ne ht hji, files_update_of_ne ht hki] at hpath
      exact h.distinct j k ((inUse_update_of_ne ht hji).1 hj) ((inUse_update_of_ne ht hki).1 hk)
        hpath
  · by_cases hji : j = i
    · subst hji
      rw [hself] at hroot
      obtain ⟨d, hdj, hd, hdir, hpath⟩ := (hnew (hi hj)).2.2 hroot
      refine ⟨d, (inUse_update_of_ne ht hdj).2 hd, ?_, ?_⟩
      · rwa [files_update_of_ne ht hdj]
      · rw [files_update_of_ne ht hdj, hself, hpath]
    · have hj' := (inUse_update_of_ne ht hji).1 hj
      rw [files_update_of_ne ht hji] at hroot ⊢
      obtain ⟨d, hd, hdir, hpath⟩ := h.parent j hj' hroot
      have hdi : d ≠ i := by
        rintro rfl
        exact hothers hd j hj' hji hroot hpath.symm
      refine ⟨d, (inUse_update_of_ne ht hdi).2 hd, ?_, ?_⟩
      · rwa [files_update_of_ne ht hdi]
      · rw [files_update_of_ne ht hdi, hpath]
  · by_cases hji : j = i
    · subst hji
      rw [hself]
      exact (hnew (hi hj)).1
    · rw [files_update_of_ne ht hji]
      exact h.shape j ((inUse_update_of_ne ht hji).1 hj)

theorem Rooted.same (ht : ∀ i, (t.files i).used = (s.files i).used ∧
    (t.files i).path = (s.files i).path ∧ (t.files i).isDirectory = (s.files i).isDirectory) :
    Rooted roots t := by
  have huse : ∀ i, InUse t i ↔ InUse s i := fun i => by rw [InUse, InUse, (ht i).1]
  refine ⟨⟨fun i j hi hj hpath => ?_, fun i hi hroot => ?_⟩, fun i hi => ?_⟩
  · rw [(ht i).2.1, (ht j).2.1] at hpath
    exact h.distinct i j ((huse i).1 hi) ((huse j).1 hj) hpath
  · rw [(ht i).2.1] at hroot ⊢
    obtain ⟨d, hd, hdir, hpath⟩ := h.parent i ((huse i).1 hi) hroot
    exact ⟨d, (huse d).2 hd, by rw [(ht d).2.2, hdir], by rw [(ht d).2.1, hpath]⟩
  · rw [(ht i).2.1]
    exact h.shape i ((huse i).1 hi)

theorem Rooted.add (hi : Adds s c p i) (hp : Shape p) (directory : Bool)
    (ht : t.files = Function.update s.files i (newFile (s.files i) c p directory)) :
    Rooted roots t := by
  obtain ⟨-, -, hfind, hfree, d, hd, hdir, -⟩ := hi
  have hunused := (freeFile_some hfree).2
  obtain ⟨hdUse, hdPath⟩ := findFileOrDir_some hd
  have hpath : (newFile (s.files i) c p directory).path = p := hp.copyString
  refine h.update ht (fun _ => ⟨by rwa [hpath], fun j hj _ => ?_, fun _ => ?_⟩) ?_
  · rw [hpath]
    exact findFileOrDir_eq_none.1 hfind j hj
  · refine ⟨d, ?_, hdUse, hdir, by rw [hpath, hdPath]⟩
    rintro rfl
    simp [hdUse.2] at hunused
  · intro hi
    simp [hi.2] at hunused

/-- A record goes that nothing lies in: its children by name were checked, and no name was cut
away. -/
theorem Rooted.drop (hi : Drops s c p i)
    (hcut : ∀ j, InUse s j → (s.files j).path = p ++ ['/'] → p ++ ['/'] ∈ roots)
    (ht : t.files = Function.update s.files i {}) : Rooted roots t := by
  obtain ⟨-, hfind, hchild, -⟩ := hi
  obtain ⟨hi, rfl⟩ := findFileOrDir_some hfind
  refine h.update ht (by simp) fun _ j hj hji hroot hparent => ?_
  -- the parent of `j` is a directory, and paths are distinct, so it is this record
  have hdir : (s.files i).isDirectory = true := by
    obtain ⟨d, hd, hdir, hpath⟩ := h.parent j hj hroot
    rw [hparent] at hpath
    rwa [h.distinct d i hd hi hpath] at hdir
  have hname : isChildName (s.files i).path (s.files j).path = true := by
    rw [← hparent]
    refine (h.shape j hj).isChildName ?_ ?_
    · rw [hparent]
      exact fun hpath => hji (h.distinct j i hj hi hpath)
    · rw [hparent]
      intro hpath
      exact hroot (hpath ▸ hcut j hj hpath)
  have hnone := hchild hdir
  simp only [hasChildren, List.any_eq_false, List.mem_range, Bool.and_eq_true] at hnone
  exact hnone j hj.1 ⟨hj.2, hname⟩

section
variable (hnew : Shape new) (hi : Renames s c old new i) (hself : parentPath new ≠ old)
include hnew hi hself

theorem Rooted.rename (hbelow : ∀ j, InUse s j → below old (s.files j).path = true → j = i)
    (ht : t.files = Function.update s.files i { s.files i with path := new }) :
    Rooted roots t := by
  obtain ⟨-, -, hfind, hfresh, d, hd, hdir, -⟩ := hi
  obtain ⟨hi, rfl⟩ := findFileOrDir_some hfind
  obtain ⟨hdUse, hdPath⟩ := findFileOrDir_some hd
  refine h.update ht (fun _ => ⟨hnew, fun j hj _ => ?_, fun _ => ⟨d, ?_, hdUse, hdir, hdPath⟩⟩) ?_
  · exact findFileOrDir_eq_none.1 hfresh j hj
  · rintro rfl
    exact hself hdPath.symm
  · intro _ j hj hji _ hparent
    refine hji (hbelow j hj ?_)
    rw [← hparent]
    exact (h.shape j hj).below_parentPath

theorem Rooted.moves (hbelow : ∀ j, InUse s j → (below old (s.files j).path = true → j = i) ∧
      below new (s.files j).path = false)
    (ht : t.files = Function.update s.files i { s.files i with path := new }) :
    Moves s old new t := by
  have hrooted := h.rename hnew hi hself (fun j hj => (hbelow j hj).1) ht
  obtain ⟨-, -, hfind, hfresh, d, hd, hdir, -⟩ := hi
  obtain ⟨hi, rfl⟩ := findFileOrDir_some hfind
  have hselfUse : InUse t i ∧ (t.files i).path = new := by
    simp [InUse, ht, hi.1, hi.2]
  have hne : new ≠ (s.files i).path := fun hpath =>
    findFileOrDir_eq_none.1 hfresh i hi hpath.symm
  -- a place below the old one would have its directory there, other than the old path itself
  have houtside : below (s.files i).path new = false := by
    by_contra hin
    obtain ⟨hdUse, hdPath⟩ := findFileOrDir_some hd
    have hnil : (s.files i).path ≠ [] := by
      intro hnil
      simpa [hnil] using (h.shape i hi).absolute
    have hdBelow := below_parentPath_of_below hnew (by simpa using hin) hne hnil
    rw [← hdPath] at hdBelow
    obtain rfl := (hbelow d hdUse).1 hdBelow
    exact hself hdPath.symm
  have hlater : ∀ path, path ≠ new →
      (∀ j, InUse s j → j ≠ i → (s.files j).path ≠ path) → findFileOrDir t path = none := by
    intro path hpath hothers
    rw [findFileOrDir_eq_none]
    intro j hj
    by_cases hji : j = i
    · rw [hji, hselfUse.2]
      exact hpath.symm
    · rw [files_update_of_ne ht hji]
      exact hothers j ((inUse_update_of_ne ht hji).1 hj) hji
  have below_suffix : ∀ q suffix : List Char, suffix.head? = some '/' →
      below q (q ++ suffix) = true := by
    intro q suffix hsuffix
    simp [below, hsuffix]
  refine ⟨fun suffix hsuffix => ?_, fun path hpath => ?_⟩
  · by_cases hnil : suffix = []
    · subst hnil
      rw [List.append_nil, List.append_nil, hfind]
      have hfound := hrooted.toTree.find hselfUse.1
      rwa [hselfUse.2] at hfound
    · have hslash := hsuffix.resolve_left hnil
      have hbefore : findFileOrDir s ((s.files i).path ++ suffix) = none := by
        rw [findFileOrDir_eq_none]
        intro j hj hpath
        obtain rfl := (hbelow j hj).1 (hpath ▸ below_suffix _ suffix hslash)
        exact hnil (by simpa using hpath)
      rw [hbefore]
      refine hlater _ (by simpa using hnil) fun j hj _ hpath => ?_
      have hfalse := (hbelow j hj).2
      rw [hpath, below_suffix _ suffix hslash] at hfalse
      simp at hfalse
  · refine hlater path ?_ fun j hj hji hjPath => ?_
    · rintro rfl
      rw [houtside] at hpath
      simp at hpath
    · exact hji ((hbelow j hj).1 (hjPath ▸ hpath))

end

end

/-! ## Runs -/

/-- Before the first call the records in use are the mount roots. -/
structure OnlyRoots (roots : List (List Char)) (s : VfsState β) : Prop extends
    Rooted roots s where
  root : ∀ i, InUse s i → (s.files i).path ∈ roots

section
variable (h : OnlyRoots roots s)
include h

theorem OnlyRoots.of_files (hfiles : t.files = s.files) : OnlyRoots roots t := by
  refine ⟨h.toRooted.same fun i => by simp [hfiles], fun i hi => ?_⟩
  rw [InUse, hfiles] at hi
  rw [hfiles]
  exact h.root i hi

/-- Another path may become a root before it has a record. -/
theorem OnlyRoots.cons (p : List Char) : OnlyRoots (p :: roots) s := by
  refine ⟨⟨⟨h.distinct, fun i hi hroot => ?_⟩, h.shape⟩, fun i hi => ?_⟩
  · exact absurd (List.mem_cons_of_mem p (h.root i hi)) hroot
  · exact List.mem_cons_of_mem p (h.root i hi)

theorem OnlyRoots.ensureDirectory (hp : Shape p) (hmem : p ∈ roots) :
    OnlyRoots roots (ensureDirectory s c p).2 := by
  unfold Vfs.ensureDirectory
  cases hfind : findFileOrDir s p with
  | some i => exact h
  | none =>
    cases hfree : freeFile s with
    | none => exact h
    | some i =>
      have hpath : (newFile (s.files i) c p true).path = p := hp.copyString
      refine ⟨h.toRooted.update rfl (fun _ => ⟨?_, fun j hj _ => ?_, ?_⟩) ?_, fun j hj => ?_⟩
      · rwa [hpath]
      · rw [hpath]
        exact findFileOrDir_eq_none.1 hfind j hj
      · rw [hpath]
        exact fun hroot => absurd hmem hroot
      · intro hi
        simp [InUse, (freeFile_some hfree).2] at hi
      · by_cases hji : j = i
        · simpa [setFile, hji, hpath] using hmem
        · rw [files_update_of_ne rfl hji]
          exact h.root j ((inUse_update_of_ne rfl hji).1 hj)

theorem OnlyRoots.mount (hp : Shape p) (ht : t.files = s.files) :
    OnlyRoots (p :: roots) (Vfs.ensureDirectory t c p).2 := by
  have hstart := (h.cons p).of_files ht
  exact hstart.ensureDirectory hp List.mem_cons_self

end

theorem Mounted.onlyRoots (h : Mounted roots s) : OnlyRoots roots s := by
  induction h with
  | boot cwd backend =>
    exact ⟨⟨⟨by simp [InUse], by simp [InUse]⟩, by simp [InUse]⟩, by simp [InUse]⟩
  | @sd roots s c hal point hs hok ih =>
    simp only [radVfsMountSd]
    split_ifs
    · exact ih.cons _
    · cases freeMount s with
      | none => exact ih.cons _
      | some m => exact ih.mount (shape_normalizePath _ _) rfl
  | @provider roots s c point hs hok ih =>
    simp only [radVfsMountProvider]
    split_ifs
    · exact ih.cons _
    · cases (List.range maxVfsProviders).find? fun i => !(s.providers i).used with
      | none => exact ih.cons _
      | some i =>
        have hdir : OnlyRoots (normalizePath s.cwd point :: roots) (Vfs.ensureDirectory
            { s with
              providers := Function.update s.providers i
                { mountPoint := copyString 32 (normalizePath s.cwd point), used := true } } c
            (normalizePath s.cwd point)).2 := ih.mount (shape_normalizePath _ _) rfl
        dsimp only
        split_ifs
        · exact hdir
        · split
          · exact hdir
          · exact hdir.of_files rfl

theorem Rooted.step {k : TreeCall} (h : Rooted roots s) (hk : Careful roots s k)
    (he : Effect s k t) : Rooted roots t := by
  cases he with
  | same ht => exact h.same fun j => by simp [ht]
  | @emptied _ _ _ _ _ i ht =>
    refine h.same fun j => ?_
    by_cases hj : j = i <;> simp [ht, hj]
  | created hcreate hi ht => exact h.add hi (shape_normalizePath _ _) false ht
  | made hi ht => exact h.add hi (shape_normalizePath _ _) true ht
  | removed hi ht => exact h.drop hi (hk _ hi) ht
  | removedDir hi ht => exact h.drop hi (hk _ hi) ht
  | renamed hi ht =>
    obtain ⟨hself, hbelow⟩ := hk _ hi
    exact h.rename (shape_normalizePath _ _) hi hself (fun j hj => (hbelow j hj).1) ht

/-- While no call moves a directory away from its contents or drops it from above them, the
table is a tree, and a rename that succeeds moves what is there. -/
theorem tree_of_run (ops : Nat → BackendOps β) (roots : List (List Char)) (s : VfsState β)
    (h : Run (Obeys (fun s k => (performTree ops s k).2) (Careful roots)) (Mounted roots) s) :
    Tree roots s ∧ ∀ (c : Credentials) (oldPath newPath : List Char),
      Careful roots s (.rename c oldPath newPath) →
      providerForPath s (normalizePath s.cwd oldPath) = none →
      (radVfsRename ops s c oldPath newPath).1 = .ok →
      Moves s (normalizePath s.cwd oldPath) (normalizePath s.cwd newPath)
        (radVfsRename ops s c oldPath newPath).2 := by
  have hrooted : Rooted roots s := by
    refine h.invariant (fun s hs => hs.onlyRoots.toRooted) fun s k t hs hn => ?_
    obtain ⟨hk, rfl⟩ := hn
    exact hs.step hk (performTree_effect ops s k)
  refine ⟨hrooted.toTree, fun c oldPath newPath hcareful hp hok => ?_⟩
  obtain ⟨i, hi, ht⟩ | ⟨-, hfailed⟩ := radVfsRename_cases ops s c oldPath newPath
  · obtain ⟨hself, hbelow⟩ := hcareful i hi
    exact hrooted.moves (shape_normalizePath _ _) hi hself hbelow (congrArg VfsState.files ht)
  · exact absurd hok (hfailed hp)

/-- A table with the in-memory root and nothing else. -/
def freshTree : VfsState Unit :=
  (radVfsMountSd { cwd := ['/'], backend := () } {} none ['/']).2

theorem mounted_freshTree : Mounted [['/']] freshTree :=
  .sd {} none ['/'] (.boot ['/'] ()) (by decide)

/-- A provider without operations. -/
def absent : BackendOps Unit where
  stat := none
  «open» b _ _ := (.notFound, b)
  close b := b
  mkdir := none
  remove := none
  rmdir := none
  rename := none
  truncate := none
  chmod := none

def treeStep (s : VfsState Unit) (k : TreeCall) : VfsState Unit :=
  (performTree (fun _ => absent) s k).2

/-- An empty directory may be renamed. -/
theorem tree_renamedEmpty :
    Tree [['/']] ([.mkdir {} "/d".toList, .rename {} "/d".toList "/e".toList].foldl treeStep
      freshTree) := by
  refine (tree_of_run (fun _ => absent) _ _ (Run.along _ (.start mounted_freshTree) ?_)).1
  refine ⟨trivial, fun i hi => ⟨by decide +kernel, fun j hj => ?_⟩, trivial⟩
  obtain ⟨-, -, hfind, -⟩ := hi
  obtain rfl : 1 = i := Option.some.inj (hfind.symm.trans (by decide +kernel)).symm
  have hall : ∀ j < maxVfsFiles,
      let s := treeStep freshTree (.mkdir {} "/d".toList)
      (s.files j).used = true → (below "/d".toList (s.files j).path = true → j = 1) ∧
        below "/e".toList (s.files j).path = false := by decide +kernel
  exact hall j hj.1 hj.2

/-- A directory with a file in it is renamed: the file stays behind, below nothing. -/
theorem not_tree_renamedFull : ¬ ∀ (ops : Nat → BackendOps Unit) (roots : List (List Char))
    (s : VfsState Unit),
    Run (Obeys (fun s k => (performTree ops s k).2) fun _ _ => True) (Mounted roots) s →
    Tree roots s ∧ ∀ (c : Credentials) (oldPath newPath : List Char),
      providerForPath s (normalizePath s.cwd oldPath) = none →
      (radVfsRename ops s c oldPath newPath).1 = .ok →
      Moves s (normalizePath s.cwd oldPath) (normalizePath s.cwd newPath)
        (radVfsRename ops s c oldPath newPath).2 := by
  intro h
  have htree := (h (fun _ => absent) [['/']]
    ([.mkdir {} "/d".toList, .open {} "/d/f".toList (vfsWrite ||| vfsCreate) true,
      .rename {} "/d".toList "/e".toList].foldl treeStep freshTree)
    (Run.along _ (.start mounted_freshTree) (by simp [Along]))).1
  obtain ⟨d, hd, -, hpath⟩ := htree.parent 2 (by decide +kernel) (by decide +kernel)
  refine findFileOrDir_eq_none.1 ?_ d hd hpath
  decide +kernel

/-- A directory of 94 characters goes although one lies in it, with its name cut away. -/
example :
    let d := '/' :: List.replicate 93 'a'
    let s := [TreeCall.mkdir {} d, .mkdir {} (d ++ "/b".toList), .rmdir {} d].foldl treeStep
      freshTree
    InUse s 2 ∧ (s.files 2).path = d ++ ['/'] ∧ findFileOrDir s d = none := by decide +kernel

end RadKernel.Vfs
