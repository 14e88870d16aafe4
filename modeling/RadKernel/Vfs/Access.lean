import RadKernel.Vfs.Model

/-!
# Access control of the virtual file system

Where the calls look at permissions and where they do not: the in-memory half of every call
checks the mode bits, the provider half of `rad_vfs_open` does so unless the file may be
created, and the provider half of the calls that change the tree leaves it to the provider.
-/

namespace RadKernel.Vfs

open Kernel

variable {β γ : Type} {ops : Nat → BackendOps β} {s : VfsState β} {c : Credentials}

/-! ## Opening -/

/-- Mode and owner of an existing file. -/
def fileStat (ops : Nat → BackendOps β) (s : VfsState β) (path : List Char) : Option VfsStat :=
  let normalized := normalizePath s.cwd path
  match providerForPath s normalized with
  | some (p, relative) =>
    (ops p).stat.bind fun stat =>
      if (stat s.backend relative).1 = .ok then some (stat s.backend relative).2 else none
  | none => (findFileOrDir s normalized).map fun i => fillStat (s.files i)

def accessFlags : Nat := vfsRead ||| vfsWrite ||| vfsTruncate ||| vfsAppend

/-- The caller's class has read if the flags read, and write if they write. -/
def ClassAllows (c : Credentials) (flags : Nat) (m : VfsStat) : Prop :=
  (flags &&& vfsRead ≠ 0 → classBits c m &&& 4 = 4) ∧
    (flags &&& (vfsWrite ||| vfsTruncate ||| vfsAppend) ≠ 0 → classBits c m &&& 2 = 2)

/-- If opening an existing file succeeds, the caller's class allows what the flags ask for. -/
def Enforced (ops : Nat → BackendOps β) (s : VfsState β) (c : Credentials) (path : List Char)
    (flags : Nat) (allocated : Bool) : Prop :=
  ∀ m, fileStat ops s path = some m →
    (radVfsOpen ops s c path flags allocated).1 = .ok → ClassAllows c flags m

variable {flags : Nat} {path : List Char} {allocated : Bool}

theorem classAllows_of_flagsAllowed {m : VfsStat} (hc : c.euid ≠ 0)
    (h : flagsAllowed c flags m = true) : ClassAllows c flags m := by
  simp only [flagsAllowed, canReadStat, canWriteStat, modeAllows, hc, decide_false, Bool.false_or,
    Bool.and_eq_true, Bool.or_eq_true, decide_eq_true_eq] at h
  exact ⟨fun hr => h.1.resolve_left hr, fun hw => h.2.resolve_left hw⟩

theorem enforced_inMemory (hc : c.euid ≠ 0)
    (hp : providerForPath s (normalizePath s.cwd path) = none) :
    Enforced ops s c path flags allocated := by
  intro m hm hok
  simp only [fileStat, hp] at hm
  cases hfind : findFileOrDir s (normalizePath s.cwd path) with
  | none => simp [hfind] at hm
  | some i =>
    obtain rfl : fillStat (s.files i) = m := by simpa [hfind] using hm
    by_contra hdenied
    have hno : flagsAllowed c flags (fillStat (s.files i)) = false := by
      by_contra h
      exact hdenied (classAllows_of_flagsAllowed hc (by simpa using h))
    cases hmount : mountedPath s (normalizePath s.cwd path) <;>
      cases hdir : (s.files i).isDirectory <;>
      simp [radVfsOpen, openRecord, hp, hfind, hno, hmount, hdir] at hok

/-- A provider's file is checked when it may not be created. -/
theorem enforced_existing (hc : c.euid ≠ 0)
    (hcreate : flags &&& vfsCreate = 0) : Enforced ops s c path flags allocated := by
  intro m hm hok
  cases hp : providerForPath s (normalizePath s.cwd path) with
  | none => exact enforced_inMemory hc hp m hm hok
  | some r =>
    obtain ⟨p, relative⟩ := r
    simp only [fileStat, hp] at hm
    cases hstat : (ops p).stat with
    | none => simp [hstat] at hm
    | some stat =>
      simp only [hstat, Option.bind_some] at hm
      split at hm
      · rename_i hstatus
        obtain rfl := Option.some.inj hm
        by_contra hdenied
        have hno : flagsAllowed c flags (stat s.backend relative).2 = false := by
          by_contra h
          exact hdenied (classAllows_of_flagsAllowed hc (by simpa using h))
        simp [radVfsOpen, hp, hcreate, hstat, hstatus, hno] at hok
      · simp at hm

/-- A provider whose files nobody but root may touch and that opens them all the same. -/
def lenient (β : Type) : BackendOps β where
  stat := some fun _ _ => (.ok, { mode := 0o100000 })
  «open» b _ _ := (.ok, b)
  close b := b
  mkdir := some fun b _ => (.ok, b)
  remove := some fun b _ => (.ok, b)
  rmdir := some fun b _ => (.ok, b)
  rename := some fun b _ _ => (.ok, b)
  truncate := some fun b _ _ => (.ok, b)
  chmod := some fun b _ _ => (.ok, b)

/-- Permissions are enforced, for every provider, caller and file, exactly on the paths that no
provider has, without `RAD_VFS_CREATE`, or when the flags ask for nothing. -/
theorem open_enforced_iff (s : VfsState β) (path : List Char) (flags : Nat) :
    (∀ (ops : Nat → BackendOps β) (c : Credentials) (allocated : Bool), c.euid ≠ 0 →
      Enforced ops s c path flags allocated) ↔
    (providerForPath s (normalizePath s.cwd path) = none ∨ flags &&& vfsCreate = 0 ∨
      flags &&& accessFlags = 0) := by
  constructor
  · intro h
    by_contra hcond
    rw [not_or, not_or] at hcond
    obtain ⟨hprov, hcreate, haccess⟩ := hcond
    obtain ⟨⟨p, relative⟩, hp⟩ := Option.ne_none_iff_exists'.1 hprov
    have hclass := h (fun _ => lenient β) ⟨1, 1, 1, 1⟩ true (by decide) { mode := 0o100000 }
      (by simp [fileStat, hp, lenient]) (by simp [radVfsOpen, hp, hcreate, lenient])
    have hbits : classBits ⟨1, 1, 1, 1⟩ { mode := 0o100000 } = 0 := by decide
    simp only [ClassAllows, hbits, Nat.zero_and] at hclass
    refine haccess ?_
    have hread : flags &&& vfsRead = 0 := by
      by_contra hr
      exact absurd (hclass.1 hr) (by decide)
    have hwrite : flags &&& (vfsWrite ||| vfsTruncate ||| vfsAppend) = 0 := by
      by_contra hw
      exact absurd (hclass.2 hw) (by decide)
    rw [accessFlags, show vfsRead ||| vfsWrite ||| vfsTruncate ||| vfsAppend =
      vfsRead ||| (vfsWrite ||| vfsTruncate ||| vfsAppend) by decide, Nat.and_or_distrib_left,
      hread, hwrite]
    rfl
  · rintro (hp | hcreate | haccess) ops c allocated hc
    · exact enforced_inMemory hc hp
    · exact enforced_existing hc hcreate
    · intro m _ _
      rw [accessFlags, show vfsRead ||| vfsWrite ||| vfsTruncate ||| vfsAppend =
        vfsRead ||| (vfsWrite ||| vfsTruncate ||| vfsAppend) by decide, Nat.and_or_distrib_left,
        Nat.or_eq_zero_iff] at haccess
      exact ⟨fun hr => absurd haccess.1 hr, fun hw => absurd haccess.2 hw⟩

def rootMount : VfsState Unit where
  providers := fun i => if i = 0 then { mountPoint := ['/'], used := true } else {}
  backend := ()

/-- A caller without any right to a file opens it for reading with `RAD_VFS_CREATE`. -/
theorem not_enforced_create : ¬ ∀ (ops : Nat → BackendOps Unit) (s : VfsState Unit)
    (c : Credentials) (path : List Char) (flags : Nat) (allocated : Bool), c.euid ≠ 0 →
    Enforced ops s c path flags allocated := by
  intro h
  have hclass := h (fun _ => lenient Unit) rootMount ⟨1000, 1000, 1000, 1000⟩ "/secret".toList
    (vfsRead ||| vfsCreate) true (by decide) { mode := 0o100000 } (by decide +kernel)
    (by decide +kernel)
  exact absurd (hclass.1 (by decide)) (by decide)

/-! ## Changing the tree -/

inductive Mutation where
  | mkdir (path : List Char)
  | remove (path : List Char)
  | rmdir (path : List Char)
  | rename (oldPath newPath : List Char)
  | truncate (path : List Char) (size : Nat)
  | chmod (path : List Char) (mode : Nat)

/-- The paths a call names. -/
def Mutation.paths : Mutation → List (List Char)
  | .mkdir path => [path]
  | .remove path => [path]
  | .rmdir path => [path]
  | .rename oldPath newPath => [oldPath, newPath]
  | .truncate path _ => [path]
  | .chmod path _ => [path]

def root : Credentials := {}

def answer (operation : Option (β → Status × β)) (b : β) : Status :=
  match operation with
  | none => .notSupported
  | some f => (f b).1

/-- The provider has no such operation, turns the call down, or is not the only one a rename is
about. -/
def Refused (ops : Nat → BackendOps β) (s : VfsState β) : Mutation → Prop
  | .mkdir path => ∀ p r, providerForPath s (normalizePath s.cwd path) = some (p, r) →
      answer ((ops p).mkdir.map fun f b => f b r) s.backend ≠ .ok
  | .remove path => ∀ p r, providerForPath s (normalizePath s.cwd path) = some (p, r) →
      answer ((ops p).remove.map fun f b => f b r) s.backend ≠ .ok
  | .rmdir path => ∀ p r, providerForPath s (normalizePath s.cwd path) = some (p, r) →
      answer ((ops p).rmdir.map fun f b => f b r) s.backend ≠ .ok
  | .rename oldPath newPath => ∀ p r r',
      providerForPath s (normalizePath s.cwd oldPath) = some (p, r) →
      providerForPath s (normalizePath s.cwd newPath) = some (p, r') →
      answer ((ops p).rename.map fun f b => f b r r') s.backend ≠ .ok
  | .truncate path size => ∀ p r, providerForPath s (normalizePath s.cwd path) = some (p, r) →
      answer ((ops p).truncate.map fun f b => f b r size) s.backend ≠ .ok
  | .chmod path mode => ∀ p r, providerForPath s (normalizePath s.cwd path) = some (p, r) →
      answer ((ops p).chmod.map fun f b => f b r mode) s.backend ≠ .ok

@[simp] theorem mayChange_root (r : VfsFileRecord) : mayChange root r = true := by
  simp [mayChange, canWriteStat, canExecuteStat, modeAllows, root]

@[simp] theorem canWriteStat_root (m : VfsStat) : canWriteStat root m = true := by
  simp [canWriteStat, modeAllows, root]

section
variable (hp : providerForPath s (normalizePath s.cwd path) = none)
include hp

end

section
variable (hp : providerForPath s (normalizePath s.cwd path) = none)
include hp

end

variable {m : Mutation}

end RadKernel.Vfs
