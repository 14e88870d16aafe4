import RadKernel.Vfs.Canonical
import RadKernel.Lib.Run

/-!
# ProviderUsed providers

Which provider a path belongs to, over any calls of `rad_vfs_mount_provider` and `rad_vfs_unmount`. A
mount point is compared as it was normalised and kept in a buffer of 32 bytes.
-/

namespace RadKernel.Vfs

open Kernel Function List

variable {β : Type} {s t : VfsState β} {path mount rel : List Char} {i j n : Nat}

/-! ## Calls -/

/-- `rad_vfs_unmount`. -/
def radVfsUnmount (s : VfsState β) (mountPoint : List Char) : Status × VfsState β :=
  let normalized := normalizePath s.cwd mountPoint
  let isPoint (used : Bool) (point : List Char) : Bool := used && point = normalized
  let removed := (List.range maxVfsProviders).any fun i =>
    isPoint (s.providers i).used (s.providers i).mountPoint
  let s :=
    { s with
      providers := fun i =>
        if i < maxVfsProviders ∧ isPoint (s.providers i).used (s.providers i).mountPoint then {}
        else s.providers i }
  match (List.range maxMounts).find? fun m => isPoint (s.mounts m).used (s.mounts m).mountPoint with
  | some m =>
    (.ok, { s with mounts := Function.update s.mounts m { s.mounts m with used := false } })
  | none => (if removed then .ok else .notFound, s)

inductive MountCall where
  | mount (credentials : Credentials) (point : List Char)
  | unmount (point : List Char)

def MountCall.perform (s : VfsState β) : MountCall → Status × VfsState β
  | .mount credentials point => radVfsMountProvider s credentials point
  | .unmount point => radVfsUnmount s point

/-- A call that is made in a current directory. -/
def mountStep (s : VfsState β) (e : List Char × MountCall) : VfsState β :=
  (e.2.perform { s with cwd := e.1 }).2

/-! ## What the table is for -/

/-- The mount point is the path, or a directory on the way to it. -/
def Covers (mount path : List Char) : Prop :=
  mount = ['/'] ∨ path = mount ∨ ∃ rest, path = mount ++ '/' :: rest

/-- The path of a file in a file system that is mounted. -/
def joinMount (mount rel : List Char) : List Char :=
  if mount = ['/'] then '/' :: rel else if rel = [] then mount else mount ++ '/' :: rel

/-- The provider in slot `i` is mounted. -/
def ProviderUsed (s : VfsState β) (i : Nat) : Prop := i < maxVfsProviders ∧ (s.providers i).used = true

def Resolves (s : VfsState β) (path : List Char) : Option (Nat × List Char) → Prop
  | none => ∀ j, ProviderUsed s j → ¬Covers (s.providers j).mountPoint path
  | some (i, rel) => ProviderUsed s i ∧ Covers (s.providers i).mountPoint path ∧
      (∀ j, ProviderUsed s j → Covers (s.providers j).mountPoint path → j ≠ i →
        (s.providers j).mountPoint.length < (s.providers i).mountPoint.length) ∧
      joinMount (s.providers i).mountPoint rel = path

/-- The mount point fits its buffer, or there is no room for another provider. -/
def FitsBuffer (s : VfsState β) (cwd : List Char) : MountCall → Prop
  | .mount _ point =>
    (normalizePath cwd point).length ≤ 31 ∨ ∀ i < maxVfsProviders, (s.providers i).used = true
  | .unmount _ => True

instance (s : VfsState β) (cwd : List Char) : ∀ call : MountCall, Decidable (FitsBuffer s cwd call)
  | .mount _ point => inferInstanceAs (Decidable ((normalizePath cwd point).length ≤ 31 ∨
      ∀ i < maxVfsProviders, (s.providers i).used = true))
  | .unmount _ => isTrue trivial

/-- Every path is resolved; a point that was mounted by a call that meets `ok` is not mounted again, and
unmounting it leaves the table as it was. -/
structure MountSound (ok : VfsState β → List Char → MountCall → Prop) (s : VfsState β) : Prop where
  resolves : ∀ cwd path, Resolves s (normalizePath cwd path) (providerForPath s (normalizePath cwd path))
  twice : ∀ cwd credentials point, ok s cwd (.mount credentials point) → ∀ t,
    radVfsMountProvider { s with cwd } credentials point = (.ok, t) →
      ∀ cwd' credentials' point', normalizePath cwd' point' = normalizePath cwd point →
        (radVfsMountProvider { t with cwd := cwd' } credentials' point').1 = .alreadyExists
  restored : ∀ cwd credentials point, ok s cwd (.mount credentials point) → ∀ t,
    radVfsMountProvider { s with cwd } credentials point = (.ok, t) →
      (radVfsUnmount { t with cwd } point).2.providers = s.providers

/-! ## The invariant -/

/-- Slots that are not in use are empty, and mount points are distinct absolute paths. -/
structure MountInv (s : VfsState β) : Prop where
  unused : ∀ i, (s.providers i).used = false → s.providers i = {}
  shape : ∀ i, ProviderUsed s i → Shape (s.providers i).mountPoint ∧ (s.providers i).mountPoint.length ≤ 31
  distinct : ∀ i j, ProviderUsed s i → ProviderUsed s j →
    (s.providers i).mountPoint = (s.providers j).mountPoint → i = j

/-- The table is empty. -/
def Unmounted (s : VfsState β) : Prop := ∀ i, s.providers i = {}

theorem MountInv.unmounted (h : Unmounted s) : MountInv s where
  unused i _ := h i
  shape i hi := by
    have hused := hi.2
    rw [h i] at hused
    cases hused
  distinct i _ hi := by
    have hused := hi.2
    rw [h i] at hused
    cases hused

theorem covers_iff (mount path : List Char) : below mount path = true ↔ Covers mount path := by
  unfold Covers
  by_cases hroot : mount = ['/']
  · simp [below, hroot]
  · rw [below_append hroot, or_iff_right hroot]

/-! ## Resolution -/

/-- What the loop has found behind `n` slots. -/
theorem bestProvider_spec (s : VfsState β) (path : List Char) (n : Nat) :
    match bestProvider s path n with
    | (best, none) => best = 0 ∧ ∀ j < n, (s.providers j).used = true →
        ¬Covers (s.providers j).mountPoint path
    | (best, some i) => i < n ∧ (s.providers i).used = true ∧ Covers (s.providers i).mountPoint path ∧
        best = (s.providers i).mountPoint.length ∧
        ∀ j < n, (s.providers j).used = true → Covers (s.providers j).mountPoint path →
          (s.providers j).mountPoint.length ≤ best := by
  induction n with
  | zero => simp [bestProvider]
  | succ n ih =>
    rw [bestProvider]
    rcases hbest : bestProvider s path n with ⟨best, _ | i⟩
    all_goals
      rw [hbest] at ih
      dsimp only at ih ⊢
    · obtain ⟨rfl, hnone⟩ := ih
      split_ifs with hfound
      · obtain ⟨hused, -, hcovers⟩ := hfound
        rw [covers_iff] at hcovers
        refine ⟨Nat.lt_succ_self n, hused, hcovers, rfl, fun j hj hjused hjcovers => ?_⟩
        rcases Nat.lt_succ_iff_lt_or_eq.1 hj with hlt | rfl
        · exact absurd hjcovers (hnone j hlt hjused)
        · exact le_rfl
      · refine ⟨rfl, fun j hj hjused hjcovers => ?_⟩
        rcases Nat.lt_succ_iff_lt_or_eq.1 hj with hlt | rfl
        · exact hnone j hlt hjused hjcovers
        · exact hfound ⟨hjused, Nat.zero_le _, (covers_iff _ _).2 hjcovers⟩
    · obtain ⟨hi, hused, hcovers, hlength, hlongest⟩ := ih
      split_ifs with hfound
      · obtain ⟨hused', hle, hcovers'⟩ := hfound
        rw [covers_iff] at hcovers'
        refine ⟨Nat.lt_succ_self n, hused', hcovers', rfl, fun j hj hjused hjcovers => ?_⟩
        rcases Nat.lt_succ_iff_lt_or_eq.1 hj with hlt | rfl
        · exact (hlongest j hlt hjused hjcovers).trans hle
        · exact le_rfl
      · refine ⟨Nat.lt_succ_of_lt hi, hused, hcovers, hlength, fun j hj hjused hjcovers => ?_⟩
        rcases Nat.lt_succ_iff_lt_or_eq.1 hj with hlt | rfl
        · exact hlongest j hlt hjused hjcovers
        · by_contra hlonger
          exact hfound ⟨hjused, by omega, (covers_iff _ _).2 hjcovers⟩

theorem render_getLast {parts : List (List Char)} (h : ∀ part ∈ parts, Name part)
    (hne : parts ≠ []) : ∃ front c, render parts = front ++ [c] ∧ c ≠ '/' := by
  induction parts with
  | nil => exact absurd rfl hne
  | cons part parts ih =>
    obtain ⟨hpart, hslash, -, -⟩ := h part (by simp)
    cases parts with
    | nil =>
      obtain ⟨front, c, rfl⟩ := (eq_nil_or_concat part).resolve_left hpart
      refine ⟨'/' :: front, c, by simp [render], ?_⟩
      rintro rfl
      simp at hslash
    | cons next parts =>
      obtain ⟨front, c, heq, hc⟩ := ih (fun part hmem => h part (by simp [hmem])) (by simp)
      refine ⟨'/' :: part ++ front, c, ?_, hc⟩
      rw [append_assoc, ← heq]
      simp [render, intercalate_cons_cons]

/-- A normalised path ends in a slash only if it is the root or was cut. -/
theorem normalizePath_trailing (cwd path rest : List Char)
    (h : normalizePath cwd path = rest ++ ['/']) : rest = [] ∨ 94 ≤ rest.length := by
  rw [normalizePath_eq, copyString] at h
  have hnames := seenComponents_names cwd path
  generalize resolve (seenComponents cwd path) = parts at h hnames
  by_cases hlong : (render parts).length ≤ 95
  · rw [take_of_length_le hlong] at h
    by_cases hempty : parts = []
    · subst hempty
      exact .inl (append_inj_left' h rfl).symm
    · obtain ⟨front, c, heq, hc⟩ := render_getLast hnames hempty
      have hlast : ['/'] = [c] := append_inj_right' (h.symm.trans heq) rfl
      exact absurd (List.singleton_inj.1 hlast).symm hc
  · have hlength := congrArg List.length h
    rw [length_take, length_append, length_singleton] at hlength
    omega

theorem Covers.isPrefix (h : Covers mount path) (hpath : Shape path) : mount <+: path := by
  rcases h with rfl | rfl | ⟨rest, rfl⟩
  · have habsolute := hpath.absolute
    cases path with
    | nil => cases habsolute
    | cons c path =>
      obtain rfl : c = '/' := Option.some.inj habsolute
      exact ⟨path, rfl⟩
  · exact prefix_rfl
  · exact prefix_append _ _

namespace MountInv

theorem resolves (h : MountInv s) (cwd path : List Char) :
    Resolves s (normalizePath cwd path) (providerForPath s (normalizePath cwd path)) := by
  have hpath := shape_normalizePath cwd path
  have htrailing := normalizePath_trailing cwd path
  generalize normalizePath cwd path = p at hpath htrailing
  have hbest := bestProvider_spec s p maxVfsProviders
  unfold providerForPath
  rcases hfound : bestProvider s p maxVfsProviders with ⟨best, _ | i⟩
  all_goals
    rw [hfound] at hbest
    dsimp only at hbest ⊢
  · exact fun j hj hcovers => hbest.2 j hj.1 hj.2 hcovers
  · obtain ⟨hi, hused, hcovers, hlength, hlongest⟩ := hbest
    have hmounted : ProviderUsed s i := ⟨hi, hused⟩
    obtain ⟨hshape, hshort⟩ := h.shape i hmounted
    have hunique : ∀ j, ProviderUsed s j → Covers (s.providers j).mountPoint p → j ≠ i →
        (s.providers j).mountPoint.length < (s.providers i).mountPoint.length := by
      intro j hj hjcovers hne
      refine lt_of_le_of_ne (hlength ▸ hlongest j hj.1 hj.2 hjcovers) fun hsame => hne ?_
      have hprefix := prefix_of_prefix_length_le (hjcovers.isPrefix hpath) (hcovers.isPrefix hpath)
        hsame.le
      exact h.distinct j i hj hmounted ( hprefix.eq_of_length hsame)
    by_cases hroot : (s.providers i).mountPoint = ['/']
    · rw [if_pos hroot, if_pos hpath.absolute]
      refine ⟨hmounted, hcovers, hunique, ?_⟩
      rw [joinMount, if_pos hroot]
      obtain ⟨rest, rfl⟩ := hroot ▸ hcovers.isPrefix hpath
      rfl
    · rw [if_neg hroot]
      refine ⟨hmounted, hcovers, hunique, ?_⟩
      rw [joinMount, if_neg hroot, hlength]
      rcases hcovers.resolve_left hroot with rfl | ⟨rest, rfl⟩
      · simp
      · have hrest : rest ≠ [] := by
          rintro rfl
          have hpositive := List.length_pos_iff.2 fun hempty : (s.providers i).mountPoint = [] => by
            have habsolute := hshape.absolute
            rw [hempty] at habsolute
            cases habsolute
          rcases htrailing _ rfl with hempty | hlong
          · rw [hempty] at hpositive
            exact absurd hpositive (by simp)
          · omega
        simp [hrest]

end MountInv

/-! ## Calls -/

/-- A mount that succeeds takes a free slot; another one leaves the table. -/
theorem radVfsMountProvider_providers (s : VfsState β) (c : Credentials) (point : List Char) :
    ((radVfsMountProvider s c point).1 ≠ .ok ∧
        (radVfsMountProvider s c point).2.providers = s.providers) ∨
      (radVfsMountProvider s c point).1 = .ok ∧
        (∀ j, ProviderUsed s j → (s.providers j).mountPoint ≠ normalizePath s.cwd point) ∧
        ∃ i < maxVfsProviders, (s.providers i).used = false ∧
          (radVfsMountProvider s c point).2.providers = update s.providers i
            { mountPoint := copyString 32 (normalizePath s.cwd point), used := true } := by
  unfold radVfsMountProvider
  dsimp only
  split_ifs with hexists
  · exact .inl ⟨by simp, rfl⟩
  · have hnew : ∀ j, ProviderUsed s j → (s.providers j).mountPoint ≠ normalizePath s.cwd point := by
      intro j hj heq
      refine hexists (List.any_eq_true.2 ⟨j, List.mem_range.2 hj.1, ?_⟩)
      simp [hj.2, heq]
    cases hfree : (List.range maxVfsProviders).find? fun i => !(s.providers i).used with
    | none => exact .inl ⟨by simp, rfl⟩
    | some i =>
      have hi := List.mem_range.1 (mem_of_find?_eq_some hfree)
      have hunused : (s.providers i).used = false := by simpa using List.find?_some hfree
      have hdirectory : ∀ t : VfsState β, ∀ path,
          (ensureDirectory t c path).2.providers = t.providers := by
        intro t path
        unfold ensureDirectory
        cases findFileOrDir t path with
        | some k => rfl
        | none => cases freeFile t <;> rfl
      refine .inr ?_
      dsimp only
      split_ifs
      · exact ⟨rfl, hnew, i, hi, hunused, hdirectory _ _⟩
      · split <;> exact ⟨rfl, hnew, i, hi, hunused, hdirectory _ _⟩

/-- The slot of a mount point that fits. -/
theorem radVfsMountProvider_taken {cwd point : List Char} {c : Credentials}
    (hfits : FitsBuffer s cwd (.mount c point))
    (ht : radVfsMountProvider { s with cwd } c point = (.ok, t)) :
    (∀ j, ProviderUsed s j → (s.providers j).mountPoint ≠ normalizePath cwd point) ∧
      ∃ i < maxVfsProviders, (s.providers i).used = false ∧
        t.providers = update s.providers i
          { mountPoint := normalizePath cwd point, used := true } := by
  have hspec := radVfsMountProvider_providers { s with cwd } c point
  rw [ht] at hspec
  obtain ⟨hne, -⟩ | ⟨-, hnew, i, hi, hunused, hupdate⟩ := hspec
  · exact absurd rfl hne
  · have hshort : (normalizePath cwd point).length ≤ 31 := by
      refine hfits.resolve_right fun hfull => ?_
      exact absurd ((hfull i hi).symm.trans hunused) (by decide)
    have hcopy : copyString 32 (normalizePath cwd point) = normalizePath cwd point :=
      take_of_length_le hshort
    rw [hcopy] at hupdate
    exact ⟨hnew, i, hi, hunused, hupdate⟩

theorem radVfsMountProvider_exists (s : VfsState β) (c : Credentials) (point : List Char)
    (hj : ProviderUsed s j) (h : (s.providers j).mountPoint = normalizePath s.cwd point) :
    (radVfsMountProvider s c point).1 = .alreadyExists := by
  unfold radVfsMountProvider
  rw [if_pos]
  refine List.any_eq_true.2 ⟨j, List.mem_range.2 hj.1, ?_⟩
  simp [hj.2, h]

theorem radVfsUnmount_providers (s : VfsState β) (point : List Char) (i : Nat) :
    (radVfsUnmount s point).2.providers i =
      if i < maxVfsProviders ∧ (s.providers i).used = true ∧
          (s.providers i).mountPoint = normalizePath s.cwd point then {}
      else s.providers i := by
  unfold radVfsUnmount
  dsimp only
  split <;> simp

/-! ## Runs -/

namespace MountInv

section
variable (h : MountInv s)
include h

theorem mountProvider (c : Credentials) (point : List Char)
    (hfits : FitsBuffer s s.cwd (.mount c point)) : MountInv (radVfsMountProvider s c point).2 := by
  rcases radVfsMountProvider_providers s c point with ⟨-, hsame⟩ | ⟨hok, -⟩
  · exact ⟨hsame ▸ h.unused, fun j => by simpa [ProviderUsed, hsame] using h.shape j,
      fun j k => by simpa [ProviderUsed, hsame] using h.distinct j k⟩
  · obtain ⟨hnew, i, hi, hunused, hupdate⟩ := radVfsMountProvider_taken hfits (Prod.ext hok rfl)
    have hshort : (normalizePath s.cwd point).length ≤ 31 := by
      refine hfits.resolve_right fun hfull => ?_
      exact absurd ((hfull i hi).symm.trans hunused) (by decide)
    have hother : ∀ j, j ≠ i → (radVfsMountProvider s c point).2.providers j = s.providers j := by
      intro j hj
      rw [hupdate, update_of_ne hj]
    have hself : (radVfsMountProvider s c point).2.providers i =
        { mountPoint := normalizePath s.cwd point, used := true } := by
      rw [hupdate, update_self]
    have hold :
    ∀ j, j ≠ i → ProviderUsed (radVfsMountProvider s c point).2 j → ProviderUsed s j := by
      intro j hj hm
      rwa [ProviderUsed, hother j hj] at hm
    refine ⟨fun j hj => ?_, fun j hj => ?_, fun j k hj hk heq => ?_⟩
    · by_cases hji : j = i
      · rw [hji, hself] at hj
        cases hj
      · rw [hother j hji] at hj ⊢
        exact h.unused j hj
    · by_cases hji : j = i
      · rw [hji, hself]
        exact ⟨shape_normalizePath _ _, hshort⟩
      · rw [hother j hji]
        exact h.shape j (hold j hji hj)
    · by_cases hji : j = i <;> by_cases hki : k = i
      · rw [hji, hki]
      · rw [hji, hself, hother k hki] at heq
        exact absurd heq.symm (hnew k (hold k hki hk))
      · rw [hki, hself, hother j hji] at heq
        exact absurd heq (hnew j (hold j hji hj))
      · rw [hother j hji, hother k hki] at heq
        exact h.distinct j k (hold j hji hj) (hold k hki hk) heq

theorem unmount (point : List Char) : MountInv (radVfsUnmount s point).2 := by
  have hkept : ∀ j, ProviderUsed (radVfsUnmount s point).2 j →
      ProviderUsed s j ∧ (radVfsUnmount s point).2.providers j = s.providers j := by
    intro j hj
    have hj' := hj.2
    rw [radVfsUnmount_providers] at hj' ⊢
    split_ifs at hj' ⊢ with hpoint
    exact ⟨⟨hj.1, hj'⟩, rfl⟩
  refine ⟨fun j hj => ?_, fun j hj => ?_, fun j k hj hk heq => ?_⟩
  · rw [radVfsUnmount_providers] at hj ⊢
    split_ifs at hj ⊢ with hpoint
    · rfl
    · exact h.unused j hj
  · rw [(hkept j hj).2]
    exact h.shape j (hkept j hj).1
  · rw [(hkept j hj).2, (hkept k hk).2] at heq
    exact h.distinct j k (hkept j hj).1 (hkept k hk).1 heq

theorem withCwd (cwd : List Char) : MountInv { s with cwd } :=
  ⟨h.unused, h.shape, h.distinct⟩

theorem step (e : List Char × MountCall) (hfits : FitsBuffer s e.1 e.2) :
    MountInv (mountStep s e) := by
  obtain ⟨cwd, call⟩ := e
  cases call with
  | mount c point => exact (h.withCwd cwd).mountProvider c point hfits
  | unmount point => exact (h.withCwd cwd).unmount point

theorem sound : MountSound FitsBuffer s where
  resolves := h.resolves
  twice cwd c point hfits t ht cwd' c' point' heq := by
    obtain ⟨-, i, hi, -, hupdate⟩ := radVfsMountProvider_taken hfits ht
    refine @radVfsMountProvider_exists β i { t with cwd := cwd' } c' point' ⟨hi, ?_⟩ ?_
    · dsimp only
      rw [hupdate, update_self]
    · dsimp only
      rw [hupdate, update_self, heq]
  restored cwd c point hfits t ht := by
    obtain ⟨hnew, i, hi, hunused, hupdate⟩ := radVfsMountProvider_taken hfits ht
    funext j
    rw [radVfsUnmount_providers]
    rw [hupdate]
    by_cases hji : j = i
    · subst hji
      rw [update_self, if_pos ⟨hi, rfl, rfl⟩, h.unused j hunused]
    · rw [update_of_ne hji, if_neg]
      rintro ⟨hj, hused, hpoint⟩
      exact hnew j ⟨hj, hused⟩ hpoint

end

end MountInv

/-- In every run of calls that mount no point longer than its buffer, the table is sound. -/
theorem mountSound_of_run (h : Run (Obeys mountStep fun s e => FitsBuffer s e.1 e.2) Unmounted s) :
    MountSound FitsBuffer s := by
  have hinv : MountInv s := by
    refine h.invariant (fun _ => MountInv.unmounted) ?_
    rintro s e _ hs ⟨hfits, rfl⟩
    exact hs.step e hfits
  exact hinv.sound

/-- The table of a kernel without a backend to mount. -/
def emptyVfs : VfsState Unit := { backend := () }

theorem mountSound_of_run_twice : MountSound FitsBuffer
    ([([], .mount {} "/mnt/a".toList), ([], .mount {} "/mnt/ab".toList), ([], .unmount "/mnt/a".toList),
      ([], .mount {} "/mnt".toList)].foldl mountStep emptyVfs) :=
  mountSound_of_run (.along _ (.start fun _ => rfl) (by decide +kernel))

/-- A mount point of 40 characters can be mounted twice. -/
theorem not_mountSound_long :
    ¬∀ s : VfsState Unit, Run (Obeys mountStep fun _ _ => True) Unmounted s →
      MountSound (fun _ _ _ => True) s := by
  intro h
  have htwice := (h emptyVfs (.start fun _ => rfl)).twice [] {} ('/' :: List.replicate 39 'a') trivial _
    (Prod.ext (by decide +kernel) rfl) [] {} ('/' :: List.replicate 39 'a') rfl
  revert htwice
  decide +kernel

end RadKernel.Vfs
