import RadKernel.Vfs.Paths

/-!
# Canonical paths

What a path means, whatever its length, against what `normalize_path` makes of it: the joined path is
cut after 159 characters, the loop ends with the 16th component that it keeps, and the result is cut
after 95 characters.
-/

namespace RadKernel.Vfs

open List

variable {cwd path p q : List Char} {parts rest : List (List Char)}

/-! ## Components -/

/-- A name, not a step to the same directory or the one above. -/
def Name (part : List Char) : Prop :=
  part ≠ [] ∧ '/' ∉ part ∧ part ≠ ['.'] ∧ part ≠ ['.', '.']

def follow (parts : List (List Char)) (part : List Char) : List (List Char) :=
  if part = ['.'] then parts else if part = ['.', '.'] then parts.dropLast else parts ++ [part]

/-- The components that are left when `.` and `..` are followed. -/
def resolve (parts : List (List Char)) : List (List Char) := parts.foldl follow []

def render (parts : List (List Char)) : List Char := '/' :: List.intercalate ['/'] parts

/-- A current directory: an absolute path of names, or none yet. -/
def Normal (cwd : List Char) : Prop :=
  cwd = [] ∨ ∃ parts, (∀ part ∈ parts, Name part) ∧ cwd = render parts

/-- The components of an absolute path, or those of the current directory and the path. -/
def allComponents (cwd path : List Char) : List (List Char) :=
  if path.head? = some '/' then components path else components cwd ++ components path

/-- The path that the components of the current directory and of the path lead to. -/
def canonical (cwd path : List Char) : List Char := render (resolve (allComponents cwd path))

theorem components_cons_slash (p : List Char) : components ('/' :: p) = components p := by
  rw [components.eq_def]
  simp

theorem components_cons {c d : Char} (hc : c ≠ '/') (hd : d ≠ '/') {part : List Char}
    (h : components (d :: p) = part :: rest) : components (c :: d :: p) = (c :: part) :: rest := by
  rw [components.eq_def]
  simp only [if_neg hc, if_neg hd, h]

theorem components_name_append (hne : p ≠ []) (hslash : '/' ∉ p) :
    components p = [p] ∧ ∀ q, components (p ++ '/' :: q) = p :: components q := by
  induction p with
  | nil => exact absurd rfl hne
  | cons c p ih =>
    obtain ⟨hc, hp⟩ : c ≠ '/' ∧ '/' ∉ p := by simpa [eq_comm] using hslash
    cases p with
    | nil =>
      constructor
      · simp [components.eq_def, hc]
      · intro q
        rw [cons_append, nil_append, components.eq_def]
        simp only [if_neg hc, if_pos, components_cons_slash]
    | cons d p =>
      obtain ⟨hname, happend⟩ := ih (by simp) hp
      have hd : d ≠ '/' := by
        rintro rfl
        simp at hp
      exact ⟨components_cons hc hd hname, fun q => components_cons hc hd (happend q)⟩

theorem components_append_slash (p q : List Char) :
    components (p ++ '/' :: q) = components p ++ components q := by
  -- no slash in `p`: nothing, or a name
  have hname : ∀ name : List Char, '/' ∉ name → ∀ q,
      components (name ++ '/' :: q) = components name ++ components q := by
    intro name hslash q
    by_cases hne : name = []
    · subst hne
      exact components_cons_slash q
    · obtain ⟨hone, happend⟩ := components_name_append hne hslash
      rw [happend, hone]
      rfl
  induction h : p.length using Nat.strong_induction_on generalizing p with
  | _ n ih =>
    by_cases hslash : '/' ∈ p
    · obtain ⟨name, after, rfl, hmem⟩ := eq_append_cons_of_mem hslash
      rw [append_assoc, cons_append, hname name hmem, hname name hmem,
        ih after.length (by simp [← h]; omega) after rfl, append_assoc]
    · exact hname p hslash q

/-- The components that the loop of `normalize_path` reads: none behind the 16th that it keeps. -/
def seen : List (List Char) → List (List Char) → List (List Char)
  | _, [] => []
  | parts, part :: rest =>
    if 16 ≤ parts.length then [] else part :: seen (follow parts part) rest

theorem resolveParts_eq (parts rest : List (List Char)) :
    resolveParts parts rest = (seen parts rest).foldl follow parts := by
  induction rest generalizing parts with
  | nil => rfl
  | cons part rest ih =>
    rw [resolveParts, seen]
    split_ifs with hfull hdot hup
    · rfl
    all_goals rw [ih, foldl_cons]
    · rw [follow, if_pos hdot]
    · rw [follow, if_neg hdot, if_pos hup]
    · rw [follow, if_neg hdot, if_neg hup]

theorem resolve_names (h : ∀ part ∈ rest, part ≠ [] ∧ '/' ∉ part) :
    ∀ part ∈ resolve rest, Name part := by
  have hfold : ∀ parts : List (List Char), (∀ part ∈ parts, Name part) →
      ∀ part ∈ rest.foldl follow parts, Name part := by
    induction rest with
    | nil => exact fun parts hparts => hparts
    | cons next rest ih =>
      intro parts hparts
      refine ih (fun part hmem => h part (by simp [hmem])) _ fun part hmem => ?_
      unfold follow at hmem
      split_ifs at hmem with hdot hup
      · exact hparts part hmem
      · exact hparts part (dropLast_subset _ hmem)
      · rcases List.mem_append.1 hmem with hmem | hmem
        · exact hparts part hmem
        · obtain rfl := List.mem_singleton.1 hmem
          obtain ⟨hne, hslash⟩ := h part (by simp)
          exact ⟨hne, hslash, hdot, hup⟩
  exact hfold [] (by simp)

theorem resolveParts_length (parts rest : List (List Char)) (h : parts.length ≤ 16) :
    (resolveParts parts rest).length ≤ 16 := by
  fun_induction resolveParts parts rest <;> grind [length_dropLast]

/-- The absolute path that `normalize_path` joins, before it is cut. -/
def fullPath (cwd path : List Char) : List Char :=
  let base := if cwd = [] then ['/'] else cwd
  let path := if path = [] then base else path
  if path.head? = some '/' then path
  else (if 1 < base.length ∧ base.getLast? ≠ some '/' then base ++ ['/'] else base) ++ path

/-- The components that are left of the joined path when it is cut and the loop has ended. -/
def seenComponents (cwd path : List Char) : List (List Char) :=
  seen [] (components (copyString 160 (fullPath cwd path)))

/-- The canonical path fits the buffer, and what is cut off before would not have changed it, unless
by a change behind the end of the buffer. -/
def Fits (cwd path : List Char) : Prop :=
  (canonical cwd path).length ≤ 95 ∧
    (resolve (seenComponents cwd path) = resolve (allComponents cwd path) ∨
      (canonical cwd path).length = 95 ∧
        canonical cwd path <+: render (resolve (seenComponents cwd path)))

/-- The current directory is cut before the path is appended, which makes no difference. -/
theorem copyString_join (base path : List Char) :
    copyString 160 ((if 1 < (copyString 160 base).length ∧ (copyString 160 base).getLast? ≠ some '/' then
        copyString 160 base ++ ['/'] else copyString 160 base) ++ path) =
      copyString 160 ((if 1 < base.length ∧ base.getLast? ≠ some '/' then base ++ ['/'] else base) ++
        path) := by
  by_cases hlong : base.length ≤ 159
  · have hcut : copyString 160 base = base := take_of_length_le hlong
    rw [hcut]
  · have hlength : (copyString 160 base).length = 159 := by
      rw [copyString, length_take]
      omega
    have hleft : ∀ more : List Char, copyString 160 (copyString 160 base ++ more) = copyString 160 base :=
      fun more => take_left' hlength
    have hright : ∀ more : List Char, copyString 160 (base ++ more) = copyString 160 base :=
      fun more => take_append_of_le_length (by omega)
    split_ifs
    all_goals simp only [append_assoc, hleft, hright]

theorem normalizePath_eq (cwd path : List Char) :
    normalizePath cwd path = copyString 96 (render (resolve (seenComponents cwd path))) := by
  unfold normalizePath seenComponents fullPath render resolve
  dsimp only
  rw [← resolveParts_eq, copyString_join]
  split_ifs <;> rfl

theorem Normal.head (h : Normal cwd) (hne : cwd ≠ []) : cwd.head? = some '/' := by
  obtain ⟨parts, -, rfl⟩ := h.resolve_left hne
  rfl

theorem components_join {base : List Char} (h : base.head? = some '/') (path : List Char) :
    components ((if 1 < base.length ∧ base.getLast? ≠ some '/' then base ++ ['/'] else base) ++ path) =
      components base ++ components path := by
  split_ifs with hslash
  · rw [append_assoc, singleton_append, components_append_slash]
  · -- the directory ends with a slash
    obtain ⟨front, rfl⟩ : ∃ front, base = front ++ ['/'] := by
      by_cases hlast : base.getLast? = some '/'
      · exact List.getLast?_eq_some_iff.1 hlast
      · refine ⟨[], ?_⟩
        cases base with
        | nil => simp at h
        | cons c base =>
          have hbase : base = [] := by
            rw [not_and, not_not] at hslash
            by_contra hne
            exact hlast (hslash (by simpa using List.length_pos_iff.2 hne))
          rw [hbase]
          simpa using h
    have hempty : components [] = [] := rfl
    rw [append_assoc, singleton_append, components_append_slash, components_append_slash,
      hempty, append_nil]

theorem components_fullPath (h : Normal cwd) :
    components (fullPath cwd path) = allComponents cwd path := by
  unfold fullPath allComponents
  dsimp only
  have hhead : (if cwd = [] then ['/'] else cwd).head? = some '/' := by
    split_ifs with hcwd
    · rfl
    · exact h.head hcwd
  have hbase : components (if cwd = [] then ['/'] else cwd) = components cwd := by
    split_ifs with hcwd
    · rw [hcwd]
      rfl
    · rfl
  by_cases hpath : path = []
  · subst hpath
    rw [if_pos rfl, if_pos hhead, hbase]
    simp [components]
  · rw [if_neg hpath]
    by_cases habs : path.head? = some '/'
    · rw [if_pos habs, if_pos habs]
    · rw [if_neg habs, if_neg habs, components_join hhead, hbase]

/-! ## Paths that fit -/

theorem resolve_components_names (joined : List Char) (parts : List (List Char)) :
    ∀ part ∈ resolve (seen parts (components joined)), Name part := by
  have hseen : ∀ (rest parts : List (List Char)), ∀ part ∈ seen parts rest, part ∈ rest := by
    intro rest
    induction rest with
    | nil => simp [seen]
    | cons next rest ih =>
      intro parts part hpart
      rw [seen] at hpart
      split_ifs at hpart
      · cases hpart
      · rcases List.mem_cons.1 hpart with rfl | hpart
        · exact mem_cons_self
        · exact mem_cons_of_mem _ (ih _ part hpart)
  exact resolve_names fun part hpart => components_mem joined part (hseen _ _ part hpart)

theorem seenComponents_names (cwd path : List Char) :
    ∀ part ∈ resolve (seenComponents cwd path), Name part :=
  resolve_components_names _ _

theorem canonical_names (h : Normal cwd) (path : List Char) :
    ∀ part ∈ resolve (allComponents cwd path), Name part := by
  rw [← components_fullPath h]
  exact resolve_names (components_mem _)

/-- A rendered path has a slash for each of its names. -/
theorem count_render (h : ∀ part ∈ parts, Name part) :
    (render parts).count '/' = max 1 parts.length := by
  induction parts with
  | nil => rfl
  | cons part parts ih =>
    have hpart : part.count '/' = 0 := List.count_eq_zero.2 (h part (by simp)).2.1
    have ih := ih fun part hmem => h part (by simp [hmem])
    cases parts with
    | nil => simp [render, hpart]
    | cons next parts =>
      simp only [render, count_cons_self, intercalate_cons_cons, count_append, hpart,
        length_cons] at ih ⊢
      simp only [count_nil] at ih ⊢
      omega

/-- A path that fits has no more names than the loop keeps. -/
theorem Fits.length (h : Fits cwd path) (hcwd : Normal cwd) :
    (resolve (allComponents cwd path)).length ≤ 16 := by
  have hkept : (resolve (seenComponents cwd path)).length ≤ 16 := by
    have hparts := resolveParts_length [] (components (copyString 160 (fullPath cwd path))) (by simp)
    rwa [resolveParts_eq] at hparts
  rcases h.2 with heq | ⟨-, hprefix⟩
  · rw [← heq]
    exact hkept
  · have hcount := hprefix.sublist.count_le '/'
    rw [canonical, count_render (canonical_names hcwd path), count_render (seenComponents_names cwd path)]
      at hcount
    omega

end RadKernel.Vfs
