import RadKernel.Vfs.Model
import Mathlib.Data.List.TakeWhile

/-!
# Paths as strings

What `normalize_path` hands out, and how the parent of a path, its children and the paths
below it hang together as strings. Normalised paths are cut after 95 characters, so a name
may be cut away up to the slash in front of it.
-/

namespace RadKernel.Vfs

open List

variable {p q old new : List Char}

/-- A path starts with one slash and fits its buffer. -/
structure Shape (path : List Char) : Prop where
  absolute : path.head? = some '/'
  single : path.tail.head? ≠ some '/'
  fits : path.length ≤ 95

/-! ## Normalised paths -/

theorem components_mem (path : List Char) : ∀ part ∈ components path, part ≠ [] ∧ '/' ∉ part := by
  fun_induction components path <;> grind

theorem resolveParts_mem (parts rest : List (List Char)) :
    ∀ part ∈ resolveParts parts rest, part ∈ parts ∨ part ∈ rest := by
  fun_induction resolveParts parts rest <;> grind [dropLast_subset]

theorem head?_intercalate {parts : List (List Char)} (h : ∀ part ∈ parts, part ≠ [] ∧ '/' ∉ part) :
    (List.intercalate ['/'] parts).head? ≠ some '/' := by
  cases parts with
  | nil => simp
  | cons part rest =>
    obtain ⟨hne, hslash⟩ := h part (by simp)
    obtain ⟨a, part, rfl⟩ := exists_cons_of_ne_nil hne
    have ha : a ≠ '/' := by grind
    cases rest with
    | nil => simpa using ha
    | cons next rest => simpa [intercalate_cons_cons] using ha

theorem shape_normalizePath (cwd path : List Char) : Shape (normalizePath cwd path) := by
  have hparts : ∀ joined, ∀ part ∈ resolveParts [] (components joined),
      part ≠ [] ∧ '/' ∉ part := by
    intro joined part hpart
    rcases resolveParts_mem _ _ part hpart with h | h
    · simp at h
    · exact components_mem joined part h
  constructor
  · simp [normalizePath, copyString]
  · simp only [normalizePath, copyString, take_succ_cons, tail_cons, List.head?_take]
    split
    · simp
    · exact head?_intercalate (hparts _)
  · exact length_take_le _ _

theorem Shape.copyString (h : Shape p) : copyString 96 p = p := take_of_length_le h.fits

/-! ## Parents -/

theorem exists_last_slash (h : '/' ∈ q) : ∃ a name, q = a ++ '/' :: name ∧ '/' ∉ name := by
  induction q with
  | nil => simp at h
  | cons c q ih =>
    by_cases hq : '/' ∈ q
    · obtain ⟨a, name, rfl, hname⟩ := ih hq
      exact ⟨c :: a, name, rfl, hname⟩
    · obtain rfl : '/' = c := by grind
      exact ⟨[], q, rfl, hq⟩

theorem parentPath_append {a name : List Char} (hname : '/' ∉ name)
    (hfits : (a ++ '/' :: name).length ≤ 95) :
    parentPath (a ++ '/' :: name) = if a = [] then ['/'] else a := by
  have hall : name.reverse.dropWhile (· ≠ '/') = [] := by
    rw [dropWhile_eq_nil_iff]
    intro c hc
    have hc' : c ≠ '/' := by
      rintro rfl
      exact hname (List.mem_reverse.1 hc)
    simpa using hc'
  have hdrop : (a ++ '/' :: name).reverse.dropWhile (· ≠ '/') = '/' :: a.reverse := by
    rw [reverse_append, reverse_cons, append_assoc, dropWhile_append, hall]
    simp
  simp only [parentPath, copyString, take_of_length_le hfits, hdrop, drop_succ_cons,
    drop_zero, reverse_eq_nil_iff, reverse_reverse]

/-- A path is the root, or a name in the root, or a name in another directory. -/
theorem Shape.split (h : Shape q) :
    (∃ name, q = '/' :: name ∧ '/' ∉ name ∧ parentPath q = ['/']) ∨
      ∃ name, q = parentPath q ++ '/' :: name ∧ '/' ∉ name ∧ parentPath q ≠ ['/'] ∧
        parentPath q ≠ [] := by
  obtain ⟨a, name, rfl, hname⟩ := exists_last_slash (mem_of_mem_head? h.absolute)
  have hparent := parentPath_append hname h.fits
  by_cases ha : a = []
  · subst ha
    exact .inl ⟨name, rfl, hname, by simpa using hparent⟩
  · rw [if_neg ha] at hparent
    refine .inr ⟨name, by rw [hparent], hname, ?_, by rwa [hparent]⟩
    -- a path in the root has one slash at its start, not two
    intro hroot
    have hsingle := h.single
    rw [hparent] at hroot
    simp [hroot] at hsingle

theorem below_append (hp : p ≠ ['/']) :
    below p q = true ↔ q = p ∨ ∃ rest, q = p ++ '/' :: rest := by
  simp only [below, hp, decide_false, Bool.false_or, Bool.and_eq_true, isPrefixOf_iff_prefix,
    Bool.or_eq_true, decide_eq_true_eq]
  constructor
  · rintro ⟨⟨rest, rfl⟩, h⟩
    cases rest with
    | nil => exact .inl (by simp)
    | cons c rest =>
      have hc : c = '/' := by simpa using h
      exact .inr ⟨rest, by rw [hc]⟩
  · rintro (rfl | ⟨rest, rfl⟩) <;> simp

theorem Shape.below_parentPath (h : Shape q) : below (parentPath q) q = true := by
  obtain ⟨name, -, -, hroot⟩ | ⟨name, hq, -, hroot, -⟩ := h.split
  · simp [below, hroot]
  · exact (below_append hroot).2 (.inr ⟨name, hq⟩)

/-- What lies in a directory is a child by name, unless its name was cut away. -/
theorem Shape.isChildName (h : Shape q) (hne : q ≠ parentPath q)
    (hcut : q ≠ parentPath q ++ ['/']) : isChildName (parentPath q) q = true := by
  obtain ⟨name, hq, hname, hroot⟩ | ⟨name, hq, hname, hroot, -⟩ := h.split
  · have hnil : name ≠ [] := by
      rintro rfl
      exact hne (by rw [hroot, hq])
    rw [hroot, hq]
    simp [Vfs.isChildName, hnil, hname]
  · have hnil : name ≠ [] := by
      rintro rfl
      exact hcut hq
    generalize parentPath q = parent at *
    subst hq
    simp [Vfs.isChildName, hroot, hnil, hname]

/-- The parent of what lies strictly below a directory is that directory or lies below it. -/
theorem below_parentPath_of_below (hnew : Shape new) (h : below old new = true) (hne : new ≠ old)
    (hold : old ≠ []) : below old (parentPath new) = true := by
  by_cases hroot : old = ['/']
  · simp [below, hroot]
  obtain rfl | ⟨rest, rfl⟩ := (below_append hroot).1 h
  · exact absurd rfl hne
  rw [below_append hroot]
  by_cases hrest : '/' ∈ rest
  · obtain ⟨a, name, rfl, hname⟩ := exists_last_slash hrest
    refine .inr ⟨a, ?_⟩
    have hfits : (old ++ '/' :: a ++ '/' :: name).length ≤ 95 := by simpa using hnew.fits
    simpa using parentPath_append hname hfits
  · left
    rw [parentPath_append hrest hnew.fits, if_neg hold]

end RadKernel.Vfs
