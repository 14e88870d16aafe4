import RadKernel.Vm.Tables
import Mathlib.Algebra.BigOperators.Group.Finset.Piecewise
import Mathlib.Algebra.Order.BigOperators.Group.Finset
import Mathlib.Order.Interval.Finset.Nat

/-!
# Pages and who holds them

Every reference to a physical page is counted: the lists of owned pages hold references, and so do
the objects of the kernel, which `held` counts. A page that the code has in its hands between two
steps counts as held, too. The pages of the kernel's objects of shared memory are `pinned`: spaces
may have them mapped writable together.
-/

namespace RadKernel.Vm

open Finset

variable {κ : Type} {s t : VmState κ} {held : Nat → Nat} {pinned : Nat → Prop} {k k' : κ}
  {π : List Nat} {a b i p q va va' : Nat} {e : Pte}

def VmState.owned (s : VmState κ) (k : κ) : List Nat := (s.spaces k).ownedPages

/-- The entries for a page in all lists of owned pages. -/
def VmState.recorded [Fintype κ] (s : VmState κ) (page : Nat) : Nat :=
  ∑ k, (s.owned k).count page

def userPages : Finset Nat := Finset.Ico (userBase / pageSize) (userLimit / pageSize)

def VmState.mapped (s : VmState κ) (k : κ) (page : Nat) : Finset Nat :=
  userPages.filter fun v => (s.leaf k (v * pageSize)).map Pte.page = some page

/-- One more reference to a page. -/
def bump (held : Nat → Nat) (page : Nat) : Nat → Nat :=
  Function.update held page (held page + 1)

/-- The tables are trees of pages of their own, the pages that user programs see are owned by their
spaces, and only pinned pages are writable in two places. -/
structure Sound [Fintype κ] (held : Nat → Nat) (pinned : Nat → Prop) (s : VmState κ) : Prop
    extends Trees s where
  tables : ∀ k π a, π.length ≤ 3 → s.table k π = some a → a ∈ s.owned k ∧ s.pageRefs a = 1
  counted : ∀ p, s.pageRefs p = s.recorded p + held p
  reserved : ∀ p, 0 < s.pageRefs p → p < maxTrackedPages ∧ s.pageState p = .reserved
  null : s.pageRefs 0 = 0 ∧ s.pageState 0 ≠ .free
  uses : ∀ k p, (s.mapped k p).card ≤ (s.owned k).count p
  apart : ∀ k va e, inUser va = true → s.leaf k va = some e → s.NoTable e.page
  alone : ∀ k va e, inUser va = true → s.leaf k va = some e → e.write = true → ¬pinned e.page →
    s.recorded e.page = 1
  exclusive : ∀ k va e, inUser va = true → s.leaf k va = some e → e.write = true → e.cow = false
  pins : ∀ p, pinned p → 0 < held p

@[simp] theorem bump_self (held : Nat → Nat) (p : Nat) : bump held p p = held p + 1 := by
  simp [bump]

theorem bump_of_ne (h : q ≠ p) : bump held p q = held q := by
  simp [bump, h]

theorem mem_mapped : q ∈ s.mapped k p ↔
    q ∈ userPages ∧ (s.leaf k (q * pageSize)).map Pte.page = some p := by
  rw [VmState.mapped, mem_filter]

/-- The page of an address in the window. -/
theorem page_mem_userPages (h : inUser va = true) : va / pageSize ∈ userPages := by
  obtain ⟨hlow, hhigh⟩ := inUser_iff.1 h
  rw [userPages, mem_Ico, pageSize]
  rw [userLimit] at hhigh ⊢
  omega

theorem leaf_pageStart (s : VmState κ) (k : κ) (va : Nat) :
    s.leaf k (va / pageSize * pageSize) = s.leaf k va :=
  leaf_page s k (by rw [pageSize]; omega)

theorem page_mem_mapped (hin : inUser va = true) (he : s.leaf k va = some e) :
    va / pageSize ∈ s.mapped k e.page := by
  rw [mem_mapped, leaf_pageStart, he]
  exact ⟨page_mem_userPages hin, rfl⟩

theorem inUser_of_mem (h : q ∈ userPages) : inUser (q * pageSize) = true := by
  rw [userPages, mem_Ico, userBase, userLimit, pageSize] at h
  rw [inUser_iff, userBase, userLimit, pageSize]
  omega

theorem mapped_congr (h : ∀ va, inUser va = true → t.leaf k va = s.leaf k va) (p : Nat) :
    t.mapped k p = s.mapped k p :=
  filter_congr fun v hv => by rw [h _ (inUser_of_mem hv)]

def VmState.take (s : VmState κ) (page : Nat) : VmState κ :=
  { s with
    pageState := Function.update s.pageState page .reserved
    pageRefs := Function.update s.pageRefs page 1 }

def VmState.fill (s : VmState κ) (page : Nat) (content : Page) : VmState κ :=
  { s with memory := Function.update s.memory page content }

/-- The state after `x86_vm_free_page`. -/
def VmState.release (s : VmState κ) (page : Nat) : VmState κ :=
  if maxTrackedPages ≤ page ∨ s.pageState page ≠ .reserved then s
  else if 1 < s.pageRefs page then
    { s with pageRefs := Function.update s.pageRefs page (s.pageRefs page - 1) }
  else
    { s with
      pageState := Function.update s.pageState page .free
      pageRefs := Function.update s.pageRefs page 0 }

@[simp] theorem setPage_apply (s : VmState κ) (page : Nat) (content : Page) :
    setPage page content s = some (.ok (), s.fill page content) := rfl

@[simp] theorem freePage_apply (s : VmState κ) (page : Nat) :
    freePage page s = some (.ok (), s.release page) := rfl

def VmState.record [DecidableEq κ] (s : VmState κ) (k : κ) (page : Nat) : VmState κ :=
  { s with
    spaces := Function.update s.spaces k
      { s.spaces k with ownedPages := (s.spaces k).ownedPages ++ [page] } }

theorem owned_record [DecidableEq κ] (s : VmState κ) (k k' : κ) (p : Nat) :
    (s.record k p).owned k' = if k' = k then s.owned k' ++ [p] else s.owned k' := by
  by_cases hk : k' = k
  · subst hk
    simp [VmState.owned, VmState.record]
  · simp [VmState.owned, VmState.record, hk]

/-- Two states with the same tables in the same places. -/
structure SameTrees (s t : VmState κ) : Prop where
  roots : ∀ k, (t.spaces k).pml4 = (s.spaces k).pml4
  entries : ∀ k π a, π.length ≤ 3 → s.table k π = some a → ∀ i, t.entry a i = s.entry a i

namespace SameTrees

/-- Tables stay when only pages without tables are written. -/
theorem of_memory (hroots : ∀ k, (t.spaces k).pml4 = (s.spaces k).pml4)
    (hmemory : ∀ p, ¬s.NoTable p → t.memory p = s.memory p) : SameTrees s t :=
  ⟨hroots, fun k π a hπ ha => entry_congr (hmemory a fun hno => hno k π hπ ha)⟩

section
variable (h : SameTrees s t)
include h

theorem table (hπ : π.length ≤ 3) : t.table k π = s.table k π :=
  table_congr (h.roots k) (fun π a hlt => h.entries k π a (by omega)) hπ

theorem leaf (k : κ) (va : Nat) : t.leaf k va = s.leaf k va :=
  leaf_congr (h.roots k) (h.entries k) va

theorem noTable (hp : s.NoTable p) : t.NoTable p := by
  intro k π hπ
  rw [h.table hπ]
  exact hp k π hπ

theorem trees (hs : Trees s) : Trees t := hs.congr h.roots h.entries

end

end SameTrees

theorem sameTrees_fill (hp : s.NoTable p) (content : Page) : SameTrees s (s.fill p content) := by
  refine .of_memory (fun _ => rfl) fun q hq => ?_
  have hne : q ≠ p := by
    rintro rfl
    exact hq hp
  simp [VmState.fill, hne]

theorem sameTrees_record [DecidableEq κ] (s : VmState κ) (k : κ) (p : Nat) :
    SameTrees s (s.record k p) := by
  refine .of_memory (fun k' => ?_) fun _ _ => rfl
  by_cases hk : k' = k
  · subst hk
    simp [VmState.record]
  · simp [VmState.record, hk]

theorem release_same (s : VmState κ) (p : Nat) :
    (s.release p).spaces = s.spaces ∧ (s.release p).memory = s.memory := by
  unfold VmState.release
  split_ifs <;> exact ⟨rfl, rfl⟩

theorem sameTrees_release (s : VmState κ) (p : Nat) : SameTrees s (s.release p) :=
  .of_memory (fun k => by rw [(release_same s p).1]) fun q _ => by rw [(release_same s p).2]

theorem mapped_setLeaf [DecidableEq κ] (h : Trees s) (ha : s.table k (path va) = some a)
    (hfits : e.Fits) (hin : inUser va = true) (hp : e.present = true) (k' : κ) (q : Nat) :
    (s.withEntry a (tableIndex va 0) e).mapped k' q =
      if k' = k then
        if q = e.page then insert (va / pageSize) (s.mapped k' q)
        else (s.mapped k' q).erase (va / pageSize)
      else s.mapped k' q := by
  have hva := inUser.lt hin
  have hleaf : ∀ v ∈ userPages, (s.withEntry a (tableIndex va 0) e).leaf k' (v * pageSize) =
      if k' = k ∧ v = va / pageSize then some e else s.leaf k' (v * pageSize) := by
    intro v hv
    have hv' : v * pageSize < 2 ^ 48 := by
      rw [userPages, mem_Ico, pageSize, userLimit] at hv
      rw [pageSize]
      omega
    have hdiv : v * pageSize / 4096 = v := by
      rw [pageSize]
      omega
    rw [h.leaf_setLeaf ha hfits hva hv', if_pos hp, hdiv]
    rfl
  ext v
  by_cases hv : v ∈ userPages
  · rw [mem_mapped, hleaf v hv]
    by_cases hk : k' = k
    · by_cases hpage : v = va / pageSize
      · rw [if_pos ⟨hk, hpage⟩, if_pos hk]
        by_cases hq : q = e.page
        · simp [hq, hpage, page_mem_userPages hin]
        · simp [hq, hpage, Ne.symm hq]
      · rw [if_neg (by simp [hpage]), if_pos hk]
        by_cases hq : q = e.page
        · simp [hq, hpage, mem_mapped]
        · simp [hq, hpage, mem_mapped]
    · rw [if_neg (by simp [hk]), if_neg hk, mem_mapped]
  · have hne : v ≠ va / pageSize := by
      rintro rfl
      exact hv (page_mem_userPages hin)
    have hnot : v ∉ s.mapped k' q := fun hmem => hv (mem_mapped.1 hmem).1
    simp only [mem_mapped, hv, false_and, false_iff]
    split_ifs <;> simp [hne, hnot]

variable [Fintype κ]

theorem recorded_congr (h : ∀ k, t.owned k = s.owned k) (p : Nat) :
    t.recorded p = s.recorded p := by
  simp only [VmState.recorded, h]

theorem count_le_recorded (s : VmState κ) (k : κ) (p : Nat) : (s.owned k).count p ≤ s.recorded p :=
  single_le_sum (f := fun k => (s.owned k).count p) (fun _ _ => Nat.zero_le _) (mem_univ k)

theorem recorded_pos (h : p ∈ s.owned k) : 0 < s.recorded p :=
  Nat.lt_of_lt_of_le (List.count_pos_iff.2 h) (count_le_recorded s k p)

namespace Sound

section
variable (h : Sound held pinned s)
include h

theorem recorded_le (p : Nat) : s.recorded p ≤ s.pageRefs p := by
  rw [h.counted]
  omega

theorem refs_of_mem (hp : p ∈ s.owned k) : 0 < s.pageRefs p :=
  Nat.lt_of_lt_of_le (recorded_pos hp) (h.recorded_le p)

theorem refs_of_held (hp : 0 < held p) : 0 < s.pageRefs p := by
  rw [h.counted]
  omega

section
variable (hin : inUser va = true) (he : s.leaf k va = some e)
include hin he

theorem owned_of_leaf : e.page ∈ s.owned k := by
  have hcard : 0 < (s.mapped k e.page).card := Finset.card_pos.2 ⟨_, page_mem_mapped hin he⟩
  exact List.count_pos_iff.1 (Nat.lt_of_lt_of_le hcard (h.uses k e.page))

theorem refs_of_leaf : 0 < s.pageRefs e.page := h.refs_of_mem (h.owned_of_leaf hin he)

end

theorem noTable_of_refs (hp : s.pageRefs p = 0) : s.NoTable p := by
  intro k π hπ ha
  have := (h.tables k π p hπ ha).2
  omega

theorem noTable_of_held (hp : 0 < held p) : s.NoTable p := by
  intro k π hπ ha
  obtain ⟨hmem, hrefs⟩ := h.tables k π p hπ ha
  have := recorded_pos hmem
  have := h.counted p
  omega

theorem refs_of_free (hp : s.pageState p = .free) : s.pageRefs p = 0 := by
  by_contra hne
  have := (h.reserved p (by omega)).2
  rw [hp] at this
  cases this

theorem ne_zero (hp : s.pageState p = .free) : p ≠ 0 := by
  rintro rfl
  exact h.null.2 hp

end

end Sound

variable {held' : Nat → Nat}

section
variable (h : Sound held pinned s)
include h

theorem Sound.of_sameTrees (hs : SameTrees s t)
    (howned : ∀ k p, (s.owned k).count p ≤ (t.owned k).count p)
    (htables : ∀ p, ¬s.NoTable p → t.pageRefs p = s.pageRefs p)
    (hcounted : ∀ p, t.pageRefs p = t.recorded p + held' p)
    (hreserved : ∀ p, 0 < t.pageRefs p → p < maxTrackedPages ∧ t.pageState p = .reserved)
    (hnull : t.pageRefs 0 = 0 ∧ t.pageState 0 ≠ .free)
    (halone : ∀ k va e, inUser va = true → s.leaf k va = some e → e.write = true →
      ¬pinned e.page → t.recorded e.page = 1)
    (hpins : ∀ p, pinned p → 0 < held' p) : Sound held' pinned t := by
  refine ⟨hs.trees h.toTrees, fun k π a hπ ha => ?_, hcounted, hreserved, hnull, fun k p => ?_,
    fun k va e hin he => ?_, fun k va e hin he => ?_, fun k va e hin he => ?_, hpins⟩
  · rw [hs.table hπ] at ha
    obtain ⟨hmem, hrefs⟩ := h.tables k π a hπ ha
    refine ⟨List.count_pos_iff.1 (Nat.lt_of_lt_of_le (List.count_pos_iff.2 hmem) (howned k a)), ?_⟩
    rw [htables a fun hno => hno k π hπ ha, hrefs]
  · rw [mapped_congr fun va _ => hs.leaf k va]
    exact (h.uses k p).trans (howned k p)
  · rw [hs.leaf] at he
    exact hs.noTable (h.apart k va e hin he)
  · rw [hs.leaf] at he
    exact halone k va e hin he
  · rw [hs.leaf] at he
    exact h.exclusive k va e hin he

/-! ## Allocation -/

/-- No page is free, or one is taken. -/
theorem Sound.allocPage_cases :
    (allocPage s = some (.error (), s) ∧ ∀ page < maxTrackedPages, s.pageState page ≠ .free) ∨
      ∃ page, s.pageState page = .free ∧ page < maxTrackedPages ∧
        allocPage s = some (.ok page, s.take page) := by
  cases hfind : (List.range maxTrackedPages).find? fun page => s.pageState page = .free with
  | none =>
    refine .inl ⟨by simp [allocPage, Prog.bind_apply, hfind], fun page hlt => ?_⟩
    simpa using List.find?_eq_none.1 hfind page (List.mem_range.2 hlt)
  | some page =>
    have hfree : s.pageState page = .free := by simpa using List.find?_some hfind
    have hlt : page < maxTrackedPages := List.mem_range.1 (List.mem_of_find?_eq_some hfind)
    refine .inr ⟨page, hfree, hlt, ?_⟩
    simp [allocPage, Prog.bind_apply, hfind, h.ne_zero hfree, VmState.take]

/-- An allocated page is in the hands of the code. -/
theorem Sound.take (hfree : s.pageState p = .free)
    (hlt : p < maxTrackedPages) : Sound (bump held p) pinned (s.take p) := by
  have hzero := h.refs_of_free hfree
  have hcount := h.counted p
  have hother : ∀ q, q ≠ p → (s.take p).pageRefs q = s.pageRefs q := fun q hq => by
    simp [VmState.take, hq]
  refine h.of_sameTrees (.of_memory (fun _ => rfl) fun _ _ => rfl) (fun _ _ => Nat.le_refl _)
    (fun q hq => hother q ?_) (fun q => ?_) (fun q hq => ?_) ?_ h.alone fun q hq => ?_
  · rintro rfl
    exact hq (h.noTable_of_refs hzero)
  · have hrecorded : (s.take p).recorded q = s.recorded q := rfl
    by_cases hqp : q = p
    · subst hqp
      rw [hrecorded, bump_self]
      simp only [VmState.take, Function.update_self]
      omega
    · rw [hother q hqp, hrecorded, bump_of_ne hqp]
      exact h.counted q
  · by_cases hqp : q = p
    · subst hqp
      exact ⟨hlt, by simp [VmState.take]⟩
    · rw [hother q hqp] at hq
      obtain ⟨hlt', hstate⟩ := h.reserved q hq
      exact ⟨hlt', by simp [VmState.take, hqp, hstate]⟩
  · have hne : (0 : Nat) ≠ p := (h.ne_zero hfree).symm
    refine ⟨(hother 0 hne).trans h.null.1, ?_⟩
    simp only [VmState.take, Function.update_of_ne hne]
    exact h.null.2
  · have := h.pins q hq
    by_cases hqp : q = p
    · subst hqp
      simp
    · rwa [bump_of_ne hqp]

theorem Sound.of_view (htrees : Trees t) (htable : ∀ k π, π.length ≤ 3 → t.table k π = s.table k π)
    (hleaf : ∀ k va, inUser va = true → t.leaf k va = s.leaf k va)
    (howned : ∀ k, t.owned k = s.owned k) (hstate : t.pageState = s.pageState)
    (hrefs : t.pageRefs = s.pageRefs) : Sound held pinned t := by
  have hrecorded : ∀ p, t.recorded p = s.recorded p := recorded_congr howned
  refine ⟨htrees, fun k π a hπ ha => ?_, fun p => ?_, fun p hp => ?_, ?_, fun k p => ?_,
    fun k va e hin he k' π hπ => ?_, fun k va e hin he hw hpin => ?_, fun k va e hin he => ?_,
    h.pins⟩
  · rw [htable k π hπ] at ha
    rw [howned, hrefs]
    exact h.tables k π a hπ ha
  · rw [hrefs, hrecorded]
    exact h.counted p
  · rw [hstate]
    rw [hrefs] at hp
    exact h.reserved p hp
  · rw [hrefs, hstate]
    exact h.null
  · rw [mapped_congr (hleaf k), howned]
    exact h.uses k p
  · rw [hleaf k va hin] at he
    rw [htable k' π hπ]
    exact h.apart k va e hin he k' π hπ
  · rw [hleaf k va hin] at he
    rw [hrecorded]
    exact h.alone k va e hin he hw hpin
  · rw [hleaf k va hin] at he
    exact h.exclusive k va e hin he

/-- Memory may change where it leaves the tables alone. -/
theorem Sound.write (hs : SameTrees s t)
    (howned : ∀ k, t.owned k = s.owned k) (hstate : t.pageState = s.pageState)
    (hrefs : t.pageRefs = s.pageRefs) : Sound held pinned t :=
  h.of_view (hs.trees h.toTrees) (fun _ _ => hs.table) (fun k va _ => hs.leaf k va) howned hstate
    hrefs

theorem Sound.fill (hp : s.NoTable p) (content : Page) : Sound held pinned (s.fill p content) :=
  h.write (sameTrees_fill hp content) (fun _ => rfl) rfl rfl

end

/-- A page that was in the hands of the code is given back. -/
theorem Sound.release (h : Sound (bump held p) pinned s) (hpin : pinned p → 0 < held p) :
    Sound held pinned (s.release p) := by
  have hcount := h.counted p
  rw [bump_self] at hcount
  obtain ⟨hlt, hstate⟩ := h.reserved p (by omega)
  have hspaces := (release_same s p).1
  have hrefs : ∀ q, (s.release p).pageRefs q = if q = p then s.pageRefs q - 1 else s.pageRefs q := by
    intro q
    rw [VmState.release, if_neg (by simp [hstate, hlt])]
    by_cases hmany : 1 < s.pageRefs p
    · rw [if_pos hmany]
      by_cases hq : q = p <;> simp [hq]
    · rw [if_neg hmany]
      by_cases hq : q = p
      · subst hq
        simp only [Function.update_self, if_true]
        omega
      · simp [hq]
  have hstates : ∀ q, (s.release p).pageState q =
      if q = p ∧ s.pageRefs p = 1 then .free else s.pageState q := by
    intro q
    rw [VmState.release, if_neg (by simp [hstate, hlt])]
    by_cases hmany : 1 < s.pageRefs p
    · rw [if_pos hmany, if_neg (by omega)]
    · rw [if_neg hmany]
      by_cases hq : q = p
      · subst hq
        rw [if_pos ⟨rfl, by omega⟩]
        simp
      · simp [hq]
  have hrecorded : ∀ q, (s.release p).recorded q = s.recorded q :=
    recorded_congr fun k => by rw [VmState.owned, VmState.owned, hspaces]
  refine h.of_sameTrees (sameTrees_release s p)
    (fun k q => by rw [VmState.owned, VmState.owned, hspaces]) (fun q hq => ?_) (fun q => ?_)
    (fun q hq => ?_) ?_ (fun k va e hin he hw hpin => ?_) fun q hq => ?_
  · rw [hrefs, if_neg]
    rintro rfl
    exact hq (h.noTable_of_held (by simp))
  · rw [hrefs, hrecorded]
    have := h.counted q
    by_cases hqp : q = p
    · subst hqp
      rw [if_pos rfl]
      omega
    · rw [bump_of_ne hqp] at this
      rw [if_neg hqp, this]
  · rw [hrefs] at hq
    rw [hstates]
    by_cases hqp : q = p
    · subst hqp
      rw [if_pos rfl] at hq
      rw [if_neg (by omega)]
      exact ⟨hlt, hstate⟩
    · rw [if_neg hqp] at hq
      rw [if_neg (by simp [hqp])]
      exact h.reserved q hq
  · have hne : (0 : Nat) ≠ p := by
      rintro rfl
      have := h.null.1
      omega
    rw [hrefs, hstates, if_neg hne, if_neg (by simp [hne])]
    exact h.null
  · rw [hrecorded]
    exact h.alone k va e hin he hw hpin
  · by_cases hqp : q = p
    · subst hqp
      exact hpin hq
    · have := h.pins q hq
      rwa [bump_of_ne hqp] at this

/-! ## Ownership -/

variable [DecidableEq κ]

theorem recorded_record (s : VmState κ) (k : κ) (p q : Nat) :
    (s.record k p).recorded q = s.recorded q + if q = p then 1 else 0 := by
  have hsum : ∀ k', ((s.record k p).owned k').count q =
      (s.owned k').count q + if k' = k then (if q = p then 1 else 0) else 0 := by
    intro k'
    rw [owned_record]
    by_cases hk : k' = k
    · rw [if_pos hk, if_pos hk, List.count_append, List.count_singleton]
      by_cases hqp : q = p
      · simp [hqp]
      · simp [hqp, Ne.symm hqp]
    · rw [if_neg hk, if_neg hk, Nat.add_zero]
  rw [VmState.recorded, sum_congr rfl fun k' _ => hsum k', sum_add_distrib,
    sum_ite_eq' Finset.univ k, if_pos (mem_univ k)]
  rfl

/-- A page in the hands of the code is recorded for a space, in which it is not writable where user
programs share it. -/
theorem Sound.record (h : Sound (bump held p) pinned s) (hpin : pinned p → 0 < held p)
    (hshared : pinned p ∨ ∀ k va e, inUser va = true → s.leaf k va = some e → e.write = true →
      e.page ≠ p) (k : κ) : Sound held pinned (s.record k p) := by
  have hroots : ∀ k', ((s.record k p).spaces k').pml4 = (s.spaces k').pml4 := by
    intro k'
    by_cases hk : k' = k
    · subst hk
      simp [VmState.record]
    · simp [VmState.record, hk]
  refine h.of_sameTrees (.of_memory hroots fun _ _ => rfl) (fun k' q => ?_) (fun _ _ => rfl)
    (fun q => ?_) h.reserved h.null (fun k' va e hin he hw hno => ?_) fun q hq => ?_
  · rw [owned_record]
    split_ifs
    · rw [List.count_append]
      exact Nat.le_add_right ..
    · exact Nat.le_refl _
  · have := h.counted q
    rw [recorded_record]
    by_cases hqp : q = p
    · subst hqp
      rw [bump_self] at this
      rw [if_pos rfl]
      exact this.trans (by omega)
    · rw [bump_of_ne hqp] at this
      rw [if_neg hqp]
      exact this
  · have hne : e.page ≠ p := by
      rcases hshared with hp | hp
      · rintro rfl
        exact hno hp
      · exact hp k' va e hin he hw
    rw [recorded_record, if_neg hne]
    exact h.alone k' va e hin he hw hno
  · by_cases hqp : q = p
    · subst hqp
      exact hpin hq
    · have := h.pins q hq
      rwa [bump_of_ne hqp] at this

/-! ## Tables and mappings -/

/-- An empty page that its space owns becomes a table. -/
theorem Sound.plant (h : Sound held pinned s) (hp : Plants s t k π a i b)
    (hspaces : t.spaces = s.spaces) (hstate : t.pageState = s.pageState)
    (hrefs : t.pageRefs = s.pageRefs) (hb : b ∈ s.owned k ∧ s.pageRefs b = 1)
    (hleaf : ∀ k va e, inUser va = true → s.leaf k va = some e → e.page ≠ b) :
    Sound held pinned t := by
  have howned : ∀ k, t.owned k = s.owned k := fun k => by rw [VmState.owned, VmState.owned, hspaces]
  have hrecorded : ∀ p, t.recorded p = s.recorded p := recorded_congr howned
  refine ⟨hp.trees h.toTrees, fun k' π' x hπ hx => ?_, fun p => ?_, fun p hpos => ?_, ?_,
    fun k' p => ?_, fun k' va e hin he => ?_, fun k' va e hin he hw hpin => ?_,
    fun k' va e hin he => ?_, h.pins⟩
  · rw [howned, hrefs]
    rw [hp.table h.toTrees hπ] at hx
    split_ifs at hx with hnew
    · obtain rfl := Option.some.inj hx
      rwa [hnew.1]
    · exact h.tables k' π' x hπ hx
  · rw [hrefs, hrecorded]
    exact h.counted p
  · rw [hstate]
    rw [hrefs] at hpos
    exact h.reserved p hpos
  · rw [hrefs, hstate]
    exact h.null
  · rw [mapped_congr fun va _ => hp.leaf h.toTrees va, howned]
    exact h.uses k' p
  · rw [hp.leaf h.toTrees] at he
    intro k₁ π₁ hπ hx
    rw [hp.table h.toTrees hπ] at hx
    split_ifs at hx with hnew
    · exact hleaf k' va e hin he (Option.some.inj hx).symm
    · exact h.apart k' va e hin he k₁ π₁ hπ hx
  · rw [hp.leaf h.toTrees] at he
    rw [hrecorded]
    exact h.alone k' va e hin he hw hpin
  · rw [hp.leaf h.toTrees] at he
    exact h.exclusive k' va e hin he

/-- The entry of an address is set and the references are counted anew. -/
theorem Sound.of_setLeaf (h : Sound held pinned s)
    (ha : s.table k (path va) = some a) (hfits : e.Fits) (hin : inUser va = true)
    (hp : e.present = true) (hu : e.user = true)
    (hs : SameTrees (s.withEntry a (tableIndex va 0) e) t)
    (htables : ∀ k' x, x ∈ s.owned k' → s.pageRefs x = 1 → ¬s.NoTable x →
      x ∈ t.owned k' ∧ t.pageRefs x = 1)
    (hcounted : ∀ p, t.pageRefs p = t.recorded p + held' p)
    (hreserved : ∀ p, 0 < t.pageRefs p → p < maxTrackedPages ∧ t.pageState p = .reserved)
    (hnull : t.pageRefs 0 = 0 ∧ t.pageState 0 ≠ .free)
    (huses : ∀ k' q, ((s.withEntry a (tableIndex va 0) e).mapped k' q).card ≤ (t.owned k').count q)
    (hno : s.NoTable e.page) (hnew : e.write = true → ¬pinned e.page → t.recorded e.page = 1)
    (hold : ∀ k' va' e', inUser va' = true → s.leaf k' va' = some e' →
      ¬(k' = k ∧ va' / 4096 = va / 4096) → e'.write = true → ¬pinned e'.page →
      t.recorded e'.page = 1)
    (hexclusive : e.write = true → e.cow = false) (hpins : ∀ p, pinned p → 0 < held' p) :
    Sound held' pinned t := by
  have hva := inUser.lt hin
  have htrees := h.setLeaf ha hfits hva (hu.trans hin.symm)
  have htable : ∀ k' π, π.length ≤ 3 → t.table k' π = s.table k' π := fun k' π hπ =>
    (hs.table hπ).trans (h.table_setLeaf ha hfits hπ)
  have hleaf : ∀ k' va', inUser va' = true → t.leaf k' va' =
      if k' = k ∧ va' / 4096 = va / 4096 then some e else s.leaf k' va' := fun k' va' hin' => by
    rw [hs.leaf, h.leaf_setLeaf ha hfits hva (inUser.lt hin'), if_pos hp]
  refine ⟨hs.trees htrees, fun k' π x hπ hx => ?_, hcounted, hreserved, hnull, fun k' q => ?_,
    fun k' va' e' hin' he' => ?_, fun k' va' e' hin' he' => ?_, fun k' va' e' hin' he' => ?_, hpins⟩
  · rw [htable k' π hπ] at hx
    obtain ⟨hmem, hrefs⟩ := h.tables k' π x hπ hx
    exact htables k' x hmem hrefs fun hno => hno k' π hπ hx
  · rw [mapped_congr fun va _ => hs.leaf k' va]
    exact huses k' q
  · intro k₁ π₁ hπ
    rw [htable k₁ π₁ hπ]
    rw [hleaf k' va' hin'] at he'
    split_ifs at he' with hsame
    · obtain rfl := Option.some.inj he'
      exact hno k₁ π₁ hπ
    · exact h.apart k' va' e' hin' he' k₁ π₁ hπ
  · rw [hleaf k' va' hin'] at he'
    split_ifs at he' with hsame
    · obtain rfl := Option.some.inj he'
      exact hnew
    · exact hold k' va' e' hin' he' hsame
  · rw [hleaf k' va' hin'] at he'
    split_ifs at he' with hsame
    · obtain rfl := Option.some.inj he'
      exact hexclusive
    · exact h.exclusive k' va' e' hin' he'

/-- A page in the hands of the code is mapped and recorded. It is pinned, or user programs can write
to it in no other place, and here only when it is recorded nowhere else. -/
theorem Sound.install (h : Sound (bump held e.page) pinned s) (ha : s.table k (path va) = some a)
    (hfits : e.Fits) (hin : inUser va = true) (hp : e.present = true) (hu : e.user = true)
    (hpin : pinned e.page → 0 < held e.page)
    (hshared : pinned e.page ∨ (e.write = true → s.recorded e.page = 0) ∧
      ∀ k va e', inUser va = true → s.leaf k va = some e' → e'.write = true → e'.page ≠ e.page)
    (hexclusive : e.write = true → e.cow = false) :
    Sound held pinned ((s.withEntry a (tableIndex va 0) e).record k e.page) := by
  have hrecorded : ∀ q, ((s.withEntry a (tableIndex va 0) e).record k e.page).recorded q =
      s.recorded q + if q = e.page then 1 else 0 := fun q => recorded_record _ k e.page q
  have howned : ∀ k', ((s.withEntry a (tableIndex va 0) e).record k e.page).owned k' =
      if k' = k then s.owned k' ++ [e.page] else s.owned k' := fun k' => owned_record _ k k' e.page
  refine h.of_setLeaf ha hfits hin hp hu (sameTrees_record _ k e.page) (fun k' x hx hrefs _ => ?_)
    (fun q => ?_) h.reserved h.null (fun k' q => ?_) (h.noTable_of_held (by simp))
    (fun hw hno => ?_) (fun k' va' e' hin' he' _ hw hno => ?_) hexclusive fun q hq => ?_
  · refine ⟨?_, hrefs⟩
    rw [howned]
    split_ifs
    · exact List.mem_append_left _ hx
    · exact hx
  · have := h.counted q
    rw [hrecorded]
    by_cases hq : q = e.page
    · subst hq
      rw [bump_self] at this
      rw [if_pos rfl]
      exact this.trans (by omega)
    · rw [bump_of_ne hq] at this
      rw [if_neg hq]
      exact this
  · have huses := h.uses k' q
    rw [mapped_setLeaf h.toTrees ha hfits hin hp, howned]
    by_cases hk : k' = k
    · rw [if_pos hk, if_pos hk, List.count_append, List.count_singleton]
      by_cases hq : q = e.page
      · subst hq
        have := card_insert_le (va / pageSize) (s.mapped k' e.page)
        simp only [beq_self_eq_true, if_true]
        omega
      · rw [if_neg hq]
        have := card_erase_le (s := s.mapped k' q) (a := va / pageSize)
        omega
    · rw [if_neg hk, if_neg hk]
      exact huses
  · obtain hpinned | ⟨hzero, -⟩ := hshared
    · exact absurd hpinned hno
    · rw [hrecorded, if_pos rfl, hzero hw]
  · have hne : e'.page ≠ e.page := by
      rcases hshared with hpinned | ⟨-, hother⟩
      · intro heq
        exact hno (heq ▸ hpinned)
      · exact hother k' va' e' hin' he' hw
    rw [hrecorded, if_neg hne]
    exact h.alone k' va' e' hin' he' hw hno
  · by_cases hqp : q = e.page
    · subst hqp
      exact hpin hq
    · have := h.pins q hq
      rwa [bump_of_ne hqp] at this

end RadKernel.Vm
