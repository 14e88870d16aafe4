import RadKernel.Vm.Spaces

/-!
# Address spaces that fork

The child sees the pages of its parent. A page that the parent could write to is marked in both
spaces, to be copied before the next write.
-/

namespace RadKernel.Vm

open Prog

variable {κ : Type} {s t u : VmState κ} {held : Nat → Nat} {pinned : Nat → Prop}
  {k k' child parent : κ} {π : List Nat} {done : List Nat} {a b i n p va va' : Nat} {e e' : Pte}

/-! ## Entries -/

/-- What `x86_vm_clone_cow` makes of an entry. -/
def Pte.forked (e : Pte) : Pte := if e.write then { e with write := false, cow := true } else e

@[simp] theorem Pte.forked_page (e : Pte) : e.forked.page = e.page := by
  rw [Pte.forked]
  split_ifs <;> rfl

@[simp] theorem Pte.forked_present (e : Pte) : e.forked.present = e.present := by
  rw [Pte.forked]
  split_ifs <;> rfl

@[simp] theorem Pte.forked_user (e : Pte) : e.forked.user = e.user := by
  rw [Pte.forked]
  split_ifs <;> rfl

@[simp] theorem Pte.forked_write (e : Pte) : e.forked.write = false := by
  rw [Pte.forked]
  split_ifs with h
  · rfl
  · simpa using h

theorem Pte.forked_of_not_write (h : e.write = false) : e.forked = e := by
  rw [Pte.forked, if_neg (by simp [h])]

/-- Marking an entry twice marks it. -/
@[simp] theorem Pte.forked_forked (e : Pte) : e.forked.forked = e.forked :=
  Pte.forked_of_not_write e.forked_write

section

variable [Fintype κ]

theorem count_add_count_le (s : VmState κ) (hk : k ≠ k') (p : Nat) :
    (s.owned k).count p + (s.owned k').count p ≤ s.recorded p := by
  classical
  have hsub : ({k, k'} : Finset κ) ⊆ Finset.univ := Finset.subset_univ _
  have hle := Finset.sum_le_sum_of_subset (f := fun k => (s.owned k).count p) hsub
  rwa [Finset.sum_pair hk] at hle

/-- A page that is writable and not pinned is mapped in one place. -/
theorem Sound.sole_of_write (h : Sound held pinned s) (hin : inUser va = true)
    (hin' : inUser va' = true) (he : s.leaf k va = some e) (he' : s.leaf k' va' = some e')
    (hpage : e.page = e'.page) (hw : e'.write = true) (hno : ¬pinned e'.page) :
    k = k' ∧ va / 4096 = va' / 4096 := by
  have hone := h.alone k' va' e' hin' he' hw hno
  by_cases hk : k = k'
  · subst hk
    refine ⟨rfl, ?_⟩
    by_contra hne
    have hmem := page_mem_mapped hin he
    have hmem' := page_mem_mapped hin' he'
    rw [hpage] at hmem
    have hcard := Finset.one_lt_card.2 ⟨_, hmem, _, hmem', hne⟩
    have := h.uses k e'.page
    have := count_le_recorded s k e'.page
    omega
  · exfalso
    have hown := List.count_pos_iff.2 (h.owned_of_leaf hin he)
    have hown' := List.count_pos_iff.2 (h.owned_of_leaf hin' he')
    rw [hpage] at hown
    have := count_add_count_le s hk e'.page
    omega

end

variable [Fintype κ] [DecidableEq κ]

/-- The flags of an entry change and its page stays. -/
theorem Sound.relabel (h : Sound held pinned s) (ha : s.table k (path va) = some a)
    (hin : inUser va = true) (he : s.leaf k va = some e) (hpage : e'.page = e.page)
    (hp : e'.present = true) (hu : e'.user = true)
    (hw : e'.write = true → ¬pinned e'.page → s.recorded e'.page = 1)
    (hexclusive : e'.write = true → e'.cow = false) :
    Sound held pinned (s.withEntry a (tableIndex va 0) e') := by
  have hfits : e'.Fits := by
    obtain ⟨_, -, rfl, -⟩ := leaf_eq_some.1 he
    rw [Pte.Fits, hpage]
    exact entry_fits s _ _
  have hmapped : ∀ k' q, (s.withEntry a (tableIndex va 0) e').mapped k' q ⊆ s.mapped k' q := by
    intro k' q
    rw [mapped_setLeaf h.toTrees ha hfits hin hp]
    split_ifs with hk hq
    · rw [hk, hq, hpage, Finset.insert_eq_of_mem (page_mem_mapped hin he)]
    · exact Finset.erase_subset _ _
    · exact subset_rfl
  refine h.of_setLeaf ha hfits hin hp hu ⟨fun _ => rfl, fun _ _ _ _ _ _ => rfl⟩
    (fun k' x hx hrefs _ => ⟨hx, hrefs⟩) h.counted h.reserved h.null
    (fun k' q => (Finset.card_le_card (hmapped k' q)).trans (h.uses k' q)) ?_ hw
    (fun k' va' e₁ hin' he' _ => h.alone k' va' e₁ hin' he') hexclusive h.pins
  rw [hpage]
  exact h.apart k va e hin he

/-- What changes when an entry gets other flags. -/
structure Relabels (k : κ) (va : Nat) (e : Pte) (s t : VmState κ) : Prop where
  leaf : ∀ k' va', va' < 2 ^ 48 →
    t.leaf k' va' = if k' = k ∧ va' / 4096 = va / 4096 then some e else s.leaf k' va'
  table : ∀ k' π, π.length ≤ 3 → t.table k' π = s.table k' π
  memory : ∀ p, s.NoTable p → t.memory p = s.memory p
  spaces : t.spaces = s.spaces
  refs : t.pageRefs = s.pageRefs
  state : t.pageState = s.pageState

omit [Fintype κ] in
theorem relabels_withEntry (h : Trees s) (ha : s.table k (path va) = some a)
    (hin : inUser va = true) (hfits : e.Fits) (hp : e.present = true) :
    Relabels k va e s (s.withEntry a (tableIndex va 0) e) := by
  refine ⟨fun k' va' hva' => ?_, fun k' π hπ => h.table_setLeaf ha hfits hπ, fun p hno => ?_,
    rfl, rfl, rfl⟩
  · rw [h.leaf_setLeaf ha hfits (inUser.lt hin) hva', if_pos hp]
  · refine memory_withEntry ?_
    rintro rfl
    exact hno k (path va) (by simp) ha

/-! ## One page -/

/-- What `clonePage` does once the entry of the parent is set. -/
def sharePage (child : κ) (virtualAddress : Nat) (e : Pte) : VmM κ PUnit := do
  retainPage e.page
  let mapped ← Prog.attempt do
    mapPage child virtualAddress e.page e
    recordOwnedPage child e.page
  match mapped with
  | .ok _ => return ()
  | .error _ =>
    freePage e.page
    Prog.fail ()

omit [Fintype κ] in
theorem clonePage_of_none (h : s.walkUserLeaf parent va = none) :
    clonePage child parent va s = some (.ok ⟨⟩, s) := by
  rw [clonePage, bind_of_ok (read_apply s), h]
  rfl

omit [Fintype κ] in
theorem clonePage_of_some (h : s.walkUserLeaf parent va = some (a, e)) :
    clonePage child parent va s = sharePage child va e.forked
      (if e.write then s.withEntry a (tableIndex va 0) e.forked else s) := by
  rw [clonePage, bind_of_ok (read_apply s), h]
  dsimp only
  cases hw : e.write with
  | true =>
    have hf : e.forked = { e with write := false, cow := true } := by rw [Pte.forked, if_pos hw]
    rw [if_pos rfl, if_pos rfl, if_pos rfl, hf, bind_of_ok (setEntry_apply s)]
    rfl
  | false =>
    rw [if_neg (by simp), if_neg (by simp), if_neg (by simp), Pte.forked_of_not_write hw]
    rfl

/-- An entry is set in a space that is given up. -/
theorem Sound.cut_withEntry (h : Sound held pinned s) (ha : s.table k π = some a)
    (hπ : π.length ≤ 3) (i : Nat) (e : Pte) :
    Sound (fun p => held p + ((s.withEntry a i e).owned k).count p) pinned
      ((s.withEntry a i e).cut k) := by
  have hno : (s.cut k).NoTable a := by
    intro k' π' hπ' ha'
    rw [table_cut] at ha'
    split_ifs at ha' with hk
    exact hk (h.distinct k' π' k π a hπ' hπ ha' ha).1
  refine (h.cut k).write (.of_memory (fun _ => rfl) fun p hp => memory_withEntry ?_)
    (fun _ => rfl) rfl rfl
  rintro rfl
  exact hp hno

theorem Sound.marked (h : Sound held pinned s) (ha : s.table k (path va) = some a)
    (hin : inUser va = true) (he : s.leaf k va = some e) :
    Sound held pinned (if e.write then s.withEntry a (tableIndex va 0) e.forked else s) ∧
      Relabels k va e.forked s (if e.write then s.withEntry a (tableIndex va 0) e.forked else s) := by
  have hp : e.forked.present = true := by
    obtain ⟨_, -, -, hp⟩ := leaf_eq_some.1 he
    rwa [e.forked_present]
  have hu : e.forked.user = true := by rw [e.forked_user, h.leaf_user k va e (inUser.lt hin) he, hin]
  have hfits : e.forked.Fits := by
    obtain ⟨_, -, rfl, -⟩ := leaf_eq_some.1 he
    rw [Pte.Fits, Pte.forked_page]
    exact entry_fits s _ _
  split_ifs with hw
  · exact ⟨h.relabel ha hin he e.forked_page hp hu (by simp) (by simp),
      relabels_withEntry h.toTrees ha hin hfits hp⟩
  · refine ⟨h, fun k' va' _ => ?_, fun _ _ _ => rfl, fun _ _ => rfl, rfl, rfl, rfl⟩
    split_ifs with hsame
    · rw [hsame.1, leaf_page s k hsame.2, he, Pte.forked_of_not_write (by simpa using hw)]
    · rfl

omit [DecidableEq κ] [Fintype κ] in
theorem release_withEntry (s : VmState κ) (a i p : Nat) (e : Pte) :
    (s.withEntry a i e).release p = (s.release p).withEntry a i e := by
  unfold VmState.release VmState.withEntry
  split_ifs <;> rfl

/-- A page that user programs cannot write to is shared with the child. -/
theorem sharePage_spec (child : κ) (h : Sound held pinned s) (hin : inUser va = true)
    (haligned : va % pageSize = 0) (he : s.leaf parent va = some e) (hw : e.write = false)
    (hsole : ∀ k' va' e', inUser va' = true → s.leaf k' va' = some e' → e'.write = true →
      e'.page ≠ e.page ∨ pinned e.page) (hwrap : s.pageRefs e.page + 1 < 2 ^ 16) :
    (∃ t n, sharePage child va e s = some (.ok ⟨⟩, t) ∧ Sound held pinned t ∧
      Installs child va e n n (s.retain e.page) t ∧ n ≤ 3) ∨
    ∃ t, sharePage child va e s = some (.error (), t) ∧
      Sound (fun p => held p + (t.owned child).count p) pinned (t.cut child) ∧
      Beside child s t ∧
      ((s.spaces child).pml4 ≠ 0 → s.freePages < 3 ∨ s.room child ≤ 3) := by
  have hpos := h.refs_of_leaf hin he
  have hno := h.apart parent va e hin he
  have hs := h.retain hpos hwrap hno
  have hlt : e.page < 2 ^ 40 := by
    have := (h.reserved _ hpos).1
    rw [maxTrackedPages] at this
    omega
  obtain ⟨_, -, -, hp⟩ := leaf_eq_some.1 he
  have hu := h.leaf_user parent va e (inUser.lt hin) he
  have hmapping : e.mapping e.page = e := by
    cases e
    simp_all [Pte.mapping]
  have hshared : pinned e.page ∨ (e.write = true → (s.retain e.page).recorded e.page = 0) ∧
      ∀ k va e', inUser va = true → (s.retain e.page).leaf k va = some e' → e'.write = true →
        e'.page ≠ e.page := by
    by_cases hpin : pinned e.page
    · exact .inl hpin
    · refine .inr ⟨by simp [hw], fun k' va' e' hin' he' hw' => ?_⟩
      exact (hsole k' va' e' hin' he' hw').resolve_right hpin
  have hdown : alignDown va pageSize = va := by
    rw [alignDown, Nat.div_mul_cancel (Nat.dvd_of_mod_eq_zero haligned)]
  have hrun : ∀ r u, mapRecord child va e.page e (s.retain e.page) = some (r, u) →
      sharePage child va e s =
        match r with
        | .ok _ => some (.ok ⟨⟩, u)
        | .error _ => some (.error (), u.release e.page) := by
    intro r u hru
    rw [mapRecord, hdown] at hru
    rw [sharePage, bind_of_ok (h.retainPage_apply hpos), bind_of_ok (attempt_of hru)]
    cases r <;> rfl
  have hmissing := missing_le (s.retain e.page) child va
  obtain ⟨t, run, ht, g⟩ | ⟨t, n, run, ht, g, hfull⟩ | ⟨t, pt, run, ht, g, hpt, hfull⟩ :=
    mapRecord_cases hs hin (hu.trans hin) hlt (h.pins _) hshared (by simp [hw])
  · rw [hmapping] at g
    exact .inl ⟨t, _, hrun _ _ run, ht, g, hmissing⟩
  · obtain ⟨hrelease, hgrown⟩ := h.grown_release_retain hpos hwrap ht g
    refine .inr ⟨t.release e.page, hrun _ _ run, hrelease.cut child, hgrown.beside, fun hroot => ?_⟩
    have hfull : s.freePages < _ ∨ s.room child < _ := hfull hroot
    omega
  · -- the entry is in a table of the child, which is given up
    obtain ⟨hrelease, hgrown⟩ := h.grown_release_retain hpos hwrap ht g
    rw [hmapping] at run
    have hpt' : (t.release e.page).table child (path va) = some pt := by
      obtain ⟨hmemory, hspaces⟩ := release_memory t e.page
      have hsame : SameTrees t (t.release e.page) :=
        .of_memory (fun k' => by rw [hspaces]) fun q _ => by rw [hmemory]
      rw [hsame.table (by simp), hpt]
    have hfits : e.Fits := hlt
    have hfail := hrun _ _ run
    rw [release_withEntry] at hfail
    have hroom : (s.retain e.page).missing child va = s.room child := hfull
    refine .inr ⟨_, hfail, hrelease.cut_withEntry hpt' (by simp) _ _, hgrown.beside.trans ?_,
      fun _ => .inr (by omega)⟩
    refine beside_withEntry hpt' (by simp) (fun k' π hπ => hrelease.table_setLeaf hpt' hfits hπ)
      fun k' va' hk hin' => ?_
    rw [hrelease.leaf_setLeaf hpt' hfits (inUser.lt hin) (inUser.lt hin'), if_neg (by simp [hk])]

/-! ## All pages -/

omit [Fintype κ] in
theorem Installs.beside {m : Nat} (g : Installs k va e n m s t) : Beside k s t where
  leaf k' va' hk hin := by rw [g.leaf k' va' (inUser.lt hin), if_neg (by simp [hk])]
  table k' π hk hπ := g.other k' π hπ fun heq => absurd heq hk
  memory := g.memory
  refs := g.refs
  noTable := g.noTable
  spaces k' hk := by
    have hroot := g.roots k'
    have howned := g.owned k' hk
    cases ht : t.spaces k'
    cases hs : s.spaces k'
    simp_all [VmState.owned]

/-- The parent's pages in the list are marked, and nobody but the child sees more. -/
structure Cloning (child parent : κ) (done : List Nat) (s t : VmState κ) : Prop where
  leaf : ∀ k' va, k' ≠ child → inUser va = true → t.leaf k' va =
    if k' = parent ∧ alignDown va pageSize ∈ done then (s.leaf k' va).map Pte.forked
    else s.leaf k' va
  table : ∀ k' π, k' ≠ child → π.length ≤ 3 → t.table k' π = s.table k' π
  memory : ∀ p, 0 < s.pageRefs p → s.NoTable p → t.memory p = s.memory p
  refs : ∀ p, 0 < s.pageRefs p → 0 < t.pageRefs p
  noTable : ∀ p, 0 < s.pageRefs p → s.NoTable p → t.NoTable p
  spaces : ∀ k', k' ≠ child → t.spaces k' = s.spaces k'

/-- How often a page is mapped at one of the addresses. -/
def VmState.uses (s : VmState κ) (k : κ) (l : List Nat) (page : Nat) : Nat :=
  l.countP fun va => (s.leaf k va).map Pte.page = some page

/-- The child has the pages in the list. -/
structure Cloned (child parent : κ) (done : List Nat) (s t : VmState κ) : Prop
    extends Cloning child parent done s t where
  root : (t.spaces child).pml4 ≠ 0
  window : ∀ va, inUser va = true → t.leaf child va =
    if alignDown va pageSize ∈ done then (s.leaf parent va).map Pte.forked else none
  counts : ∀ p, 0 < s.pageRefs p → t.pageRefs p = s.pageRefs p + s.uses parent done p

omit [Fintype κ] in
theorem Cloned.begin (hroot : (t.spaces child).pml4 ≠ 0)
    (hwindow : ∀ va, inUser va = true → t.leaf child va = none) : Cloned child parent [] t t := by
  refine ⟨⟨fun _ _ _ _ => by simp, fun _ _ _ _ => rfl, fun _ _ _ => rfl, fun _ hp => hp,
    fun _ _ hno => hno, fun _ _ => rfl⟩, hroot, fun va hin => ?_, fun p _ => ?_⟩
  · rw [hwindow va hin, if_neg (by simp)]
  · simp [VmState.uses]

omit [DecidableEq κ] [Fintype κ] in
theorem alignDown_eq_iff (h : va % pageSize = 0) :
    alignDown va' pageSize = va ↔ va' / 4096 = va / 4096 := by
  rw [alignDown]
  rw [pageSize] at h ⊢
  omega

omit [DecidableEq κ] [Fintype κ] in
theorem alignDown_mem (h : va % pageSize = 0) :
    alignDown va' pageSize ∈ done ++ [va] ↔
      alignDown va' pageSize ∈ done ∨ va' / 4096 = va / 4096 := by
  rw [List.mem_append, List.mem_singleton, alignDown_eq_iff h]

omit [DecidableEq κ] [Fintype κ] in
theorem forked_map_eq_none {o : Option Pte} : o.map Pte.forked = none ↔ o = none := by simp

omit [Fintype κ] in
/-- An address without an entry has none before, either. -/
theorem Cloning.leaf_none (g : Cloning child parent done s t) (hne : parent ≠ child)
    (hin : inUser va = true) : t.leaf parent va = none ↔ s.leaf parent va = none := by
  rw [g.leaf parent va hne hin]
  split_ifs
  · exact forked_map_eq_none
  · rfl

omit [Fintype κ] in
theorem Cloning.leaf_forked (g : Cloning child parent done s t) (hne : parent ≠ child)
    (hin : inUser va = true) :
    (t.leaf parent va).map Pte.forked = (s.leaf parent va).map Pte.forked := by
  rw [g.leaf parent va hne hin]
  split_ifs
  · rw [Option.map_map]
    congr 1
    funext e
    exact e.forked_forked
  · rfl

omit [Fintype κ] in
theorem Cloning.skip (g : Cloning child parent done s t) (hne : parent ≠ child)
    (haligned : va % pageSize = 0) (hnone : t.leaf parent va = none) :
    Cloning child parent (done ++ [va]) s t := by
  refine ⟨fun k' va' hk hin => ?_, g.table, g.memory, g.refs, g.noTable, g.spaces⟩
  by_cases hpage : k' = parent ∧ va' / 4096 = va / 4096
  · obtain ⟨rfl, hpage⟩ := hpage
    have hs : s.leaf k' va' = none := by
      rw [← g.leaf_none hne hin, leaf_page t k' hpage, hnone]
    rw [if_pos ⟨rfl, (alignDown_mem haligned).2 (.inr hpage)⟩, leaf_page t k' hpage, hnone, hs]
    rfl
  · rw [g.leaf k' va' hk hin]
    refine if_congr (and_congr_right fun heq => ?_) rfl rfl
    rw [alignDown_mem haligned]
    exact ⟨.inl, fun h => h.resolve_right fun h => hpage ⟨heq, h⟩⟩

omit [Fintype κ] in
theorem Cloning.step {t₁ t₂ : VmState κ} (g : Cloning child parent done s t)
    (haligned : va % pageSize = 0) (he : t.leaf parent va = some e)
    (r : Relabels parent va e.forked t t₁) (hmemory : t₂.memory = t₁.memory)
    (hspaces : t₂.spaces = t₁.spaces) (hrefs : ∀ p, 0 < t₁.pageRefs p → 0 < t₂.pageRefs p)
    (b : Beside child t₂ u) : Cloning child parent (done ++ [va]) s u := by
  have hsame : SameTrees t₁ t₂ := .of_memory (fun k' => by rw [hspaces]) fun _ _ => by rw [hmemory]
  have hpos : ∀ p, 0 < s.pageRefs p → 0 < t₂.pageRefs p := fun p hp =>
    hrefs p (by rw [r.refs]; exact g.refs p hp)
  have hno : ∀ p, 0 < s.pageRefs p → s.NoTable p → t₁.NoTable p := fun p hp hno k' π hπ => by
    rw [r.table k' π hπ]
    exact g.noTable p hp hno k' π hπ
  refine ⟨fun k' va' hk hin => ?_, fun k' π hk hπ => ?_, fun p hp hn => ?_, fun p hp => ?_,
    fun p hp hn => b.noTable p (hpos p hp) (hsame.noTable (hno p hp hn)), fun k' hk => ?_⟩
  · rw [b.leaf k' va' hk hin, hsame.leaf, r.leaf k' va' (inUser.lt hin)]
    by_cases hpage : k' = parent ∧ va' / 4096 = va / 4096
    · obtain ⟨rfl, hpage⟩ := hpage
      rw [if_pos ⟨rfl, hpage⟩, if_pos ⟨rfl, (alignDown_mem haligned).2 (.inr hpage)⟩,
        ← g.leaf_forked hk hin, leaf_page t k' hpage, he]
      rfl
    · rw [if_neg hpage, g.leaf k' va' hk hin]
      refine if_congr (and_congr_right fun heq => ?_) rfl rfl
      rw [alignDown_mem haligned]
      exact ⟨.inl, fun h => h.resolve_right fun h => hpage ⟨heq, h⟩⟩
  · rw [b.table k' π hk hπ, hsame.table hπ, r.table k' π hπ, g.table k' π hk hπ]
  · rw [b.memory p (hpos p hp) (hsame.noTable (hno p hp hn)), hmemory,
      r.memory p (g.noTable p hp hn), g.memory p hp hn]
  · rw [b.refs p (hpos p hp)]
    exact hpos p hp
  · rw [b.spaces k' hk, hspaces, r.spaces, g.spaces k' hk]

/-- One address of the loop. -/
theorem clonePage_spec (h : Sound held pinned t) (g : Cloned child parent done s t)
    (hne : parent ≠ child) (hs : ∀ va e, inUser va = true → s.leaf parent va = some e →
      0 < s.pageRefs e.page) (hin : inUser va = true) (haligned : va % pageSize = 0)
    (hwrap : ∀ p, 0 < s.uses parent (done ++ [va]) p →
      s.pageRefs p + s.uses parent (done ++ [va]) p < 2 ^ 16) :
    (∃ u, clonePage child parent va t = some (.ok ⟨⟩, u) ∧ Sound held pinned u ∧
      Cloned child parent (done ++ [va]) s u ∧ (t.leaf parent va = none → u = t) ∧
      t.freePages ≤ u.freePages + 3) ∨
    ∃ u, clonePage child parent va t = some (.error (), u) ∧
      Sound (fun p => held p + (u.owned child).count p) pinned (u.cut child) ∧
      Cloning child parent (done ++ [va]) s u ∧ t.leaf parent va ≠ none ∧
      (t.freePages < 3 ∨ t.room child ≤ 3) := by
  have hwalk := h.walkUserLeaf (k := parent) hin
  have huses : ∀ p, s.uses parent (done ++ [va]) p = s.uses parent done p +
      if (s.leaf parent va).map Pte.page = some p then 1 else 0 := fun p => by
    simp [VmState.uses, List.countP_append, List.countP_cons]
  cases he : t.leaf parent va with
  | none =>
    have hnone : t.walkUserLeaf parent va = none := by
      rw [hwalk, he]
      cases t.table parent (path va) <;> rfl
    have hs' : s.leaf parent va = none := (g.leaf_none hne hin).1 he
    refine .inl ⟨t, clonePage_of_none hnone, h, ⟨g.toCloning.skip hne haligned he, g.root,
      fun va' hin' => ?_, fun p hp => ?_⟩, fun _ => rfl, Nat.le_add_right _ _⟩
    · rw [g.window va' hin']
      by_cases hpage : va' / 4096 = va / 4096
      · rw [leaf_page s parent hpage, hs']
        simp
      · simp only [alignDown_mem haligned, hpage, or_false]
    · rw [g.counts p hp, huses, hs']
      simp
  | some e =>
    obtain ⟨a, ha, -, hp⟩ := leaf_eq_some.1 he
    have hsome : t.walkUserLeaf parent va = some (a, e) := by
      rw [hwalk, he, ha]
      rfl
    obtain ⟨hmarked, r⟩ := h.marked ha hin he
    rw [clonePage_of_some hsome]
    generalize (if e.write then t.withEntry a (tableIndex va 0) e.forked else t) = t₁ at hmarked r
    have hfree : t₁.freePages = t.freePages := freePages_congr r.state
    have hspace : t₁.room child = t.room child := by
      rw [VmState.room, VmState.room, VmState.owned, VmState.owned, r.spaces]
    have he₁ : t₁.leaf parent va = some e.forked := by
      rw [r.leaf parent va (inUser.lt hin), if_pos ⟨rfl, rfl⟩]
    have hpage : (s.leaf parent va).map Pte.page = some e.page := by
      have hleaf := g.leaf_forked hne hin
      rw [he] at hleaf
      obtain ⟨e₀, he₀, hf⟩ := Option.map_eq_some_iff.1 hleaf.symm
      rw [he₀, Option.map_some, ← e₀.forked_page, hf, e.forked_page]
    have hrefs : t₁.pageRefs e.page + 1 < 2 ^ 16 := by
      obtain ⟨e₀, he₀, hpage₀⟩ := Option.map_eq_some_iff.1 hpage
      have hpos := hs va e₀ hin he₀
      have := hwrap e.page (by rw [huses, hpage, if_pos rfl]; omega)
      rw [huses, hpage, if_pos rfl] at this
      rw [hpage₀] at hpos
      rw [r.refs, g.counts e.page hpos]
      omega
    have hsole : ∀ k' va' e', inUser va' = true → t₁.leaf k' va' = some e' → e'.write = true →
        e'.page ≠ e.forked.page ∨ pinned e.forked.page := by
      intro k' va' e' hin' he' hw'
      rw [r.leaf k' va' (inUser.lt hin')] at he'
      split_ifs at he' with hsame
      · obtain rfl := Option.some.inj he'
        simp at hw'
      · by_contra hcon
        rw [not_or, not_not, e.forked_page] at hcon
        obtain ⟨hpage', hpin⟩ := hcon
        rw [← hpage'] at hpin
        obtain ⟨hk, hva⟩ := h.sole_of_write hin hin' he he' hpage'.symm hw' hpin
        exact hsame ⟨hk.symm, hva.symm⟩
    rw [← e.forked_page] at hrefs
    obtain ⟨u, n, run, hu, gu, hn⟩ | ⟨u, run, hu, gu, hfull⟩ :=
      sharePage_spec child hmarked hin haligned he₁ e.forked_write hsole hrefs
    · have hretain : ∀ p, (t₁.retain e.forked.page).pageRefs p =
          t₁.pageRefs p + if p = e.page then 1 else 0 := fun p => by
        by_cases hpe : p = e.page
        · rw [hpe, if_pos rfl, ← e.forked_page, refs_retain_self hrefs]
        · rw [if_neg hpe, refs_retain_of_ne _ _ _ (by rwa [e.forked_page]), Nat.add_zero]
      have hmemory : (t₁.retain e.forked.page).memory = t₁.memory := rfl
      have hspaces : (t₁.retain e.forked.page).spaces = t₁.spaces := rfl
      have hstep := g.toCloning.step haligned he r hmemory hspaces
        (fun p hpos => by rw [hretain]; omega) gu.beside
      have hleft : u.freePages + n = t₁.freePages := gu.free
      refine .inl ⟨u, run, hu, ⟨hstep, ?_, fun va' hin' => ?_, fun p hpos => ?_⟩, fun hnone => ?_,
        by omega⟩
      · rw [gu.roots]
        change (t₁.spaces child).pml4 ≠ 0
        rw [r.spaces]
        exact g.root
      · rw [gu.leaf child va' (inUser.lt hin')]
        by_cases hva : va' / 4096 = va / 4096
        · rw [if_pos ⟨rfl, hva⟩, if_pos ((alignDown_mem haligned).2 (.inr hva)),
            ← g.leaf_forked hne hin', leaf_page t parent hva,
            he]
          rfl
        · have hold : (t₁.retain e.forked.page).leaf child va' = t.leaf child va' := by
            change t₁.leaf child va' = _
            rw [r.leaf child va' (inUser.lt hin'), if_neg (by simp [Ne.symm hne])]
          rw [if_neg (by simp [hva]), hold, g.window va' hin']
          simp only [alignDown_mem haligned, hva, or_false]
      · have hpos' : 0 < (t₁.retain e.forked.page).pageRefs p := by
          rw [hretain, r.refs]
          have := g.refs p hpos
          omega
        rw [gu.refs p hpos', hretain, r.refs, g.counts p hpos, huses, hpage]
        simp only [Option.some_inj, eq_comm]
        omega
      · cases hnone
    · refine .inr ⟨u, run, hu, g.toCloning.step haligned he r rfl rfl (fun _ hpos => hpos) gu,
        by simp, ?_⟩
      rw [r.spaces, hfree, hspace] at hfull
      exact hfull g.root

omit [Fintype κ] in
/-- The child is made first. -/
theorem Beside.cloning (b : Beside child s t) (g : Cloning child parent done t u) :
    Cloning child parent done s u where
  leaf k' va hk hin := by
    rw [g.leaf k' va hk hin, b.leaf k' va hk hin]
  table k' π hk hπ := (g.table k' π hk hπ).trans (b.table k' π hk hπ)
  memory p hp hno :=
    (g.memory p (by rwa [b.refs p hp]) (b.noTable p hp hno)).trans (b.memory p hp hno)
  refs p hp := g.refs p (by rwa [b.refs p hp])
  noTable p hp hno := g.noTable p (by rwa [b.refs p hp]) (b.noTable p hp hno)
  spaces k' hk := (g.spaces k' hk).trans (b.spaces k' hk)

/-- A child that is given up leaves its parent with pages that are marked. -/
theorem Cloning.destroyed {v : VmState κ} (g : Cloning child parent done s u)
    (hs : Sound held pinned s) (hempty : s.spaces child = {}) (hv : Sound held pinned v)
    (d : Destroyed child u v) : Cloning child parent done s v ∧ v.spaces child = {} := by
  have hspaces : v.spaces = s.spaces := by
    funext k'
    rw [d.space]
    by_cases hk : k' = child
    · rw [hk, Function.update_self, hempty]
    · rw [Function.update_of_ne hk, g.spaces k' hk]
  refine ⟨⟨fun k' va hk hin => ?_, fun k' π hk hπ => ?_, fun p hp hno => ?_, fun p hp => ?_,
    fun p hp hno k' π hπ => ?_, fun k' _ => by rw [hspaces]⟩, by rw [hspaces, hempty]⟩
  · rw [d.leaf, if_neg hk, g.leaf k' va hk hin]
  · rw [d.sameTrees.table hπ, table_cut, if_neg hk, g.table k' π hk hπ]
  · rw [d.memory, g.memory p hp hno]
  · have hrecorded : v.recorded p = s.recorded p :=
      recorded_congr (fun k' => by rw [VmState.owned, VmState.owned, hspaces]) p
    rw [hv.counted, hrecorded, ← hs.counted]
    exact hp
  · rw [d.sameTrees.table hπ, table_cut]
    split_ifs
    · simp
    · exact g.noTable p hp hno k' π hπ

def window : List Nat := addresses userBase userLimit pageSize

omit [DecidableEq κ] [Fintype κ] in
theorem mem_window : va ∈ window ↔ inUser va = true ∧ va % pageSize = 0 := by
  rw [inUser_iff]
  constructor
  · intro h
    obtain ⟨i, hi, hlt⟩ := mem_addresses (by decide) h
    refine ⟨⟨by omega, hlt⟩, ?_⟩
    rw [hi, userBase, pageSize]
    omega
  · rintro ⟨⟨hlow, hhigh⟩, haligned⟩
    refine List.mem_map.2 ⟨(va - userBase) / pageSize, List.mem_range.2 ?_, ?_⟩
    · rw [userBase, pageSize, userLimit] at *
      omega
    · rw [userBase, pageSize, userLimit] at *
      omega

omit [DecidableEq κ] [Fintype κ] in
theorem alignDown_mem_window (h : inUser va = true) : alignDown va pageSize ∈ window := by
  refine mem_window.2 ⟨?_, ?_⟩
  · rw [inUser_page (alignDown_page va), h]
  · rw [alignDown, pageSize]
    omega

omit [DecidableEq κ] [Fintype κ] in
theorem uses_congr {l : List Nat} (h : ∀ va ∈ l, t.leaf k va = s.leaf k va) (p : Nat) :
    t.uses k l p = s.uses k l p :=
  List.countP_congr fun va hva => by rw [h va hva]

omit [Fintype κ] in
theorem cloneCow_noRoot (h : (s.spaces parent).pml4 = 0) (ranges : List KernelMmioRange) :
    cloneCow ranges child parent s = some (.error (), s) := by
  rw [cloneCow, bind_of_ok (read_apply s), if_pos h]
  rfl

omit [Fintype κ] in
theorem cloneCow_of_loop {r : Except Unit PUnit} {ranges : List KernelMmioRange}
    (hroot : (s.spaces parent).pml4 ≠ 0)
    (run : createAddressSpace ranges child s = some (.ok (), t))
    (hloop : window.forM (clonePage child parent) t = some (r, u)) :
    cloneCow ranges child parent s =
      match r with
      | .ok _ => some (.ok (), u)
      | .error _ => (destroyAddressSpace child >>= fun _ => Prog.fail ()) u := by
  have hloop' : (addresses userBase userLimit pageSize).forM (clonePage child parent) t =
      some (r, u) := hloop
  rw [cloneCow, bind_of_ok (read_apply s), if_neg hroot, bind_of_ok run,
    bind_of_ok (attempt_of hloop')]
  cases r <;> rfl

/-- A fork succeeds, or the child is not made and some pages of the parent stay marked. -/
theorem cloneCow_spec (h : Sound held pinned s) (hempty : s.spaces child = {})
    (hroot : (s.spaces parent).pml4 ≠ 0)
    (hwrap : ∀ p, s.pageRefs p + s.uses parent window p < 2 ^ 16) (ranges : List KernelMmioRange) :
    (∃ t, cloneCow ranges child parent s = some (.ok (), t) ∧ Sound held pinned t ∧
      Cloned child parent window s t) ∨
    ∃ t done, cloneCow ranges child parent s = some (.error (), t) ∧ Sound held pinned t ∧
      Cloning child parent done s t ∧ t.spaces child = {} := by
  have hne : parent ≠ child := by
    rintro rfl
    rw [hempty] at hroot
    exact hroot rfl
  obtain ⟨t, run, ht, g⟩ | ⟨t, run, ht, b, hout⟩ := createAddressSpace_spec h hempty ranges
  · have hleaf : ∀ va ∈ window, t.leaf parent va = s.leaf parent va := fun va hva =>
      g.leaf parent va hne (mem_window.1 hva).1
    have hcount : ∀ l₁ l₂ p, window = l₁ ++ l₂ → 0 < t.uses parent l₁ p →
        t.pageRefs p + t.uses parent l₁ p < 2 ^ 16 := by
      intro l₁ l₂ p hl hpos
      have hsame : t.uses parent window p = s.uses parent window p := uses_congr hleaf p
      have hsum : t.uses parent window p = t.uses parent l₁ p + t.uses parent l₂ p := by
        rw [hl, VmState.uses, List.countP_append]
        rfl
      obtain ⟨va, hva, hmap⟩ := List.countP_pos_iff.1 hpos
      obtain ⟨e, he, hpage⟩ := Option.map_eq_some_iff.1 (of_decide_eq_true hmap)
      have hwin : va ∈ window := by
        rw [hl]
        exact List.mem_append_left _ hva
      have hrefs : 0 < s.pageRefs p := by
        rw [hleaf va hwin] at he
        rw [← hpage]
        exact h.refs_of_leaf (mem_window.1 hwin).1 he
      have := hwrap p
      rw [g.refs p hrefs]
      omega
    have hloop := forM_spec (l := window) (f := clonePage child parent)
      (I := fun done u => Sound held pinned u ∧ Cloned child parent done t u)
      (E := fun _ u => ∃ done, Sound (fun p => held p + (u.owned child).count p) pinned (u.cut child) ∧
        Cloning child parent done t u) ?_ ⟨ht, .begin g.root g.window⟩
    · obtain ⟨u, hrun, hu, gu⟩ | ⟨_, u, hrun, done, hu, gu⟩ := hloop
      · refine .inl ⟨u, cloneCow_of_loop hroot run hrun, hu, g.toBeside.cloning gu.toCloning, gu.root,
          fun va hin => ?_,
          fun p hp => ?_⟩
        · rw [gu.window va hin, g.leaf parent va hne hin]
        · rw [gu.counts p (by rwa [g.refs p hp]), g.refs p hp, uses_congr hleaf]
      · obtain ⟨v, hdestroy, hv, d⟩ := destroyAddressSpace_of_cut hu h.pins
        obtain ⟨gv, hout⟩ := (g.toBeside.cloning gu).destroyed h hempty hv d
        refine .inr ⟨v, done, ?_, hv, gv, hout⟩
        rw [cloneCow_of_loop hroot run hrun]
        rw [bind_of_ok hdestroy]
        rfl
    · intro l₁ va l₂ hl u hu
      have hmem : va ∈ window := by
        rw [hl]
        simp
      obtain ⟨hin, haligned⟩ := mem_window.1 hmem
      obtain ⟨u', hrun, hu', gu', -⟩ | ⟨u', hrun, hu', gu', -⟩ := clonePage_spec hu.1 hu.2 hne
        (fun va e hin he => ht.refs_of_leaf hin he) hin haligned
        (hcount (l₁ ++ [va]) l₂ · (by simp [hl]))
      · exact .inl ⟨u', hrun, hu', gu'⟩
      · exact .inr ⟨(), u', hrun, _, hu', gu'⟩
  · refine .inr ⟨t, [], ?_, ht, ⟨fun k' va hk hin => ?_, b.table, b.memory, fun p hp => ?_,
      b.noTable, b.spaces⟩, hout⟩
    · rw [cloneCow, bind_of_ok (read_apply s), if_neg hroot, bind_of_error run]
    · rw [b.leaf k' va hk hin, if_neg (by simp)]
    · rwa [b.refs p hp]

end RadKernel.Vm
