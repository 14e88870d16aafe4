import RadKernel.Vm.Mapping

/-!
# Address spaces come and go

A space that is destroyed gives back every page that it owns, and its tables are gone. A space that
is made has the memory of the kernel mapped, in single pages below 16 MiB and above 4 GiB and in
large pages between, and nothing for user programs.
-/

namespace RadKernel.Vm

open Prog
open VmState (owned release takeOwned record fill link take)

variable {κ : Type} {s t u : VmState κ} {held : Nat → Nat} {pinned : Nat → Prop} {k k' : κ}
  {π ρ : List Nat} {a b i n p va va' : Nat} {e : Pte}

variable [DecidableEq κ]

/-- The state once a space is cleared; nothing is given back. -/
def VmState.cut (s : VmState κ) (k : κ) : VmState κ :=
  { s with spaces := Function.update s.spaces k {} }

/-! ## Destruction -/

section
variable (s k k')

theorem owned_cut : (s.cut k).owned k' = if k' = k then [] else s.owned k' := by
  by_cases hk : k' = k
  · subst hk
    simp [owned, VmState.cut]
  · simp [owned, VmState.cut, hk]

theorem table_cut (π : List Nat) :
    (s.cut k).table k' π = if k' = k then none else s.table k' π := by
  have hroot : (s.cut k).root = Function.update s.root k none := by
    funext k'
    by_cases hk : k' = k
    · subst hk
      simp [VmState.root, VmState.cut]
    · simp [VmState.root, VmState.cut, hk]
  have hlink : (s.cut k).link = s.link := rfl
  rw [VmState.table, hroot, hlink, Forest.Distinct.reach_cut]

theorem leaf_cut (va : Nat) : (s.cut k).leaf k' va = if k' = k then none else s.leaf k' va := by
  rw [VmState.leaf, table_cut]
  split_ifs
  · rfl
  · rfl

end

variable [Fintype κ]

theorem recorded_cut (s : VmState κ) (k : κ) (p : Nat) :
    (s.cut k).recorded p + (s.owned k).count p = s.recorded p := by
  have hsum : ∀ k', (s.owned k').count p =
      ((s.cut k).owned k').count p + if k' = k then (s.owned k).count p else 0 := by
    intro k'
    rw [owned_cut]
    by_cases hk : k' = k
    · subst hk
      simp
    · simp [hk]
  rw [VmState.recorded, VmState.recorded, Finset.sum_congr rfl fun k' _ => hsum k',
    Finset.sum_add_distrib, Finset.sum_ite_eq' Finset.univ k, if_pos (Finset.mem_univ k)]

/-- The pages of a cleared space are in the hands of the code. -/
theorem Sound.cut (h : Sound held pinned s) (k : κ) :
    Sound (fun p => held p + (s.owned k).count p) pinned (s.cut k) := by
  have hleaf : ∀ k' va e, (s.cut k).leaf k' va = some e → k' ≠ k ∧ s.leaf k' va = some e := by
    intro k' va e he
    rw [leaf_cut] at he
    split_ifs at he with hk
    exact ⟨hk, he⟩
  refine ⟨⟨?_, fun k' π a i hπ ha hp => ?_, fun k' va e hva he => ?_⟩, fun k' π a hπ ha => ?_,
    fun p => ?_, h.reserved, h.null, fun k' p => ?_, fun k' va e hin he k₁ π₁ hπ hx => ?_,
    fun k' va e hin he hw hno => ?_, fun k' va e hin he => ?_, fun p hp => ?_⟩
  · intro k₁ π₁ k₂ π₂ a h₁ h₂ ha₁ ha₂
    rw [← VmState.table, table_cut] at ha₁ ha₂
    split_ifs at ha₁ ha₂
    exact h.distinct k₁ π₁ k₂ π₂ a h₁ h₂ ha₁ ha₂
  · rw [table_cut] at ha
    split_ifs at ha
    exact h.inner k' π a i hπ ha hp
  · exact h.leaf_user k' va e hva (hleaf k' va e he).2
  · rw [table_cut] at ha
    split_ifs at ha with hk
    rw [owned_cut, if_neg hk]
    exact h.tables k' π a hπ ha
  · have := recorded_cut s k p
    have := h.counted p
    have hrefs : (s.cut k).pageRefs p = s.pageRefs p := rfl
    omega
  · have huses := h.uses k' p
    rw [owned_cut]
    by_cases hk : k' = k
    · have hempty : (s.cut k).mapped k' p = ∅ := by
        rw [VmState.mapped, Finset.filter_eq_empty_iff]
        intro v _
        rw [leaf_cut, if_pos hk]
        simp
      rw [hempty]
      simp
    · have hsame : (s.cut k).mapped k' p = s.mapped k' p :=
        mapped_congr (fun va _ => by rw [leaf_cut, if_neg hk]) p
      rw [if_neg hk, hsame]
      exact huses
  · rw [table_cut] at hx
    split_ifs at hx
    exact h.apart k' va e hin (hleaf k' va e he).2 k₁ π₁ hπ hx
  · obtain ⟨hk, he⟩ := hleaf k' va e he
    have hone := h.alone k' va e hin he hw hno
    have hmem : e.page ∈ (s.cut k).owned k' := by
      rw [owned_cut, if_neg hk]
      exact h.owned_of_leaf hin he
    have := recorded_pos hmem
    have := recorded_cut s k e.page
    omega
  · exact h.exclusive k' va e hin (hleaf k' va e he).2
  · have := h.pins p hp
    omega

omit [DecidableEq κ] in
/-- Pages are given back one after the other. -/
theorem Sound.releases (l : List Nat) (h : Sound (fun p => held p + l.count p) pinned s)
    (hpins : ∀ p, pinned p → 0 < held p) : Sound held pinned (l.foldl VmState.release s) := by
  induction l generalizing s with
  | nil => exact h
  | cons p l ih =>
    have hbump : (fun q => held q + (p :: l).count q) = bump (fun q => held q + l.count q) p := by
      funext q
      by_cases hq : q = p
      · subst hq
        simp [bump]
        omega
      · rw [bump_of_ne hq, List.count_cons_of_ne (Ne.symm hq)]
    rw [hbump] at h
    refine ih (h.release fun hp => ?_)
    have := hpins p hp
    omega

omit [DecidableEq κ] [Fintype κ] in
/-- Giving a page back changes its state and its count. -/
theorem release_memory (s : VmState κ) (p : Nat) :
    (s.release p).memory = s.memory ∧ (s.release p).spaces = s.spaces := by
  unfold VmState.release
  split_ifs <;> exact ⟨rfl, rfl⟩

omit [DecidableEq κ] [Fintype κ] in
theorem releases_memory (l : List Nat) (s : VmState κ) :
    (l.foldl release s).memory = s.memory ∧
      (l.foldl release s).spaces = s.spaces := by
  induction l generalizing s with
  | nil => exact ⟨rfl, rfl⟩
  | cons p l ih =>
    obtain ⟨hmemory, hspaces⟩ := release_memory s p
    rw [List.foldl_cons, (ih _).1, (ih _).2]
    exact ⟨hmemory, hspaces⟩

omit [Fintype κ] in
theorem release_cut (s : VmState κ) (k : κ) (p : Nat) :
    (s.release p).cut k = (s.cut k).release p := by
  unfold release VmState.cut
  split_ifs <;> rfl

omit [Fintype κ] in
theorem releases_cut (l : List Nat) (s : VmState κ) (k : κ) :
    (l.foldl release s).cut k = l.foldl release (s.cut k) := by
  induction l generalizing s with
  | nil => rfl
  | cons p l ih => rw [List.foldl_cons, List.foldl_cons, ih, release_cut]

omit [DecidableEq κ] [Fintype κ] in
theorem forM_freePage (l : List Nat) (s : VmState κ) :
    l.forM freePage s = some (.ok ⟨⟩, l.foldl release s) := by
  induction l generalizing s with
  | nil => rfl
  | cons p l ih =>
    rw [forM_cons_of_ok (freePage_apply s p), ih, List.foldl_cons]

/-- The space has no user programs any more, and nobody else sees a change. -/
structure Destroyed (k : κ) (s t : VmState κ) : Prop where
  memory : t.memory = s.memory
  space : t.spaces = Function.update s.spaces k {}
  refs : ∀ p, t.pageRefs p ≤ s.pageRefs p

omit [Fintype κ] in
theorem Destroyed.sameTrees (d : Destroyed k s t) : SameTrees (s.cut k) t :=
  .of_memory (fun _ => by rw [d.space]; rfl) fun p _ => by rw [d.memory]; rfl

omit [Fintype κ] in
theorem Destroyed.leaf (d : Destroyed k s t) (k' : κ) (va : Nat) :
    t.leaf k' va = if k' = k then none else s.leaf k' va := by
  rw [d.sameTrees.leaf, leaf_cut]

/-- It is enough that the space is sound for the others. -/
theorem destroyAddressSpace_of_cut
    (h : Sound (fun p => held p + (s.owned k).count p) pinned (s.cut k))
    (hpins : ∀ p, pinned p → 0 < held p) :
    ∃ t, destroyAddressSpace k s = some (.ok (), t) ∧ Sound held pinned t ∧ Destroyed k s t := by
  let l := (s.owned k).reverse
  obtain ⟨hmemory, hspaces⟩ := releases_memory l (s.cut k)
  have hsound : Sound held pinned (l.foldl VmState.release (s.cut k)) :=
    Sound.releases l (by simpa [l] using h) hpins
  refine ⟨l.foldl VmState.release (s.cut k), ?_, hsound, hmemory, hspaces, fun p => ?_⟩
  · rw [← releases_cut, destroyAddressSpace, bind_apply, read_apply]
    dsimp only
    rw [bind_apply, forM_freePage]
    rfl
  · have hcount := hsound.counted p
    have hcount' := h.counted p
    have hrecorded : (l.foldl VmState.release (s.cut k)).recorded p = (s.cut k).recorded p :=
      recorded_congr (fun k' => by rw [VmState.owned, VmState.owned, hspaces]) p
    have hrefs : (s.cut k).pageRefs p = s.pageRefs p := rfl
    omega

theorem destroyAddressSpace_spec (h : Sound held pinned s) (k : κ) :
    ∃ t, destroyAddressSpace k s = some (.ok (), t) ∧ Sound held pinned t ∧ Destroyed k s t :=
  destroyAddressSpace_of_cut (h.cut k) h.pins

/-! ## Entries of the kernel -/

theorem Sound.setKernelLeaf (h : Sound held pinned s) (ha : s.table k (path va) = some a)
    (hfits : e.Fits) (hva : va < 2 ^ 48) (hin : inUser va = false) (hu : e.user = false) :
    Sound held pinned (s.withEntry a (tableIndex va 0) e) ∧
      ∀ k' va', inUser va' = true →
        (s.withEntry a (tableIndex va 0) e).leaf k' va' = s.leaf k' va' := by
  have hleaf : ∀ k' va', inUser va' = true →
      (s.withEntry a (tableIndex va 0) e).leaf k' va' = s.leaf k' va' := fun k' va' hin' => by
    rw [h.leaf_setLeaf ha hfits hva (inUser.lt hin'), if_neg]
    rintro ⟨-, hpage⟩
    rw [inUser_page hpage, hin] at hin'
    cases hin'
  exact ⟨h.of_view (h.setLeaf ha hfits hva (by rw [hu, hin]))
    (fun k' π hπ => h.table_setLeaf ha hfits hπ) hleaf (fun _ => rfl) rfl rfl, hleaf⟩

omit [DecidableEq κ] in
theorem Sound.setLarge (h : Sound held pinned s)
    (ha : s.table k [tableIndex va 2, tableIndex va 3] = some a)
    (hnone : s.table k (path va) = none) (hlarge : LargePath (path va)) (hfits : e.Fits)
    (hl : e.large = true) (hu : e.user = false) :
    Sound held pinned (s.withEntry a (tableIndex va 1) e) ∧
      (∀ k' π, (s.withEntry a (tableIndex va 1) e).table k' π = s.table k' π) ∧
      ∀ k' va', (s.withEntry a (tableIndex va 1) e).leaf k' va' = s.leaf k' va' := by
  have hfree : s.link a (tableIndex va 1) = none := by
    rw [← table_of_some ha]
    exact hnone
  have hset : (s.withEntry a (tableIndex va 1) e).entry a (tableIndex va 1) = e := by
    rw [entry_withEntry hfits, if_pos ⟨rfl, rfl⟩]
  have hlink : (s.withEntry a (tableIndex va 1) e).link = s.link := by
    funext x j
    by_cases hx : x = a ∧ j = tableIndex va 1
    · rw [hx.1, hx.2, hfree, link, hset, hl, if_neg (by simp)]
    · rw [link, link, entry_withEntry hfits, if_neg hx]
  have htable : ∀ k' π, (s.withEntry a (tableIndex va 1) e).table k' π = s.table k' π := by
    intro k' π
    rw [VmState.table, hlink]
    rfl
  have hleaf : ∀ k' va', (s.withEntry a (tableIndex va 1) e).leaf k' va' = s.leaf k' va' := by
    intro k' va'
    rw [VmState.leaf, VmState.leaf, htable]
    cases hx : s.table k' (path va') with
    | none => rfl
    | some x =>
      have hne : x ≠ a := by
        rintro rfl
        have := (h.distinct k' (path va') k _ x (by simp) (by simp) hx ha).2
        simpa using congrArg List.length this
      have hentry : (s.withEntry a (tableIndex va 1) e).entry x (tableIndex va' 0) =
          s.entry x (tableIndex va' 0) := by
        rw [entry_withEntry hfits, if_neg (by simp [hne])]
      rw [Option.bind_some, Option.bind_some, hentry]
  have htrees : Trees (s.withEntry a (tableIndex va 1) e) := by
    refine ⟨h.distinct.congr fun k' π _ => htable k' π, fun k' π x j hπ hx hp => ?_,
      fun k' va' e' hva' he' => ?_⟩
    · rw [htable] at hx
      by_cases hhere : x = a ∧ j = tableIndex va 1
      · obtain ⟨rfl, rfl⟩ := hhere
        obtain ⟨rfl, rfl⟩ := h.distinct k' π k _ x (by omega) (by simp) hx ha
        rw [hset]
        exact .inr ⟨hl, hu, hlarge⟩
      · rw [entry_withEntry hfits, if_neg hhere] at hp ⊢
        exact h.inner k' π x j hπ hx hp
    · rw [hleaf] at he'
      exact h.leaf_user k' va' e' hva' he'
  exact ⟨h.of_view htrees (fun k' π _ => htable k' π) (fun k' va' _ => hleaf k' va')
    (fun _ => rfl) rfl rfl, htable, hleaf⟩

/-! ## Creation -/

/-- The state once the root table of a space is set. -/
def VmState.withRoot (s : VmState κ) (k : κ) (page : Nat) : VmState κ :=
  { s with spaces := Function.update s.spaces k { s.spaces k with pml4 := page } }

theorem Sound.withRoot (h : Sound held pinned s) (hroot : (s.spaces k).pml4 = 0) (hb : b ≠ 0)
    (hno : s.NoTable b) (hempty : ∀ j, s.entry b j = {}) (hmem : b ∈ s.owned k)
    (hrefs : s.pageRefs b = 1)
    (hleaf : ∀ k va e, inUser va = true → s.leaf k va = some e → e.page ≠ b) :
    Sound held pinned (s.withRoot k b) ∧
      (∀ k' π, π.length ≤ 3 → (s.withRoot k b).table k' π =
        if k' = k ∧ π = [] then some b else s.table k' π) ∧
      ∀ k' va, (s.withRoot k b).leaf k' va = s.leaf k' va := by
  have hnone : s.root k = none := by simp [VmState.root, hroot]
  have hroots : (s.withRoot k b).root = Function.update s.root k (some b) := by
    funext k'
    by_cases hk : k' = k
    · subst hk
      simp [VmState.root, VmState.withRoot, hb]
    · simp [VmState.root, VmState.withRoot, hk]
  have hlink : ∀ j, s.link b j = none := fun j => link_of_empty (hempty j)
  have htable : ∀ k' π, π.length ≤ 3 → (s.withRoot k b).table k' π =
      if k' = k ∧ π = [] then some b else s.table k' π := by
    intro k' π hπ
    rw [VmState.table, hroots]
    exact Forest.Distinct.reach_plant hnone hno hlink (fun _ _ => rfl) hπ
  have hsameLeaf : ∀ k' va, (s.withRoot k b).leaf k' va = s.leaf k' va := by
    intro k' va
    rw [VmState.leaf, htable k' _ (by simp), if_neg (by simp [path])]
    rfl
  have howned : ∀ k', (s.withRoot k b).owned k' = s.owned k' := by
    intro k'
    by_cases hk : k' = k
    · subst hk
      simp [owned, VmState.withRoot]
    · simp [owned, VmState.withRoot, hk]
  have hrecorded : ∀ p, (s.withRoot k b).recorded p = s.recorded p := recorded_congr howned
  have htrees : Trees (s.withRoot k b) := by
    refine ⟨h.distinct.add hno htable, fun k' π x j hπ hx hp => ?_, fun k' va e hva he => ?_⟩
    · rw [htable k' π (by omega)] at hx
      split_ifs at hx with hnew
      · obtain rfl := Option.some.inj hx
        have hentry : (s.withRoot k b).entry b j = s.entry b j := rfl
        rw [hentry, hempty] at hp
        cases hp
      · exact h.inner k' π x j hπ hx hp
    · rw [hsameLeaf] at he
      exact h.leaf_user k' va e hva he
  refine ⟨⟨htrees, fun k' π x hπ hx => ?_, fun p => ?_, h.reserved, h.null, fun k' p => ?_,
    fun k' va e hin he k₁ π₁ hπ hx => ?_, fun k' va e hin he hw hpin => ?_,
    fun k' va e hin he => ?_, h.pins⟩, htable, hsameLeaf⟩
  · rw [htable k' π hπ] at hx
    rw [howned]
    split_ifs at hx with hnew
    · obtain rfl := Option.some.inj hx
      rw [hnew.1]
      exact ⟨hmem, hrefs⟩
    · exact h.tables k' π x hπ hx
  · rw [hrecorded]
    exact h.counted p
  · rw [mapped_congr fun va _ => hsameLeaf k' va, howned]
    exact h.uses k' p
  · rw [hsameLeaf] at he
    rw [htable k₁ π₁ hπ] at hx
    split_ifs at hx
    · exact hleaf k' va e hin he (Option.some.inj hx).symm
    · exact h.apart k' va e hin he k₁ π₁ hπ hx
  · rw [hsameLeaf] at he
    rw [hrecorded]
    exact h.alone k' va e hin he hw hpin
  · rw [hsameLeaf] at he
    exact h.exclusive k' va e hin he

/-- Nobody but space `k` sees a change. -/
structure Beside (k : κ) (s t : VmState κ) : Prop where
  leaf : ∀ k' va, k' ≠ k → inUser va = true → t.leaf k' va = s.leaf k' va
  table : ∀ k' π, k' ≠ k → π.length ≤ 3 → t.table k' π = s.table k' π
  memory : ∀ p, 0 < s.pageRefs p → s.NoTable p → t.memory p = s.memory p
  refs : ∀ p, 0 < s.pageRefs p → t.pageRefs p = s.pageRefs p
  noTable : ∀ p, 0 < s.pageRefs p → s.NoTable p → t.NoTable p
  spaces : ∀ k', k' ≠ k → t.spaces k' = s.spaces k'

/-- Space `k` is being made of pages that were free. -/
structure Building (k : κ) (s t : VmState κ) : Prop extends Beside k s t where
  root : (t.spaces k).pml4 ≠ 0
  window : ∀ va, inUser va = true → t.leaf k va = none
  directory : ∀ π, LargePath π → t.table k π = none
  fresh : ∀ p ∈ t.owned k, s.pageRefs p = 0

omit [DecidableEq κ] [Fintype κ] in
theorem Beside.refl (k : κ) (s : VmState κ) : Beside k s s :=
  ⟨fun _ _ _ _ => rfl, fun _ _ _ _ => rfl, fun _ _ _ => rfl, fun _ _ => rfl, fun _ _ hno => hno,
    fun _ _ => rfl⟩

omit [DecidableEq κ] [Fintype κ] in
theorem Beside.trans (g : Beside k s t) (h : Beside k t u) : Beside k s u where
  leaf k' va hk hin := (h.leaf k' va hk hin).trans (g.leaf k' va hk hin)
  table k' π hk hπ := (h.table k' π hk hπ).trans (g.table k' π hk hπ)
  memory p hp hno :=
    (h.memory p (by rwa [g.refs p hp]) (g.noTable p hp hno)).trans (g.memory p hp hno)
  refs p hp := (h.refs p (by rwa [g.refs p hp])).trans (g.refs p hp)
  noTable p hp hno := h.noTable p (by rwa [g.refs p hp]) (g.noTable p hp hno)
  spaces k' hk := (h.spaces k' hk).trans (g.spaces k' hk)

omit [DecidableEq κ] [Fintype κ] in
theorem Grown.beside (h : Grown k ρ n s t) : Beside k s t where
  leaf k' va _ _ := h.leaf k' va
  table k' π hk hπ := h.other k' π hπ fun heq => absurd heq hk
  memory := h.memory
  refs := h.refs
  noTable := h.noTable
  spaces k' hk := by
    have hroot := h.roots k'
    have howned := h.owned k' hk
    cases hu : t.spaces k'
    cases ht : s.spaces k'
    simp_all [VmState.owned]

omit [DecidableEq κ] [Fintype κ] in
theorem Building.grown (g : Building k s t) (h : Grown k ρ n t u)
    (hρ : ∀ π, π <:+ ρ → ¬LargePath π) : Building k s u where
  toBeside := g.toBeside.trans h.beside
  root := by
    rw [h.roots]
    exact g.root
  window va hin := (h.leaf k va).trans (g.window va hin)
  directory π hl := by
    rw [h.other k π (Nat.le_of_eq hl.length) fun _ hs => hρ π hs hl]
    exact g.directory π hl
  fresh p hp := by
    obtain ⟨new, hnew, -, hfree⟩ := h.added
    rw [hnew] at hp
    rcases List.mem_append.1 hp with hp | hp
    · exact g.fresh p hp
    · by_contra hne
      have := hfree p hp
      have := g.refs p (by omega)
      omega

/-- A program that keeps space `k` being made, whether it fails or not. -/
abbrev Builds (held : Nat → Nat) (pinned : Nat → Prop) (k : κ) (s : VmState κ) {α : Type}
    (x : VmM κ α) : Prop :=
  Prog.Keeps (fun t => Sound held pinned t ∧ Building k s t) x

omit [DecidableEq κ] [Fintype κ] in
theorem beside_withEntry (ha : t.table k π = some a) (hπ : π.length ≤ 3)
    (htable : ∀ k' π, π.length ≤ 3 → (t.withEntry a i e).table k' π = t.table k' π)
    (hleaf : ∀ k' va, k' ≠ k → inUser va = true → (t.withEntry a i e).leaf k' va = t.leaf k' va) :
    Beside k t (t.withEntry a i e) where
  leaf := hleaf
  table k' π _ hπ := htable k' π hπ
  memory p _ hno := by
    refine memory_withEntry ?_
    rintro rfl
    exact hno k π hπ ha
  refs _ _ := rfl
  noTable p _ hno k' π hπ := by
    rw [htable k' π hπ]
    exact hno k' π hπ
  spaces _ _ := rfl

omit [DecidableEq κ] [Fintype κ] in
theorem Building.setEntry (g : Building k s t) (ha : t.table k π = some a) (hπ : π.length ≤ 3)
    (htable : ∀ k' π, π.length ≤ 3 → (t.withEntry a i e).table k' π = t.table k' π)
    (hleaf : ∀ k' va, inUser va = true → (t.withEntry a i e).leaf k' va = t.leaf k' va) :
    Building k s (t.withEntry a i e) where
  toBeside := g.toBeside.trans (beside_withEntry ha hπ htable fun k' va _ hin => hleaf k' va hin)
  root := g.root
  window va hin := (hleaf k va hin).trans (g.window va hin)
  directory π hl := (htable k π (Nat.le_of_eq hl.length)).trans (g.directory π hl)
  fresh := g.fresh

variable {flags : Pte}

theorem builds_mapPage (hva : va % pageSize = 0) (hlt : va < 2 ^ 48)
    (hin : inUser va = false) (hlarge : ¬LargePath (path va)) (hp : p < 2 ^ 40)
    (hu : flags.user = false) : Builds held pinned k s (mapPage k va p flags) := by
  rintro t ⟨ht, g⟩
  have hways : ∀ π, π <:+ path va → ¬LargePath π := fun π hs hl => by
    have hlen : π.length = (path va).length := by rw [hl.length, length_path]
    rw [hs.eq_of_length hlen] at hl
    exact hlarge hl
  obtain ⟨pt, u, run, hsu, gu, hpt, -⟩ | ⟨u, n, run, hsu, gu, -⟩ :=
    ensureTables_spec ht g.root hva hlarge
  · have gu' := g.grown gu hways
    have hfits : (flags.mapping p).Fits := hp
    obtain ⟨hset, hleaf⟩ := hsu.setKernelLeaf hpt hfits hlt hin hu
    refine ⟨.ok (), _, ?_, hset, gu'.setEntry hpt (by simp) (fun k' π hπ => ?_) hleaf⟩
    · rw [mapPage, bind_apply, run]
      rfl
    · exact hsu.table_setLeaf hpt hfits hπ
  · refine ⟨.error (), u, ?_, hsu, g.grown gu hways⟩
    rw [mapPage, bind_apply, run]

theorem builds_ensureNextTable (ht : Sound held pinned t) (g : Building k s t)
    (ha : t.table k π = some a) (hπ : π.length < 2) (i : Nat) :
    (∃ b u, ensureNextTable k a i t = some (.ok b, u) ∧ Sound held pinned u ∧ Building k s u ∧
      u.table k (i :: π) = some b) ∨
    ∃ u, ensureNextTable k a i t = some (.error (), u) ∧ Sound held pinned u ∧ Building k s u := by
  have hshort : ∀ ρ, ρ <:+ i :: π → ¬LargePath ρ := fun ρ hs hl => by
    have := hs.length_le
    rw [hl.length, List.length_cons] at this
    omega
  obtain ⟨b, u, n, run, hu, gu, hb, -⟩ | ⟨u, run, hu, gu, -⟩ :=
    ensureNextTable_spec ht ha (by omega) (hshort _ List.suffix_rfl)
  · exact .inl ⟨b, u, run, hu, g.grown gu hshort, hb⟩
  · exact .inr ⟨u, run, hu, g.grown gu hshort⟩

theorem builds_mapLargePage (hva : va % largePageSize = 0) (hp : p % 512 = 0)
    (hlarge : LargePath (path va)) (hlt : p < 2 ^ 40) (hu : flags.user = false) :
    Builds held pinned k s (mapLargePage k va p flags) := by
  rintro t ⟨ht, g⟩
  have t3 : t.table k [] = some (t.spaces k).pml4 := by
    simp [Forest.reach, VmState.root, g.root]
  have hrun : ∀ x : VmState κ, mapLargePage k va p flags x =
      (if (x.spaces k).pml4 = 0 ∨ va % largePageSize ≠ 0 ∨ p % 512 ≠ 0 then Prog.fail () else do
        let pdpt ← ensureNextTable k (x.spaces k).pml4 (tableIndex va 3)
        let pd ← ensureNextTable k pdpt (tableIndex va 2)
        Vm.setEntry pd (tableIndex va 1)
          { flags with page := p, present := true, large := true } : VmM κ Unit) x := fun x => rfl
  rw [hrun, if_neg (by simp [g.root, hva, hp]), bind_apply]
  obtain ⟨a2, t2, run2, h2, g2, hpath2⟩ | ⟨t2, run2, h2, g2⟩ :=
    builds_ensureNextTable ht g t3 (by simp) (tableIndex va 3)
  · rw [run2]
    dsimp only
    rw [bind_apply]
    obtain ⟨a1, t1, run1, h1, g1, hpath1⟩ | ⟨t1, run1, h1, g1⟩ :=
      builds_ensureNextTable h2 g2 hpath2 (by simp) (tableIndex va 2)
    · rw [run1]
      obtain ⟨hset, htable, hleaf⟩ := h1.setLarge
        (e := { flags with page := p, present := true, large := true }) hpath1
        (g1.directory _ hlarge) hlarge hlt rfl hu
      exact ⟨_, _, rfl, hset, g1.setEntry hpath1 (by simp) (fun k' π _ => htable k' π)
        fun k' va _ => hleaf k' va⟩
    · rw [run1]
      exact ⟨_, t1, rfl, h1, g1⟩
  · rw [run2]
    exact ⟨_, t2, rfl, h2, g2⟩

omit [DecidableEq κ] [Fintype κ] in
theorem mem_addresses {base limit step x : Nat} (hstep : 0 < step)
    (h : x ∈ addresses base limit step) : ∃ i, x = base + i * step ∧ x < limit := by
  obtain ⟨i, hi, rfl⟩ := List.mem_map.1 h
  refine ⟨i, rfl, ?_⟩
  have hle : (i + 1) * step ≤ limit - base + step - 1 :=
    (Nat.le_div_iff_mul_le hstep).1 (List.mem_range.1 hi)
  rw [Nat.add_mul, Nat.one_mul] at hle
  omega

theorem builds_mapLow (h : va ∈ addresses 0 lowIdentityLimit pageSize) :
    Builds held pinned k s (mapLow k va) := by
  obtain ⟨i, hi, hlt⟩ := mem_addresses (by decide) h
  have hlow := hlt
  rw [pageSize] at hi
  rw [lowIdentityLimit] at hlt
  refine .ite (fun _ => .pure _) fun _ => builds_mapPage ?_ (by omega) ?_ (not_largePath_low hlow)
    ?_ rfl
  · rw [pageSize]
    omega
  · rw [← Bool.not_eq_true, inUser_iff, userBase]
    omega
  · rw [pageSize]
    omega

theorem builds_mapHigh (h : va ∈ addresses lowIdentityLimit kernelIdentityLimit largePageSize) :
    Builds held pinned k s (mapHigh k va) := by
  obtain ⟨i, hi, hlt⟩ := mem_addresses (by decide) h
  have hlow : lowIdentityLimit ≤ va := by omega
  have haligned : va % largePageSize = 0 := by
    rw [hi, lowIdentityLimit, largePageSize]
    omega
  refine .ite (fun _ => .pure _) fun hout => builds_mapLargePage haligned ?_
    ⟨va, hlow, hlt, ?_, rfl⟩ ?_ rfl
  · rw [largePageSize] at haligned
    rw [pageSize]
    omega
  · have hdown : alignDown va largePageSize = va := by
      rw [alignDown, Nat.div_mul_cancel (Nat.dvd_of_mod_eq_zero haligned)]
    rw [hdown]
    simpa using hout
  · rw [kernelIdentityLimit] at hlt
    rw [pageSize]
    omega

theorem builds_mapMmio (range : KernelMmioRange) : Builds held pinned k s (mapMmio k range) := by
  refine .forM fun x hx => ?_
  obtain ⟨i, hi, hlt⟩ := mem_addresses (by decide) hx
  have haligned := range.aligned
  have habove : kernelIdentityLimit ≤ x := by
    have := range.above
    omega
  have hbelow : x < 2 ^ 48 := Nat.lt_of_lt_of_le hlt range.below
  refine builds_mapPage ?_ hbelow ?_ (not_largePath_high habove hbelow) ?_ rfl
  · rw [pageSize] at haligned hi ⊢
    omega
  · rw [kernelIdentityLimit] at habove
    rw [← Bool.not_eq_true, inUser_iff, userLimit]
    omega
  · rw [pageSize]
    omega

theorem builds_mapKernelIdentity (ranges : List KernelMmioRange) :
    Builds held pinned k s (mapKernelIdentity ranges k) :=
  .bind (.forM fun _ hx => builds_mapLow hx) fun _ =>
    .bind (.forM fun _ hx => builds_mapHigh hx) fun _ => .forM fun range _ => builds_mapMmio range

/-! ## Whole calls -/

omit [DecidableEq κ] [Fintype κ] in
theorem owned_empty (h : s.spaces k = {}) : s.owned k = [] := by
  rw [owned, h]

omit [DecidableEq κ] [Fintype κ] in
theorem table_empty (h : s.spaces k = {}) (π : List Nat) : s.table k π = none := by
  induction π with
  | nil => simp [Forest.reach, VmState.root, h]
  | cons i π ih => exact table_of_none ih i

omit [DecidableEq κ] [Fintype κ] in
theorem leaf_empty (h : s.spaces k = {}) (va : Nat) : s.leaf k va = none := by
  rw [VmState.leaf, table_empty h]
  rfl

theorem builds_root (h : Sound held pinned s) (hempty : s.spaces k = {})
    (hfree : s.pageState b = .free) (hlt : b < maxTrackedPages) :
    Sound held pinned ((s.takeOwned k b).withRoot k b) ∧
      Building k s ((s.takeOwned k b).withRoot k b) := by
  have hsame := sameTrees_takeOwned h hfree k
  have hzero := h.refs_of_free hfree
  have hno := h.noTable_of_refs hzero
  have hroot : ((s.takeOwned k b).spaces k).pml4 = 0 := by rw [hsame.roots, hempty]
  have hbytes : ∀ j, (s.takeOwned k b).entry b j = {} := fun j => by
    have hmemory : (s.takeOwned k b).memory b = fun _ => 0 := by
      simp [takeOwned, record, fill]
    rw [VmState.entry, hmemory, Pte.ofBytes_zero]
  have hne : ∀ q, 0 < s.pageRefs q → q ≠ b := by
    rintro q hq rfl
    omega
  have howned : ∀ k', (s.takeOwned k b).owned k' = if k' = k then s.owned k' ++ [b] else s.owned k' :=
    fun k' => owned_record ((s.take b).fill b fun _ => 0) k k' b
  obtain ⟨hset, htable, hleaf⟩ := (h.takeOwned hfree hlt k).withRoot hroot (h.ne_zero hfree)
    (hsame.noTable hno) hbytes (by rw [howned]; simp)
    (by simp [takeOwned, record, fill, take]) fun k' va e hin he => by
      rw [hsame.leaf] at he
      exact hne _ (h.refs_of_leaf hin he)
  refine ⟨hset, ⟨fun k' va _ _ => ?_, fun k' π hk hπ => ?_, fun p hp _ => ?_, fun p hp => ?_,
    fun p hp hno' k' π hπ => ?_, fun k' hk => ?_⟩, ?_, fun va _ => ?_, fun π hl => ?_,
    fun p hp => ?_⟩
  · rw [hleaf, hsame.leaf]
  · rw [htable k' π hπ, if_neg (by simp [hk]), hsame.table hπ]
  · simp [VmState.withRoot, takeOwned, record, fill, take, hne p hp]
  · simp [VmState.withRoot, takeOwned, record, fill, take, hne p hp]
  · rw [htable k' π hπ, hsame.table hπ]
    split_ifs
    · intro heq
      exact hne p hp (Option.some.inj heq).symm
    · exact hno' k' π hπ
  · simp [VmState.withRoot, takeOwned, record, fill, take, hk]
  · simp [VmState.withRoot, h.ne_zero hfree]
  · rw [hleaf, hsame.leaf, leaf_empty hempty]
  · have hlen := hl.length
    rw [htable k π (by omega), if_neg, hsame.table (by omega), table_empty hempty]
    rintro ⟨-, rfl⟩
    simp at hlen
  · have hp' : p ∈ (s.takeOwned k b).owned k := by
      simpa [owned, VmState.withRoot] using hp
    rw [howned, if_pos rfl, owned_empty hempty, List.nil_append, List.mem_singleton] at hp'
    rw [hp', hzero]

/-- A space that is destroyed while it is made leaves no trace for the others. -/
theorem Building.destroyed (g : Building k s t) (hs : Sound held pinned s)
    (hempty : s.spaces k = {})
    (hu : Sound held pinned u) (d : Destroyed k t u) : Beside k s u ∧ u.spaces k = {} := by
  have hspaces : u.spaces = s.spaces := by
    funext k'
    rw [d.space]
    by_cases hk : k' = k
    · rw [hk, Function.update_self, hempty]
    · rw [Function.update_of_ne hk, g.spaces k' hk]
  refine ⟨⟨fun k' va hk hin => ?_, fun k' π hk hπ => ?_, fun p hp hno => ?_, fun p _ => ?_,
    fun p hp hno k' π hπ => ?_, fun k' _ => by rw [hspaces]⟩, by rw [hspaces, hempty]⟩
  · rw [d.leaf, if_neg hk, g.leaf k' va hk hin]
  · rw [d.sameTrees.table hπ, table_cut, if_neg hk, g.table k' π hk hπ]
  · rw [d.memory, g.memory p hp hno]
  · have hrecorded : u.recorded p = s.recorded p :=
      recorded_congr (fun k' => by rw [VmState.owned, VmState.owned, hspaces]) p
    rw [hu.counted, hs.counted, hrecorded]
  · rw [d.sameTrees.table hπ, table_cut]
    split_ifs
    · simp
    · exact g.noTable p hp hno k' π hπ

/-- A space that is not in use is made, or it stays out of use. -/
theorem createAddressSpace_spec (h : Sound held pinned s) (hempty : s.spaces k = {})
    (ranges : List KernelMmioRange) :
    (∃ t, createAddressSpace ranges k s = some (.ok (), t) ∧ Sound held pinned t ∧
      Building k s t) ∨
    ∃ t, createAddressSpace ranges k s = some (.error (), t) ∧ Sound held pinned t ∧
      Beside k s t ∧ t.spaces k = {} := by
  have hclear : setSpace k {} s = some (.ok (), s) := by
    change some (Except.ok (), { s with spaces := Function.update s.spaces k {} }) = _
    rw [← hempty, Function.update_eq_self]
  rw [createAddressSpace, bind_of_ok hclear]
  have hfull : ¬s.room k = 0 := by
    rw [VmState.room, owned_empty hempty, maxOwnedPages]
    simp
  obtain ⟨b, hfree, hlt, -, halloc⟩ | ⟨-, halloc⟩ | ⟨hroom, -⟩ := h.allocOwnedPage_cases k
  · rw [bind_of_ok halloc]
    obtain ⟨hs, g⟩ := builds_root h hempty hfree hlt
    obtain ⟨r, t, run, ht, gt⟩ := builds_mapKernelIdentity ranges _ ⟨hs, g⟩
    have hset : ∀ x : VmState κ, setSpace k { x.spaces k with pml4 := b } x =
        some (.ok (), x.withRoot k b) := fun _ => rfl
    rw [bind_of_ok (read_apply _), bind_of_ok (hset _), bind_of_ok (attempt_of run)]
    cases r with
    | ok _ => exact .inl ⟨t, rfl, ht, gt⟩
    | error _ =>
      obtain ⟨u, hrun, hu, d⟩ := destroyAddressSpace_spec ht k
      obtain ⟨hbeside, hout⟩ := gt.destroyed h hempty hu d
      refine .inr ⟨u, ?_, hu, hbeside, hout⟩
      dsimp only
      rw [bind_of_ok hrun]
      rfl
  · rw [bind_of_error halloc]
    exact .inr ⟨s, rfl, h, .refl k s, hempty⟩
  · exact absurd hroom hfull

end RadKernel.Vm
