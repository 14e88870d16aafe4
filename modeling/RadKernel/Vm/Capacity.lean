import RadKernel.Vm.Fork

/-!
# Enough memory for a new space

The memory of the kernel below 4 GiB takes a fixed number of tables, so a space is made whenever as
many pages are free.
-/

namespace RadKernel.Vm

open List Prog

variable {κ : Type} {s t u : VmState κ} {held : Nat → Nat} {pinned : Nat → Prop} {k : κ}
  {π : List Nat} {a b i p va : Nat} {e : Pte}

/-- Where the tables for the memory of the kernel are. -/
def kernelPaths : List (List Nat) :=
  [[], [0]] ++ (List.range 4).map (fun i => [i, 0]) ++ (List.range 8).map fun i => [i, 0, 0]

variable [Fintype κ]

/-- All pages of the space are tables for the memory of the kernel. -/
structure Kernel (held : Nat → Nat) (pinned : Nat → Prop) (k : κ) (s t : VmState κ) : Prop
    extends Building k s t where
  sound : Sound held pinned t
  own : ∀ p ∈ t.owned k, ∃ π ∈ kernelPaths, t.table k π = some p
  pages : t.freePages + (t.owned k).length = s.freePages

namespace Kernel

/-- As many pages as there are tables. -/
theorem length_le (h : Kernel held pinned k s t) :
    (t.owned k).length ≤ (kernelPaths.filterMap fun π => t.table k π).length := by
  have hnodup : (t.owned k).Nodup := by
    rw [nodup_iff_count_le_one]
    intro p
    by_cases hp : p ∈ t.owned k
    · obtain ⟨π, hπ, ha⟩ := h.own p hp
      have hlen : ∀ π ∈ kernelPaths, π.length ≤ 3 := by decide
      have hrefs := (h.sound.tables k π p (hlen π hπ) ha).2
      have := count_le_recorded t k p
      have := h.sound.recorded_le p
      omega
    · rw [List.count_eq_zero.2 hp]
      exact Nat.zero_le _
  refine (hnodup.subperm fun p hp => ?_).length_le
  obtain ⟨π, hπ, ha⟩ := h.own p hp
  exact List.mem_filterMap.2 ⟨π, hπ, ha⟩

/-- When a table is missing, there is one page less. -/
theorem length_lt (h : Kernel held pinned k s t) (hπ : π ∈ kernelPaths)
    (hnone : t.table k π = none) : (t.owned k).length < kernelPaths.length := by
  refine Nat.lt_of_le_of_lt h.length_le ?_
  rw [length_filterMap_eq_countP]
  refine Nat.lt_of_le_of_ne countP_le_length fun heq => ?_
  have := List.countP_eq_length.1 heq π hπ
  simp [hnone] at this

variable [DecidableEq κ]

theorem ensureNextTable (h : Kernel held pinned k s t) (hfree : kernelPaths.length ≤ s.freePages)
    (ha : t.table k π = some a) (hπ : π.length < 3) (hlarge : ¬LargePath (i :: π))
    (hmem : i :: π ∈ kernelPaths) :
    ∃ b u, Vm.ensureNextTable k a i t = some (.ok b, u) ∧ Kernel held pinned k s u ∧
      u.table k (i :: π) = some b := by
  obtain ⟨b, u, n, run, hu, g, hb, -, hn⟩ | ⟨u, -, -, -, hnone, hfull⟩ :=
    ensureNextTable_spec h.sound ha hπ hlarge
  · have hbuilding : Building k s u := by
      refine h.toBuilding.grown g fun ρ hs hl => hlarge ?_
      have hle := hs.length_le
      have hlen : ρ.length = (i :: π).length := by
        rw [length_cons] at *
        have := hl.length
        omega
      rwa [← hs.eq_of_length hlen]
    obtain ⟨new, hnew, hlen, -⟩ := g.added
    refine ⟨b, u, run, ⟨hbuilding, hu, fun p hp => ?_, ?_⟩, hb⟩
    · rw [hnew] at hp
      rcases List.mem_append.1 hp with hp | hp
      · obtain ⟨π', hπ', ha'⟩ := h.own p hp
        have hshort : ∀ π ∈ kernelPaths, π.length ≤ 3 := by decide
        exact ⟨π', hπ', g.kept k π' p (hshort π' hπ') ha'⟩
      · -- the one page that is new is the table that was missing
        have hone : n = 1 ∧ t.table k (i :: π) = none := by
          have := length_pos_of_mem hp
          split_ifs at hn with hnone
          · exact ⟨hn, hnone⟩
          · omega
        obtain ⟨x, rfl⟩ := List.length_eq_one_iff.1 (hlen.trans hone.1)
        obtain rfl := List.mem_singleton.1 hp
        have hown := (hu.tables k (i :: π) b (by rw [length_cons]; omega) hb).1
        rw [hnew] at hown
        rcases List.mem_append.1 hown with hold | hold
        · exfalso
          obtain ⟨π', hπ', ha'⟩ := h.own b hold
          have hshort : ∀ π ∈ kernelPaths, π.length ≤ 3 := by decide
          have hkept := g.kept k π' b (hshort π' hπ') ha'
          obtain ⟨-, rfl⟩ := hu.distinct k π' k (i :: π) b (hshort π' hπ')
            (by rw [length_cons]; omega) hkept hb
          rw [hone.2] at ha'
          cases ha'
        · rw [List.mem_singleton.1 hold] at hb
          exact ⟨i :: π, hmem, hb⟩
    · rw [hnew, length_append, hlen, ← h.pages, ← g.free]
      omega
  · exfalso
    have hlt := h.length_lt hmem hnone
    have hpages := h.pages
    have hshort : kernelPaths.length ≤ maxOwnedPages := by decide
    rcases hfull with hzero | hzero
    · omega
    · rw [VmState.room] at hzero
      omega

omit [DecidableEq κ] in
theorem setEntry (h : Kernel held pinned k s t) (ha : t.table k π = some a) (hπ : π.length ≤ 3)
    (hset : Sound held pinned (t.withEntry a i e))
    (htable : ∀ k' π, π.length ≤ 3 → (t.withEntry a i e).table k' π = t.table k' π)
    (hleaf : ∀ k' va, inUser va = true → (t.withEntry a i e).leaf k' va = t.leaf k' va) :
    Kernel held pinned k s (t.withEntry a i e) := by
  refine ⟨h.toBuilding.setEntry ha hπ htable hleaf, hset, fun p hp => ?_, h.pages⟩
  obtain ⟨π', hπ', ha'⟩ := h.own p hp
  have hshort : ∀ π ∈ kernelPaths, π.length ≤ 3 := by decide
  exact ⟨π', hπ', (htable k π' (hshort π' hπ')).trans ha'⟩

omit [Fintype κ] [DecidableEq κ] in
theorem path_low (hva : va < lowIdentityLimit) : ∃ j < 8, path va = [j, 0, 0] := by
  rw [lowIdentityLimit] at hva
  refine ⟨tableIndex va 1, ?_, ?_⟩
  · rw [tableIndex_eq]
    omega
  · simp only [path, tableIndex_eq, List.cons.injEq, and_true, true_and]
    omega

omit [Fintype κ] [DecidableEq κ] in
theorem path_high (hva : va < kernelIdentityLimit) : ∃ i j, j < 4 ∧ path va = [i, j, 0] := by
  rw [kernelIdentityLimit] at hva
  refine ⟨tableIndex va 1, tableIndex va 2, ?_, ?_⟩
  · rw [tableIndex_eq]
    omega
  · simp only [path, tableIndex_eq, List.cons.injEq, and_true, true_and]
    omega

omit [DecidableEq κ] in
theorem root_table (h : Kernel held pinned k s t) : t.table k [] = some (t.spaces k).pml4 := by
  simp [Forest.reach, VmState.root, h.root]

section
variable (h : Kernel held pinned k s t) (hfree : kernelPaths.length ≤ s.freePages)
include h hfree

theorem mapLow (hva : va ∈ addresses 0 lowIdentityLimit pageSize) :
    ∃ u, Vm.mapLow k va t = some (.ok ⟨⟩, u) ∧ Kernel held pinned k s u := by
  obtain ⟨n, hn, hlt⟩ := mem_addresses (by decide) hva
  have hlow := not_largePath_low hlt
  have hin : inUser va = false := by
    rw [← Bool.not_eq_true, inUser_iff, userBase]
    rw [lowIdentityLimit] at hlt
    omega
  obtain ⟨j, hj, hpath⟩ := path_low hlt
  have h48 : va < 2 ^ 48 := by
    rw [lowIdentityLimit] at hlt
    omega
  simp only [path, List.cons.injEq, and_true] at hpath
  obtain ⟨h1, h2, h3⟩ := hpath
  have hm3 : [tableIndex va 3] ∈ kernelPaths := by rw [h3]; decide
  have hm2 : [tableIndex va 2, tableIndex va 3] ∈ kernelPaths := by rw [h2, h3]; decide
  have hm1 : path va ∈ kernelPaths := by
    rw [path, h1, h2, h3, kernelPaths, mem_append]
    exact .inr (List.mem_map.2 ⟨j, List.mem_range.2 hj, rfl⟩)
  have hshort : ∀ π : List Nat, π.length < 3 → ¬LargePath π := fun π hπ hl => by
    have := hl.length
    omega
  rw [Vm.mapLow]
  split_ifs
  · exact ⟨t, rfl, h⟩
  obtain ⟨a2, t2, run2, k2, ht2⟩ := h.ensureNextTable hfree h.root_table (by simp)
    (hshort [tableIndex va 3] (by simp)) hm3
  obtain ⟨a1, t1, run1, k1, ht1⟩ := k2.ensureNextTable hfree ht2 (by simp)
    (hshort [tableIndex va 2, tableIndex va 3] (by simp)) hm2
  obtain ⟨a0, t0, run0, k0, ht0⟩ := k1.ensureNextTable hfree ht1 (by simp) hlow hm1
  have hfits : (({ write := true } : Pte).mapping (va / pageSize)).Fits := by
    rw [Pte.Fits, Pte.mapping, pageSize]
    dsimp only
    omega
  obtain ⟨hset, hleaf⟩ := k0.sound.setKernelLeaf ht0 hfits h48 hin rfl
  refine ⟨_, ?_, k0.setEntry ht0 (by simp) hset (fun k' π hπ => k0.sound.table_setLeaf ht0 hfits hπ)
    hleaf⟩
  have haligned : va % pageSize = 0 := by
    rw [hn, pageSize]
    omega
  have htables : ensureTables k va t = some (.ok a0, t0) := by
    rw [ensureTables, bind_of_ok (read_apply t), if_neg (by simp [h.root, haligned]),
      bind_of_ok run2, bind_of_ok run1, run0]
  rw [mapPage, bind_of_ok htables]
  rfl

theorem mapHigh (hva : va ∈ addresses lowIdentityLimit kernelIdentityLimit largePageSize) :
    ∃ u, Vm.mapHigh k va t = some (.ok ⟨⟩, u) ∧ Kernel held pinned k s u := by
  obtain ⟨n, hn, hlt⟩ := mem_addresses (by decide) hva
  have hlow : lowIdentityLimit ≤ va := by omega
  have haligned : va % largePageSize = 0 := by
    rw [hn, lowIdentityLimit, largePageSize]
    omega
  have hpage : va / pageSize % 512 = 0 := by
    rw [largePageSize] at haligned
    rw [pageSize]
    omega
  obtain ⟨_, j, hj, hpath⟩ := path_high hlt
  simp only [path, List.cons.injEq, and_true] at hpath
  obtain ⟨-, h2, h3⟩ := hpath
  have hm3 : [tableIndex va 3] ∈ kernelPaths := by rw [h3]; decide
  have hm2 : [tableIndex va 2, tableIndex va 3] ∈ kernelPaths := by
    rw [h2, h3, kernelPaths, mem_append, mem_append]
    exact .inl (.inr (List.mem_map.2 ⟨j, List.mem_range.2 hj, rfl⟩))
  have hshort : ∀ π : List Nat, π.length < 3 → ¬LargePath π := fun π hπ hl => by
    have := hl.length
    omega
  rw [Vm.mapHigh]
  split_ifs with hout
  · exact ⟨t, rfl, h⟩
  have hlarge : LargePath (path va) := by
    refine ⟨va, hlow, hlt, ?_, rfl⟩
    have hdown : alignDown va largePageSize = va := by
      rw [alignDown, Nat.div_mul_cancel (Nat.dvd_of_mod_eq_zero haligned)]
    rw [hdown]
    simpa using hout
  obtain ⟨a2, t2, run2, k2, ht2⟩ := h.ensureNextTable hfree h.root_table (by simp)
    (hshort [tableIndex va 3] (by simp)) hm3
  obtain ⟨a1, t1, run1, k1, ht1⟩ := k2.ensureNextTable hfree ht2 (by simp)
    (hshort [tableIndex va 2, tableIndex va 3] (by simp)) hm2
  have hfits : ({ ({ write := true } : Pte) with page := va / pageSize, present := true, large := true } : Pte).Fits := by
    rw [kernelIdentityLimit] at hlt
    rw [Pte.Fits, pageSize]
    dsimp only
    omega
  obtain ⟨hset, htable, hleaf⟩ := k1.sound.setLarge
   
    ht1 (k1.directory _ hlarge) hlarge hfits rfl rfl
  refine ⟨_, ?_, k1.setEntry ht1 (by simp) hset (fun k' π _ => htable k' π) fun k' va _ => hleaf k' va⟩
  rw [mapLargePage, bind_of_ok (read_apply t), if_neg (by simp [h.root, haligned, hpage]),
    bind_of_ok run2, bind_of_ok run1]
  rfl

end

end Kernel

theorem createAddressSpace_ok [DecidableEq κ] (h : Sound held pinned s) (hempty : s.spaces k = {})
    (hfree : kernelPaths.length ≤ s.freePages) :
    ∃ t, createAddressSpace [] k s = some (.ok (), t) ∧ Sound held pinned t ∧ Building k s t ∧
      t.freePages + (t.owned k).length = s.freePages ∧ (t.owned k).length ≤ kernelPaths.length := by
  have hclear : setSpace k {} s = some (.ok (), s) := by
    change some (Except.ok (), { s with spaces := Function.update s.spaces k {} }) = _
    rw [← hempty, Function.update_eq_self]
  have hroom : ¬s.room k = 0 := by
    rw [VmState.room, owned_empty hempty, maxOwnedPages]
    simp
  obtain ⟨b, hb, hlt, -, halloc⟩ | ⟨hzero, -⟩ | ⟨hzero, -⟩ := h.allocOwnedPage_cases k
  · obtain ⟨hs, g⟩ := builds_root h hempty hb hlt
    have howned : ((s.takeOwned k b).withRoot k b).owned k = [b] := by
      simp [VmState.owned, VmState.withRoot, VmState.takeOwned, VmState.record, VmState.fill,
        VmState.take, hempty]
    have hroot : ((s.takeOwned k b).withRoot k b).table k [] = some b := by
      simp [Forest.reach, VmState.root, VmState.withRoot, h.ne_zero hb]
    have hkernel : Kernel held pinned k s ((s.takeOwned k b).withRoot k b) := by
      refine ⟨g, hs, fun p hp => ?_, ?_⟩
      · rw [howned, mem_singleton] at hp
        exact ⟨[], by decide, hp ▸ hroot⟩
      · rw [howned]
        exact freePages_take hb hlt
    have hlow := forM_spec (l := addresses 0 lowIdentityLimit pageSize) (f := mapLow k)
      (I := fun _ t => Kernel held pinned k s t) (E := fun _ _ => False)
      (fun l₁ va l₂ hl t ht => .inl (ht.mapLow hfree (by rw [hl]; simp))) hkernel
    obtain ⟨t, run, ht⟩ | ⟨-, -, -, hfalse⟩ := hlow
    swap
    · exact hfalse.elim
    have hhigh := forM_spec (l := addresses lowIdentityLimit kernelIdentityLimit largePageSize)
      (f := mapHigh k) (I := fun _ t => Kernel held pinned k s t) (E := fun _ _ => False)
      (fun l₁ va l₂ hl t ht => .inl (ht.mapHigh hfree (by rw [hl]; simp))) ht
    obtain ⟨u, run', hu⟩ | ⟨-, -, -, hfalse⟩ := hhigh
    swap
    · exact hfalse.elim
    have hloops : mapKernelIdentity [] k ((s.takeOwned k b).withRoot k b) = some (.ok ⟨⟩, u) := by
      rw [mapKernelIdentity, bind_of_ok run, bind_of_ok run']
      rfl
    have hset : ∀ x : VmState κ, setSpace k { x.spaces k with pml4 := b } x =
        some (.ok (), x.withRoot k b) := fun _ => rfl
    refine ⟨u, ?_, hu.sound, hu.toBuilding, hu.pages, hu.length_le.trans (length_filterMap_le _ _)⟩
    rw [createAddressSpace, bind_of_ok hclear, bind_of_ok halloc,
      bind_of_ok (read_apply _), bind_of_ok (hset _),
      bind_of_ok (attempt_of hloops)]
    rfl
  · exfalso
    have : 0 < kernelPaths.length := by decide
    omega
  · exact absurd hzero hroom

/-! ## A fork with one page -/

omit [Fintype κ] in
theorem window_nodup : window.Nodup := by
  refine List.nodup_range.map fun i j hij => ?_
  rw [pageSize] at hij
  omega

/-- A page is mapped no more often than its space owns it. -/
theorem Sound.uses_le (h : Sound held pinned s) (k : κ) (p : Nat) :
    s.uses k window p ≤ (s.owned k).count p := by
  refine Nat.le_trans ?_ (h.uses k p)
  have hnodup : ((window.filter fun va => (s.leaf k va).map Pte.page = some p).map
      (· / pageSize)).Nodup := by
    refine (window_nodup.filter _).map_on fun x hx y hy hxy => ?_
    have hx' := (mem_window.1 (List.mem_filter.1 hx).1).2
    have hy' := (mem_window.1 (List.mem_filter.1 hy).1).2
    rw [pageSize] at *
    omega
  rw [VmState.uses, countP_eq_length_filter, ← length_map (· / pageSize),
    ← toFinset_card_of_nodup hnodup]
  refine Finset.card_le_card fun v hv => ?_
  obtain ⟨va, hva, rfl⟩ := List.mem_map.1 (List.mem_toFinset.1 hv)
  obtain ⟨hwin, hpage⟩ := List.mem_filter.1 hva
  rw [mem_mapped, leaf_pageStart]
  exact ⟨page_mem_userPages (mem_window.1 hwin).1, of_decide_eq_true hpage⟩

variable [DecidableEq κ] {child parent : κ}

theorem cloneCow_ok (h : Sound held pinned s) (hempty : s.spaces child = {})
    (hroot : (s.spaces parent).pml4 ≠ 0) (haligned : va % pageSize = 0)
    (hsole : ∀ va', inUser va' = true → va' / 4096 ≠ va / 4096 → s.leaf parent va' = none)
    (hwrap : ∀ p, s.pageRefs p + s.uses parent window p < 2 ^ 16)
    (hfree : kernelPaths.length + 4 ≤ s.freePages) :
    ∃ t, cloneCow [] child parent s = some (.ok (), t) ∧ Sound held pinned t ∧
      Cloned child parent window s t ∧ 0 < t.freePages := by
  have hne : parent ≠ child := by
    rintro rfl
    rw [hempty] at hroot
    exact hroot rfl
  obtain ⟨t, run, ht, g, hpages, hlen⟩ := createAddressSpace_ok h hempty (by omega)
  have hroom : 3 < t.room child := by
    have : kernelPaths.length + 4 ≤ maxOwnedPages := by decide
    rw [VmState.room]
    omega
  have hleaf : ∀ va', inUser va' = true → t.leaf parent va' = s.leaf parent va' := fun va' hin =>
    g.leaf parent va' hne hin
  have hother : ∀ va' ∈ window, va' ≠ va → t.leaf parent va' = none := fun va' hva' hva => by
    obtain ⟨hin, hal⟩ := mem_window.1 hva'
    rw [hleaf va' hin]
    refine hsole va' hin fun heq => hva ?_
    rw [pageSize] at hal haligned
    omega
  have hloop := forM_spec (l := window) (f := clonePage child parent)
    (I := fun done u => Sound held pinned u ∧ Cloned child parent done t u ∧
      (va ∉ done → u = t) ∧ t.freePages ≤ u.freePages + 3)
    (E := fun _ _ => False) ?_ ⟨ht, .begin g.root g.window, fun _ => rfl, Nat.le_add_right _ _⟩
  · obtain ⟨u, hrun, hu, -, -, hleft⟩ | ⟨-, -, -, hfalse⟩ := hloop
    · have hclone : cloneCow [] child parent s = some (.ok (), u) :=
        cloneCow_of_loop hroot run hrun
      obtain ⟨u', hrun', hu', gu'⟩ | ⟨u', done, hrun', -⟩ := cloneCow_spec h hempty hroot hwrap []
      · rw [hclone] at hrun'
        cases hrun'
        exact ⟨u, hclone, hu', gu', by omega⟩
      · rw [hclone] at hrun'
        cases hrun'
    · exact hfalse.elim
  · rintro l₁ va' l₂ hl u ⟨hu, gu, hsame, hleft⟩
    have hmem : va' ∈ window := by
      rw [hl]
      simp
    obtain ⟨hin, hal⟩ := mem_window.1 hmem
    have hnot : va' = va → va ∉ l₁ := fun heq hmem => by
      have hnodup := window_nodup
      rw [hl, nodup_append] at hnodup
      exact hnodup.2.2 va hmem va' (by simp) heq.symm
    have hnone : va' ≠ va → u.leaf parent va' = none := fun hva =>
      (gu.leaf_none hne hin).2 (hother va' hmem hva)
    have hbound : ∀ p, 0 < t.uses parent (l₁ ++ [va']) p →
        t.pageRefs p + t.uses parent (l₁ ++ [va']) p < 2 ^ 16 := by
      intro p hpos
      have hsub : l₁ ++ [va'] <+: window := ⟨l₂, by simp [hl]⟩
      have hle : t.uses parent (l₁ ++ [va']) p ≤ t.uses parent window p :=
        hsub.sublist.countP_le
      have hwin : t.uses parent window p = s.uses parent window p :=
        uses_congr (fun va' hva' => hleaf va' (mem_window.1 hva').1) p
      have hrefs : 0 < s.pageRefs p := by
        have hcount := h.uses_le parent p
        have hrecorded := count_le_recorded s parent p
        have := h.recorded_le p
        omega
      have := hwrap p
      rw [g.refs p hrefs]
      omega
    obtain ⟨u', hrun, hu', gu', hstay, hcost⟩ | ⟨u', -, -, -, hsome, hfull⟩ := clonePage_spec hu gu
      hne (fun va e hin he => ht.refs_of_leaf hin he) hin hal hbound
    · refine .inl ⟨u', hrun, hu', gu', fun hva => ?_, ?_⟩
      · rw [mem_append, mem_singleton, not_or] at hva
        rw [hstay (hnone (Ne.symm hva.2)), hsame hva.1]
      · by_cases hva : va' = va
        · rw [← hsame (hnot hva)]
          exact hcost
        · rw [hstay (hnone hva)]
          exact hleft
    · exfalso
      have hva : va' = va := by
        by_contra hva
        exact hsome (hnone hva)
      rw [hsame (hnot hva)] at hfull
      omega

end RadKernel.Vm
