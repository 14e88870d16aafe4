import RadKernel.Vm.Fork

/-!
# Page faults

A page that is marked by a fork becomes writable at the first write: in place when nobody else
holds it, and otherwise as a copy that only this space has. Below the stack a page of zeros is
mapped.
-/

namespace RadKernel.Vm

open Function Prog Finset

variable {κ : Type} {s t : VmState κ} {held : Nat → Nat} {pinned : Nat → Prop}
  {k k' : κ} {π : List Nat} {a n p q va va' : Nat} {e e' : Pte}

/-! ## The list of owned pages -/

theorem count_replace_add {l : List Nat} (hp : p ∈ l) (q x : Nat) :
    (l.replace p q).count x + (if x = p then 1 else 0) = l.count x + if x = q then 1 else 0 := by
  rw [List.count_replace, if_pos (List.contains_iff_mem.2 hp)]
  simp only [beq_iff_eq, eq_comm (b := x)]
  have hpos : x = p → 0 < l.count x := fun h => List.count_pos_iff.2 (h ▸ hp)
  split_ifs with hq hx hx
  · omega
  · omega
  · have := hpos hx
    omega
  · omega

variable [DecidableEq κ]

def VmState.replaceOwned (s : VmState κ) (k : κ) (oldPage newPage : Nat) : VmState κ :=
  { s with
    spaces := Function.update s.spaces k
      { s.spaces k with ownedPages := (s.spaces k).ownedPages.replace oldPage newPage } }

theorem replaceOwnedPage_apply (h : p ∈ s.owned k) (q : Nat) :
    replaceOwnedPage k p q s = some (.ok (), s.replaceOwned k p q) := by
  rw [replaceOwnedPage, bind_of_ok (read_apply s), if_pos (by exact h)]
  rfl

theorem owned_replaceOwned (s : VmState κ) (k k' : κ) (p q : Nat) :
    (s.replaceOwned k p q).owned k' =
      if k' = k then (s.owned k').replace p q else s.owned k' := by
  by_cases hk : k' = k
  · subst hk
    simp [VmState.owned, VmState.replaceOwned]
  · simp [VmState.owned, VmState.replaceOwned, hk]

theorem sameTrees_replaceOwned (s : VmState κ) (k : κ) (p q : Nat) :
    SameTrees s (s.replaceOwned k p q) := by
  refine .of_memory (fun k' => ?_) fun _ _ => rfl
  by_cases hk : k' = k
  · subst hk
    simp [VmState.replaceOwned]
  · simp [VmState.replaceOwned, hk]

variable [Fintype κ]

theorem recorded_replaceOwned (h : p ∈ s.owned k) (q x : Nat) :
    (s.replaceOwned k p q).recorded x + (if x = p then 1 else 0) =
      s.recorded x + if x = q then 1 else 0 := by
  have hsum : ∀ k', ((s.replaceOwned k p q).owned k').count x +
      (if k' = k then (if x = p then 1 else 0) else 0) =
        (s.owned k').count x + if k' = k then (if x = q then 1 else 0) else 0 := by
    intro k'
    rw [owned_replaceOwned]
    by_cases hk : k' = k
    · subst hk
      rw [if_pos rfl, if_pos rfl, if_pos rfl, count_replace_add h]
    · rw [if_neg hk, if_neg hk, if_neg hk]
  have htotal := sum_congr (Eq.refl (Finset.univ : Finset κ)) fun k' _ => hsum k'
  rw [sum_add_distrib, sum_add_distrib, sum_ite_eq' Finset.univ k,
    sum_ite_eq' Finset.univ k, if_pos (mem_univ k), if_pos (mem_univ k)] at htotal
  exact htotal

/-! ## Copies -/

/-- The state once a marked page was copied to a page that was free. -/
def VmState.copied (s : VmState κ) (k : κ) (oldPage newPage table index : Nat) (e : Pte) :
    VmState κ :=
  (((((s.take newPage).fill newPage (s.memory oldPage)).replaceOwned k oldPage newPage).release
    oldPage).withEntry table index e)

/-- The entry of an address changes, and no page that somebody holds. -/
structure Resolves (k : κ) (va : Nat) (e : Pte) (s t : VmState κ) : Prop where
  leaf : ∀ k' va', va' < 2 ^ 48 →
    t.leaf k' va' = if k' = k ∧ va' / 4096 = va / 4096 then some e else s.leaf k' va'
  table : ∀ k' π, π.length ≤ 3 → t.table k' π = s.table k' π
  memory : ∀ p, 0 < s.pageRefs p → s.NoTable p → t.memory p = s.memory p
  roots : ∀ k', (t.spaces k').pml4 = (s.spaces k').pml4

theorem Sound.copied (e' : Pte) (h : Sound held pinned s) (ha : s.table k (path va) = some a)
    (hin : inUser va = true) (he : s.leaf k va = some e) (hmany : s.pageRefs e.page ≠ 1)
    (hfree : s.pageState n = .free) (hlt : n < maxTrackedPages) (hpage : e'.page = n)
    (hp : e'.present = true) (hu : e'.user = true) (hcow : e'.cow = false) :
    Sound held pinned (s.copied k e.page n a (tableIndex va 0) e') ∧
      Resolves k va e' s (s.copied k e.page n a (tableIndex va 0) e') ∧
      (s.copied k e.page n a (tableIndex va 0) e').memory n = s.memory e.page := by
  have hzero := h.refs_of_free hfree
  have hpos := h.refs_of_leaf hin he
  have hmem := h.owned_of_leaf hin he
  have hne : e.page ≠ n := fun heq => by
    rw [heq] at hpos
    omega
  have hno := h.noTable_of_refs hzero
  have hheld : (s.take n).NoTable n := (h.take hfree hlt).noTable_of_held (by simp)
  have h₁ := (h.take hfree hlt).fill hheld (s.memory e.page)
  have hsame : SameTrees s ((s.take n).fill n (s.memory e.page)) := by
    refine .of_memory (fun _ => rfl) fun q hq => ?_
    have hqn : q ≠ n := by
      rintro rfl
      exact hq hno
    simp [VmState.fill, VmState.take, hqn]
  have hs₁ : ((s.take n).fill n (s.memory e.page)).pageRefs = update s.pageRefs n 1 := rfl
  have howned₁ : ∀ k', ((s.take n).fill n (s.memory e.page)).owned k' = s.owned k' := fun _ => rfl
  have hrecorded₁ : ∀ q, ((s.take n).fill n (s.memory e.page)).recorded q = s.recorded q :=
    fun _ => rfl
  have hcopied : s.copied k e.page n a (tableIndex va 0) e' =
      { ((s.take n).fill n (s.memory e.page)).withEntry a (tableIndex va 0) e' with
        spaces := (((s.take n).fill n (s.memory e.page)).replaceOwned k e.page n).spaces
        pageRefs := update (update s.pageRefs n 1) e.page (s.pageRefs e.page - 1) } := by
    have hstate := (h₁.reserved e.page (by rw [hs₁, update_of_ne hne]; exact hpos))
    have hrefs : (((s.take n).fill n (s.memory e.page)).replaceOwned k e.page n).pageRefs e.page =
        s.pageRefs e.page := by
      change update s.pageRefs n 1 e.page = _
      rw [update_of_ne hne]
    have hnot : ¬(maxTrackedPages ≤ e.page ∨
        (((s.take n).fill n (s.memory e.page)).replaceOwned k e.page n).pageState e.page ≠
          .reserved) := by
      rintro (hle | hst)
      · omega
      · exact hst hstate.2
    rw [VmState.copied, VmState.release, if_neg hnot, if_pos (by rw [hrefs]; omega), hrefs]
    rfl
  generalize s.copied k e.page n a (tableIndex va 0) e' = t at hcopied ⊢
  generalize ht₁ : (s.take n).fill n (s.memory e.page) = s₁ at *
  have hrefs : ∀ q, t.pageRefs q = if q = e.page then s.pageRefs q - 1 else
      if q = n then 1 else s.pageRefs q := fun q => by
    rw [hcopied]
    by_cases hq : q = e.page
    · simp [hq]
    · by_cases hqn : q = n
      · simp [hqn, Ne.symm hne]
      · simp [hq, hqn]
  have howned : ∀ k', t.owned k' = (s₁.replaceOwned k e.page n).owned k' := fun k' => by
    rw [hcopied]
    rfl
  have hrecorded : ∀ q, t.recorded q + (if q = e.page then 1 else 0) =
      s.recorded q + if q = n then 1 else 0 := fun q => by
    rw [recorded_congr howned, ← hrecorded₁]
    exact recorded_replaceOwned (by rw [howned₁]; exact hmem) n q
  have hcount : ∀ q, (t.owned k).count q + (if q = e.page then 1 else 0) =
      (s.owned k).count q + if q = n then 1 else 0 := fun q => by
    rw [howned, owned_replaceOwned, if_pos rfl, howned₁]
    exact count_replace_add hmem n q
  have hcount' : ∀ k', k' ≠ k → t.owned k' = s.owned k' := fun k' hk => by
    rw [howned, owned_replaceOwned, if_neg hk, howned₁]
  have htrees : SameTrees (s₁.withEntry a (tableIndex va 0) e') t := by
    refine .of_memory (fun k' => ?_) fun q _ => by rw [hcopied]
    rw [hcopied]
    exact (sameTrees_replaceOwned s₁ k e.page n).roots k'
  have ha₁ : s₁.table k (path va) = some a := by rw [hsame.table (by simp), ha]
  have hfits : e'.Fits := by
    rw [Pte.Fits, hpage]
    rw [maxTrackedPages] at hlt
    omega
  refine ⟨h₁.of_setLeaf ha₁ hfits hin hp hu htrees (fun k' x hx hrefs₁ htable => ?_) (fun q => ?_)
    (fun q hq => ?_) ?_ (fun k' q => ?_) ?_ (fun _ _ => ?_) (fun k' va' e₁ hin' he' hother hw hpin => ?_)
    (fun _ => hcow) h.pins, ⟨fun k' va' hva' => ?_, fun k' π hπ => ?_, fun q hq hn => ?_, fun k' => ?_⟩, ?_⟩
  · have hx' : x ≠ e.page := by
      rintro rfl
      exact htable (hsame.noTable (h.apart k va e hin he))
    have hxn : x ≠ n := by
      rintro rfl
      exact htable (h₁.noTable_of_held (by simp))
    rw [hs₁, update_of_ne hxn] at hrefs₁
    rw [howned₁] at hx
    refine ⟨?_, by rw [hrefs, if_neg hx', if_neg hxn, hrefs₁]⟩
    by_cases hk : k' = k
    · subst hk
      have := hcount x
      rw [if_neg hx', if_neg hxn] at this
      have := List.count_pos_iff.2 hx
      exact List.count_pos_iff.1 (by omega)
    · rw [hcount' k' hk]
      exact hx
  · have := h.counted q
    have := hrecorded q
    have := h.recorded_le n
    rw [hrefs]
    by_cases hq : q = e.page
    · subst hq
      simp only [hne, if_true, if_false] at *
      omega
    · by_cases hqn : q = n
      · subst hqn
        simp only [hq, if_true, if_false] at *
        omega
      · simp only [hq, hqn, if_false] at *
        omega
  · have hstate : t.pageState = s₁.pageState := by rw [hcopied]; rfl
    rw [hstate]
    refine h₁.reserved q ?_
    rw [hrefs] at hq
    rw [hs₁]
    by_cases hqn : q = n
    · rw [hqn, update_self]
      omega
    · rw [update_of_ne hqn]
      split_ifs at hq
      · omega
      · exact hq
  · have hstate : t.pageState = s₁.pageState := by rw [hcopied]; rfl
    have hzero' := h.null.1
    have h0 : (0 : Nat) ≠ e.page := fun heq => by
      rw [← heq] at hpos
      omega
    refine ⟨?_, hstate ▸ h₁.null.2⟩
    rw [hrefs, if_neg h0, if_neg (h.ne_zero hfree).symm, hzero']
  · have huses := h₁.uses k' q
    rw [howned₁] at huses
    rw [mapped_setLeaf h₁.toTrees ha₁ hfits hin hp, hpage]
    by_cases hk : k' = k
    · subst hk
      have hc := hcount q
      rw [if_pos rfl]
      by_cases hqn : q = n
      · subst hqn
        rw [if_neg (Ne.symm hne), if_pos rfl] at hc
        rw [if_pos rfl]
        have := card_insert_le (va / pageSize) (s₁.mapped k' q)
        omega
      · rw [if_neg hqn] at hc ⊢
        by_cases hq : q = e.page
        · rw [if_pos hq] at hc
          have hva : va / pageSize ∈ s₁.mapped k' q := by
            rw [hq]
            exact page_mem_mapped hin (by rw [hsame.leaf, he])
          have := card_erase_add_one hva
          omega
        · rw [if_neg hq] at hc
          have := card_erase_le (s := s₁.mapped k' q) (a := va / pageSize)
          omega
    · rw [if_neg hk, hcount' k' hk]
      exact huses
  · rw [hpage]
    exact h₁.noTable_of_held (by simp)
  · have := hrecorded n
    have := h.recorded_le n
    rw [if_neg (Ne.symm hne), if_pos rfl] at *
    rw [hpage]
    omega
  · have he'' : s.leaf k' va' = some e₁ := by rw [← hsame.leaf, he']
    have hn₁ : e₁.page ≠ n := by
      rintro rfl
      have := h.refs_of_leaf hin' he''
      omega
    have hp₁ : e₁.page ≠ e.page := by
      intro heq
      obtain ⟨hk, hva⟩ := h.sole_of_write hin hin' he he'' heq.symm hw hpin
      exact hother ⟨hk.symm, hva.symm⟩
    have := hrecorded e₁.page
    rw [if_neg hp₁, if_neg hn₁] at this
    have := h.alone k' va' e₁ hin' he'' hw hpin
    omega
  · rw [htrees.leaf, h₁.leaf_setLeaf ha₁ hfits (inUser.lt hin) hva', if_pos hp, hsame.leaf]
  · rw [htrees.table hπ, h₁.table_setLeaf ha₁ hfits hπ, hsame.table hπ]
  · have hqa : q ≠ a := by
      rintro rfl
      exact hn k (path va) (by simp) ha
    have hqn : q ≠ n := by
      rintro rfl
      omega
    have hmemory : t.memory = (s₁.withEntry a (tableIndex va 0) e').memory := by rw [hcopied]
    rw [hmemory, memory_withEntry hqa, ← ht₁]
    simp [VmState.fill, VmState.take, hqn]
  · rw [htrees.roots, ← ht₁]
    rfl
  · have hna : n ≠ a := by
      rintro rfl
      exact hno k (path va) (by simp) ha
    have hmemory : t.memory = (s₁.withEntry a (tableIndex va 0) e').memory := by rw [hcopied]
    rw [hmemory, memory_withEntry hna, ← ht₁]
    simp [VmState.fill]

omit [Fintype κ] in
theorem Relabels.resolves (r : Relabels k va e s t) : Resolves k va e s t :=
  ⟨r.leaf, r.table, fun p _ hno => r.memory p hno, fun _ => by rw [r.spaces]⟩

omit [Fintype κ] in
theorem breakCow_of_none (h : ∀ pt e, s.walkUserLeaf k va = some (pt, e) → e.cow = false) :
    breakCow k va s = some (.error (), s) := by
  rw [breakCow, bind_of_ok (read_apply s)]
  cases hw : s.walkUserLeaf k va with
  | none => rfl
  | some x =>
    obtain ⟨pt, e⟩ := x
    dsimp only
    rw [if_pos (by simp [h pt e hw])]
    rfl

section

omit [Fintype κ]

variable (h : s.walkUserLeaf k va = some (a, e)) (hcow : e.cow = true)
  (hlt : e.page < maxTrackedPages) (hpos : 0 < s.pageRefs e.page)

include h hcow hlt hpos

omit hpos in
theorem breakCow_alone (hone : s.pageRefs e.page = 1) :
    breakCow k va s =
      some (.ok (), s.withEntry a (tableIndex va 0) { e with write := true, cow := false }) := by
  rw [breakCow, bind_of_ok (read_apply s), h]
  dsimp only
  rw [if_neg (by simp [hcow]), if_neg (by omega), if_pos hone]
  rfl

theorem breakCow_full (hmany : s.pageRefs e.page ≠ 1) (halloc : allocPage s = some (.error (), s)) :
    breakCow k va s = some (.error (), s) := by
  rw [breakCow, bind_of_ok (read_apply s), h]
  dsimp only
  rw [if_neg (by simp [hcow]), if_neg (by omega), if_neg hmany, bind_of_error halloc]

theorem breakCow_shared (hmany : s.pageRefs e.page ≠ 1)
    (halloc : allocPage s = some (.ok n, s.take n)) (hmem : e.page ∈ s.owned k) :
    breakCow k va s = some (.ok (), s.copied k e.page n a (tableIndex va 0)
      { e with page := n, write := true, cow := false }) := by
  have hmem' : e.page ∈ ((s.take n).fill n (s.memory e.page)).owned k := hmem
  rw [breakCow, bind_of_ok (read_apply s), h]
  dsimp only
  rw [if_neg (by simp [hcow]), if_neg (by omega), if_neg hmany, bind_of_ok halloc,
    bind_of_ok (setPage_apply _ _ _),
    bind_of_ok (attempt_of (replaceOwnedPage_apply hmem' n))]
  rfl

end

/-- A write to a marked page makes it writable, with the bytes it had; otherwise nothing changes. -/
theorem breakCow_spec (h : Sound held pinned s) (hin : inUser va = true) :
    (∃ e e' t, breakCow k va s = some (.ok (), t) ∧ Sound held pinned t ∧ s.leaf k va = some e ∧
      e.cow = true ∧ e'.write = true ∧ e'.cow = false ∧ Resolves k va e' s t ∧
      t.memory e'.page = s.memory e.page ∧
      (s.pageRefs e.page = 1 ∧ e'.page = e.page ∨ 1 < s.pageRefs e.page ∧ s.pageRefs e'.page = 0)) ∨
    breakCow k va s = some (.error (), s) ∧
      ∀ e, s.leaf k va = some e → e.cow = true → 1 < s.pageRefs e.page ∧ s.freePages = 0 := by
  have hwalk := h.walkUserLeaf (k := k) hin
  cases he : s.leaf k va with
  | none =>
    refine .inr ⟨breakCow_of_none fun pt e hsome => ?_, fun e hsome => by cases hsome⟩
    rw [hwalk, he] at hsome
    cases ht : s.table k (path va) <;> simp [ht] at hsome
  | some e =>
    obtain ⟨a, ha, hentry, hp⟩ := leaf_eq_some.1 he
    have hsome : s.walkUserLeaf k va = some (a, e) := by
      rw [hwalk, he, ha]
      rfl
    have hpos := h.refs_of_leaf hin he
    have hlt := (h.reserved _ hpos).1
    have hu : e.user = true := by rw [h.leaf_user k va e (inUser.lt hin) he, hin]
    cases hcow : e.cow with
    | false =>
      refine .inr ⟨breakCow_of_none fun pt e₁ hsome₁ => ?_, fun e₁ he₁ hcow₁ => ?_⟩
      · rw [hsome] at hsome₁
        cases hsome₁
        exact hcow
      · cases he₁
        rw [hcow] at hcow₁
        cases hcow₁
    | true =>
      by_cases hone : s.pageRefs e.page = 1
      · -- nobody else holds the page
        have hmem := recorded_pos (h.owned_of_leaf hin he)
        have hcount := h.counted e.page
        have hfits : ({ e with write := true, cow := false } : Pte).Fits := by
          rw [← hentry]
          exact entry_fits s _ _
        refine .inl ⟨e, { e with write := true, cow := false },
          s.withEntry a (tableIndex va 0) { e with write := true, cow := false },
          breakCow_alone hsome hcow hlt hone,
          h.relabel ha hin he rfl hp hu (fun _ _ => ?_) fun _ => rfl, rfl, hcow, rfl, rfl,
          (relabels_withEntry h.toTrees ha hin hfits hp).resolves, ?_, .inl ⟨hone, rfl⟩⟩
        · change s.recorded e.page = 1
          omega
        · exact memory_withEntry fun heq => h.apart k va e hin he k (path va) (by simp) (heq ▸ ha)
      · obtain ⟨halloc, hnone⟩ | ⟨n, hfree, hltn, halloc⟩ := h.allocPage_cases
        · refine .inr ⟨breakCow_full hsome hcow hlt hpos hone halloc, fun e₁ he₁ _ => ?_⟩
          cases he₁
          exact ⟨by omega, freePages_eq_zero hnone⟩
        · obtain ⟨hcopied, hresolves, hmemory⟩ := h.copied
            { e with page := n, write := true, cow := false } ha hin he hone hfree hltn rfl hp hu
            rfl
          exact .inl ⟨e, { e with page := n, write := true, cow := false }, _,
            breakCow_shared hsome hcow hlt hpos hone halloc (h.owned_of_leaf hin he), hcopied, rfl,
            hcow, rfl, rfl, hresolves, hmemory, .inr ⟨by omega, h.refs_of_free hfree⟩⟩

/-! ## The handler -/

omit [Fintype κ] in
theorem growStack_eq (hin : inUser va = true) (haligned : va % pageSize = 0) :
    growStack k va = mapNewPage k va true fun _ => 0 := by
  have hdown : alignDown va pageSize = va := by
    rw [alignDown, Nat.div_mul_cancel (Nat.dvd_of_mod_eq_zero haligned)]
  have hmap : ∀ physical, mapUserPage k va physical true = (do
      mapPage k va physical (userFlags true)
      recordOwnedPage k physical : VmM κ Unit) := fun physical => by
    rw [mapUserPage, if_neg (by simp [hin]), hdown]
  simp only [growStack, mapNewPage, hmap]

omit [DecidableEq κ] [Fintype κ] in
theorem inUser_of_walk {leaf : Nat × Pte} (h : s.walkUserLeaf k va = some leaf) :
    inUser va = true := by
  cases hin : inUser va with
  | true => rfl
  | false => simp [VmState.walkUserLeaf, hin] at h

omit [Fintype κ] in
theorem handlePageFault_cases (s : VmState κ) (present write : Bool) :
    let page := alignDown va pageSize
    (present = false ∧ userStackGrowLimit ≤ va ∧ va < userStackTop ∧ inUser page = true ∧
      s.missing k page = s.missing k va ∧
      handlePageFault k va present write true = mapNewPage k page true fun _ => 0) ∨
    handlePageFault k va present write true s = some (.error (), s) ∨
    inUser page = true ∧ handlePageFault k va present write true = breakCow k page := by
  have hpage := alignDown_page va
  rw [handlePageFault]
  split_ifs with hgrow hnot
  · simp only [Bool.and_eq_true, Bool.not_eq_true', decide_eq_true_eq, and_true] at hgrow
    obtain ⟨⟨hpresent, hlow⟩, hhigh⟩ := hgrow
    have hin : inUser (alignDown va pageSize) = true := by
      rw [inUser_page hpage, inUser_iff, userBase, userLimit]
      rw [userStackGrowLimit] at hlow
      rw [userStackTop] at hhigh
      omega
    have hmissing : s.missing k (alignDown va pageSize) = s.missing k va := by
      simp only [VmState.missing, (path_page hpage).1]
    rw [growStack_eq hin (by rw [alignDown, pageSize]; omega)]
    exact .inl ⟨hpresent, hlow, hhigh, hin, hmissing, rfl⟩
  · exact .inr (.inl (fail_apply _ _))
  · cases hin : inUser (alignDown va pageSize) with
    | true => exact .inr (.inr ⟨hin, rfl⟩)
    | false =>
      refine .inr (.inl (breakCow_of_none fun pt e hsome => ?_))
      rw [inUser_of_walk hsome] at hin
      cases hin

end RadKernel.Vm
