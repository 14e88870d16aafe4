import RadKernel.Vm.Sound

/-!
# Mapping pages

What the calls that map a page do: tables are added on the way to the address until there is no
free page or no room to record one, and then the entry of the address is set.
-/

namespace RadKernel.Vm

open Function List Prog

variable {κ : Type} {s t u : VmState κ} {held : Nat → Nat} {pinned : Nat → Prop} {k k' : κ}
  {π ρ : List Nat} {a b i m n p q va va' : Nat} {e : Pte}

def VmState.freePages (s : VmState κ) : Nat :=
  ((Finset.range maxTrackedPages).filter fun page => s.pageState page = .free).card

/-- How many pages a space can still record. -/
def VmState.room (s : VmState κ) (k : κ) : Nat := maxOwnedPages - (s.owned k).length

/-- With `n` more tables at paths that end `ρ` in space `k`, and otherwise the same for everyone who
holds a page. -/
structure Grown (k : κ) (ρ : List Nat) (n : Nat) (s t : VmState κ) : Prop where
  leaf : ∀ k' va, t.leaf k' va = s.leaf k' va
  other : ∀ k' π, π.length ≤ 3 → (k' = k → ¬π <:+ ρ) → t.table k' π = s.table k' π
  kept : ∀ k' π a, π.length ≤ 3 → s.table k' π = some a → t.table k' π = some a
  memory : ∀ p, 0 < s.pageRefs p → s.NoTable p → t.memory p = s.memory p
  refs : ∀ p, 0 < s.pageRefs p → t.pageRefs p = s.pageRefs p
  noTable : ∀ p, 0 < s.pageRefs p → s.NoTable p → t.NoTable p
  roots : ∀ k', (t.spaces k').pml4 = (s.spaces k').pml4
  owned : ∀ k', k' ≠ k → t.owned k' = s.owned k'
  added : ∃ new, t.owned k = s.owned k ++ new ∧ new.length = n ∧ ∀ p ∈ new, s.pageRefs p = 0
  free : t.freePages + n = s.freePages

theorem Grown.refl (k : κ) (ρ : List Nat) (s : VmState κ) : Grown k ρ 0 s s where
  leaf _ _ := rfl
  other _ _ _ _ := rfl
  kept _ _ _ _ ha := ha
  memory _ _ _ := rfl
  refs _ _ := rfl
  noTable _ _ hp := hp
  roots _ := rfl
  owned _ _ := rfl
  added := ⟨[], by simp⟩
  free := Nat.add_zero _

theorem Grown.trans (h : Grown k ρ m s t) (h' : Grown k ρ n t u) : Grown k ρ (m + n) s u where
  leaf k' va := (h'.leaf k' va).trans (h.leaf k' va)
  other k' π hπ hne := (h'.other k' π hπ hne).trans (h.other k' π hπ hne)
  kept k' π a hπ ha := h'.kept k' π a hπ (h.kept k' π a hπ ha)
  memory p hp hno :=
    (h'.memory p (by rwa [h.refs p hp]) (h.noTable p hp hno)).trans (h.memory p hp hno)
  refs p hp := (h'.refs p (by rwa [h.refs p hp])).trans (h.refs p hp)
  noTable p hp hno := h'.noTable p (by rwa [h.refs p hp]) (h.noTable p hp hno)
  roots k' := (h'.roots k').trans (h.roots k')
  owned k' hk := (h'.owned k' hk).trans (h.owned k' hk)
  added := by
    obtain ⟨new, hnew, hlen, hfree⟩ := h.added
    obtain ⟨new', hnew', hlen', hfree'⟩ := h'.added
    refine ⟨new ++ new', by rw [hnew', hnew, append_assoc], by simp [hlen, hlen'], ?_⟩
    intro p hp
    by_contra hne
    have hpos : 0 < s.pageRefs p := by omega
    rcases List.mem_append.1 hp with hp | hp
    · exact hne (hfree p hp)
    · exact hne ((h.refs p hpos).symm.trans (hfree' p hp))
  free := by
    have := h.free
    have := h'.free
    omega

section
variable (h : Grown k ρ n s t)
include h

theorem Grown.room : t.room k = s.room k - n := by
  obtain ⟨new, hnew, hlen, -⟩ := h.added
  rw [VmState.room, VmState.room, hnew, length_append, hlen, Nat.sub_sub]

/-- A longer path has more ends. -/
theorem Grown.mono {ρ' : List Nat} (hρ : ρ <:+ ρ') : Grown k ρ' n s t :=
  { h with other := fun k' π hπ hne => h.other k' π hπ fun hk hs => hne hk (hs.trans hρ) }

theorem Grown.recorded [Fintype κ] [DecidableEq κ] (hp : 0 < s.pageRefs p) :
    t.recorded p = s.recorded p := by
  refine Finset.sum_congr rfl fun k' _ => ?_
  by_cases hk : k' = k
  · obtain ⟨new, hnew, -, hfree⟩ := h.added
    have hnot : p ∉ new := fun hmem => by
      have := hfree p hmem
      omega
    rw [hk, hnew, count_append, List.count_eq_zero.2 hnot, Nat.add_zero]
  · rw [h.owned k' hk]

end

/-! ## Free pages -/

theorem freePages_congr (h : t.pageState = s.pageState) : t.freePages = s.freePages := by
  rw [VmState.freePages, VmState.freePages, h]

theorem freePages_take (hfree : s.pageState p = .free) (hlt : p < maxTrackedPages) :
    (s.take p).freePages + 1 = s.freePages := by
  have hset : ((Finset.range maxTrackedPages).filter fun q => (s.take p).pageState q = .free) =
      ((Finset.range maxTrackedPages).filter fun q => s.pageState q = .free).erase p := by
    ext q
    rw [Finset.mem_filter, Finset.mem_erase, Finset.mem_filter]
    by_cases hq : q = p
    · simp [hq, VmState.take]
    · simp [hq, VmState.take]
  have hmem : p ∈ (Finset.range maxTrackedPages).filter fun q => s.pageState q = .free :=
    Finset.mem_filter.2 ⟨Finset.mem_range.2 hlt, hfree⟩
  rw [VmState.freePages, VmState.freePages, hset]
  exact Finset.card_erase_add_one hmem

theorem freePages_eq_zero (h : ∀ page < maxTrackedPages, s.pageState page ≠ .free) :
    s.freePages = 0 := by
  rw [VmState.freePages, Finset.card_eq_zero, Finset.filter_eq_empty_iff]
  exact fun page hpage => h page (Finset.mem_range.1 hpage)

/-- A page that was just taken can be given back. -/
theorem release_take (hfree : s.pageState p = .free) (hlt : p < maxTrackedPages)
    (hrefs : s.pageRefs p = 0) (content : Page) :
    ((s.take p).fill p content).release p = s.fill p content := by
  have hstate : ((s.take p).fill p content).pageState p = .reserved := by
    simp [VmState.take, VmState.fill]
  have hone : ((s.take p).fill p content).pageRefs p = 1 := by simp [VmState.take, VmState.fill]
  rw [VmState.release, if_neg (by simp [hstate, hlt]), if_neg (by omega)]
  simp only [VmState.take, VmState.fill, Function.update_idem]
  rw [← hfree, ← hrefs, update_eq_self, update_eq_self]

/-- A page that nobody holds is written. -/
theorem Sound.grown_fill [Fintype κ] (h : Sound held pinned s) (hrefs : s.pageRefs b = 0) (k : κ)
    (ρ : List Nat) (content : Page) : Grown k ρ 0 s (s.fill b content) := by
  have hsame := sameTrees_fill (h.noTable_of_refs hrefs) content
  refine ⟨hsame.leaf, fun k' π hπ _ => hsame.table hπ, fun k' π a hπ ha => ?_, fun p hp _ => ?_,
    fun _ _ => rfl, fun p _ => hsame.noTable, fun _ => rfl, fun _ _ => rfl,
    ⟨[], by simp [VmState.owned, VmState.fill]⟩, Nat.add_zero _⟩
  · rw [hsame.table hπ, ha]
  · have hne : p ≠ b := by
      rintro rfl
      omega
    simp [VmState.fill, hne]

/-! ## Tables -/

variable [DecidableEq κ]

theorem recordOwnedPage_apply (s : VmState κ) (k : κ) (p : Nat) :
    recordOwnedPage k p s =
      if maxOwnedPages ≤ (s.owned k).length then some (.error (), s)
      else some (.ok (), s.record k p) := by
  simp only [recordOwnedPage, bind_apply, read_apply, Prog.ite_apply]
  rfl

/-- The state after a page of zeros was allocated and recorded. -/
def VmState.takeOwned (s : VmState κ) (k : κ) (page : Nat) : VmState κ :=
  ((s.take page).fill page fun _ => 0).record k page

variable [Fintype κ]

theorem Sound.allocOwnedPage_cases (h : Sound held pinned s) (k : κ) :
    (∃ b, s.pageState b = .free ∧ b < maxTrackedPages ∧ 0 < s.room k ∧
      allocOwnedPage k s = some (.ok b, s.takeOwned k b)) ∨
    (s.freePages = 0 ∧ allocOwnedPage k s = some (.error (), s)) ∨
    (s.room k = 0 ∧ ∃ b, s.pageState b = .free ∧ b < maxTrackedPages ∧
      allocOwnedPage k s = some (.error (), s.fill b fun _ => 0)) := by
  obtain ⟨halloc, hnone⟩ | ⟨b, hfree, hlt, halloc⟩ := h.allocPage_cases
  · refine .inr (.inl ⟨freePages_eq_zero hnone, ?_⟩)
    rw [allocOwnedPage, bind_of_error halloc]
  · have howned : ((s.take b).fill b fun _ => 0).owned k = s.owned k := rfl
    by_cases hroom : maxOwnedPages ≤ (s.owned k).length
    · refine .inr (.inr ⟨by rw [VmState.room]; omega, b, hfree, hlt, ?_⟩)
      rw [← release_take hfree hlt (h.refs_of_free hfree)]
      rw [allocOwnedPage, bind_of_ok halloc]
      simp [bind_apply, Prog.attempt, recordOwnedPage_apply, howned, hroom]
    · refine .inl ⟨b, hfree, hlt, by rw [VmState.room]; omega, ?_⟩
      rw [allocOwnedPage, bind_of_ok halloc]
      simp [bind_apply, Prog.attempt, recordOwnedPage_apply, howned, hroom, VmState.takeOwned]

section
variable (h : Sound held pinned s) (hfree : s.pageState b = .free)
include h hfree

theorem Sound.takeOwned
    (hlt : b < maxTrackedPages) (k : κ) : Sound held pinned (s.takeOwned k b) := by
  have hzero := h.refs_of_free hfree
  have hheld := h.counted b
  have hpin : pinned b → 0 < held b := h.pins b
  refine Sound.record ((h.take hfree hlt).fill ?_ _) hpin (.inr ?_) k
  · exact (h.take hfree hlt).noTable_of_held (by simp)
  · intro k' va e hin he _
    have hleaf : s.leaf k' va = some e := by
      have hs : SameTrees (s.take b) ((s.take b).fill b fun _ => 0) :=
        sameTrees_fill ((h.take hfree hlt).noTable_of_held (by simp)) _
      rw [hs.leaf] at he
      exact he
    have := h.refs_of_leaf hin hleaf
    rintro rfl
    omega

theorem sameTrees_takeOwned (k : κ) :
    SameTrees s (s.takeOwned k b) := by
  have hno := h.noTable_of_refs (h.refs_of_free hfree)
  refine .of_memory (sameTrees_record ((s.take b).fill b fun _ => 0) k b).roots fun p hp => ?_
  have hne : p ≠ b := by
    rintro rfl
    exact hp hno
  simp [VmState.takeOwned, VmState.record, VmState.fill, VmState.take, hne]

end

def VmState.withTable (s : VmState κ) (k : κ) (table index page : Nat) : VmState κ :=
  (s.takeOwned k page).withEntry table index (linkEntry page)

section
variable (h : Sound held pinned s) (ha : s.table k π = some a) (hπ : π.length < 3)
  (hp : (s.entry a i).present = false) (hfree : s.pageState b = .free) (hlt : b < maxTrackedPages)
include h ha hπ hp hfree hlt

theorem Sound.plants : Plants (s.takeOwned k b) (s.withTable k a i b) k π a i b := by
  have hsame := sameTrees_takeOwned h hfree k
  have hno := h.noTable_of_refs (h.refs_of_free hfree)
  have hab : a ≠ b := by
    rintro rfl
    exact hno k π (by omega) ha
  have hfits : (linkEntry b).Fits := by
    rw [maxTrackedPages] at hlt
    simp only [Pte.Fits, linkEntry]
    omega
  refine ⟨(hsame.table (by omega)).trans ha, hπ, ?_, hsame.noTable hno, fun _ => rfl, ?_,
    fun j => ?_, fun x j hx hne => ?_⟩
  · rw [hsame.entries k π a (by omega) ha, hp]
  · rw [VmState.withTable, entry_withEntry hfits, if_pos ⟨rfl, rfl⟩]
  · rw [VmState.withTable, entry_withEntry hfits, if_neg (by simp [hab.symm])]
    have hzero : (s.takeOwned k b).memory b = fun _ => 0 := by
      simp [VmState.takeOwned, VmState.record, VmState.fill]
    rw [VmState.entry, hzero, Pte.ofBytes_zero]
  · rw [VmState.withTable, entry_withEntry hfits, if_neg]
    rintro ⟨rfl, rfl⟩
    simp at hne

theorem Sound.withTable : Sound held pinned (s.withTable k a i b) := by
  have hsame := sameTrees_takeOwned h hfree k
  have hzero := h.refs_of_free hfree
  refine (h.takeOwned hfree hlt k).plant (h.plants ha hπ hp hfree hlt) rfl rfl rfl ⟨?_, ?_⟩ ?_
  · simp [VmState.takeOwned, owned_record]
  · simp [VmState.takeOwned, VmState.record, VmState.fill, VmState.take]
  · intro k' va e hin he
    rw [hsame.leaf] at he
    have := h.refs_of_leaf hin he
    rintro rfl
    omega

theorem Sound.grown_withTable :
    Grown k (i :: π) 1 s (s.withTable k a i b) ∧ (s.withTable k a i b).table k (i :: π) = some b := by
  have hsame := sameTrees_takeOwned h hfree k
  have hplants := h.plants ha hπ hp hfree hlt
  have htrees := hsame.trees h.toTrees
  have hzero := h.refs_of_free hfree
  have htable : ∀ k' π', π'.length ≤ 3 → (s.withTable k a i b).table k' π' =
      if k' = k ∧ π' = i :: π then some b else s.table k' π' := fun k' π' hπ' => by
    rw [hplants.table htrees hπ', hsame.table hπ']
  have hmemory : ∀ p, p ≠ a → p ≠ b → (s.withTable k a i b).memory p = s.memory p :=
    fun p hpa hpb => by
      rw [VmState.withTable, memory_withEntry hpa]
      simp [VmState.takeOwned, VmState.record, VmState.fill, VmState.take, hpb]
  have howned : ∀ k', (s.withTable k a i b).owned k' =
      if k' = k then s.owned k' ++ [b] else s.owned k' := fun k' =>
    owned_record ((s.take b).fill b fun _ => 0) k k' b
  have hne : ∀ p, 0 < s.pageRefs p → p ≠ b := by
    rintro p hp rfl
    omega
  have hrefs : ∀ p, p ≠ b → (s.withTable k a i b).pageRefs p = s.pageRefs p := fun p hpb => by
    simp [VmState.withTable, VmState.withEntry, VmState.takeOwned, VmState.record, VmState.fill,
      VmState.take, hpb]
  refine ⟨⟨fun k' va => ?_, fun k' π' hπ' hother => ?_, fun k' π' x hπ' hx => ?_,
    fun p hpos hno => ?_, fun p hpos => hrefs p (hne p hpos), fun p hpos hno k' π' hπ' => ?_,
    hsame.roots, fun k' hk => by rw [howned, if_neg hk], ⟨[b], ?_⟩, ?_⟩, ?_⟩
  · rw [hplants.leaf htrees, hsame.leaf]
  · rw [htable k' π' hπ', if_neg]
    rintro ⟨hk, rfl⟩
    exact hother hk suffix_rfl
  · rw [htable k' π' hπ', if_neg, hx]
    rintro ⟨rfl, rfl⟩
    rw [table_of_some ha, VmState.link, if_neg (by simp [hp])] at hx
    cases hx
  · refine hmemory p ?_ (hne p hpos)
    rintro rfl
    exact hno k π (by omega) ha
  · rw [htable k' π' hπ']
    split_ifs
    · intro heq
      exact hne p hpos (Option.some.inj heq).symm
    · exact hno k' π' hπ'
  · rw [howned, if_pos rfl]
    simpa using hzero
  · exact freePages_take hfree hlt
  · rw [htable k _ (by rw [length_cons]; omega), if_pos ⟨rfl, rfl⟩]

end

omit [Fintype κ] in
theorem ensureNextTable_absent {r : Except Unit Nat} (hp : (s.entry a i).present = false)
    (halloc : allocOwnedPage k s = some (r, t)) :
    ensureNextTable k a i s =
      match r with
      | .ok b => some (.ok b, t.withEntry a i (linkEntry b))
      | .error _ => some (.error (), t) := by
  rw [ensureNextTable, bind_of_ok (read_apply s), if_neg (by simp [hp])]
  cases r with
  | ok b =>
    rw [bind_of_ok halloc]
    rfl
  | error _ => rw [bind_of_error halloc]

omit [DecidableEq κ] [Fintype κ] in
theorem Pte.with_user (hu : e.user = true) : { e with user := true } = e := by
  cases e
  simpa using hu.symm

/-- The entry of a table on the way to an address: the table is there, or it is added, or there is
no free page or no room to record one. -/
theorem ensureNextTable_spec (h : Sound held pinned s) (ha : s.table k π = some a)
    (hπ : π.length < 3) (hlarge : ¬LargePath (i :: π)) :
    (∃ b t n, ensureNextTable k a i s = some (.ok b, t) ∧ Sound held pinned t ∧
      Grown k (i :: π) n s t ∧ t.table k (i :: π) = some b ∧ n ≤ s.room k ∧
      n = if s.table k (i :: π) = none then 1 else 0) ∨
    (∃ t, ensureNextTable k a i s = some (.error (), t) ∧ Sound held pinned t ∧
      Grown k (i :: π) 0 s t ∧ s.table k (i :: π) = none ∧ (s.freePages = 0 ∨ s.room k = 0)) := by
  cases hp : (s.entry a i).present with
  | true =>
    obtain ⟨hl, hu⟩ := h.inner_of_present ha hπ hlarge hp
    have hrun : ensureNextTable k a i s =
        some (.ok (s.entry a i).page, s.withEntry a i { s.entry a i with user := true }) := by
      simp [ensureNextTable, bind_apply, hp]
    rw [Pte.with_user hu] at hrun
    have hlink : s.table k (i :: π) = some (s.entry a i).page := by
      rw [table_of_some ha, link_eq_some]
      exact ⟨hp, hl, rfl⟩
    have hsame : SameTrees s (s.withEntry a i (s.entry a i)) := by
      refine ⟨fun _ => rfl, fun k' π' x _ _ j => ?_⟩
      rw [entry_withEntry (entry_fits s a i)]
      split_ifs with hx
      · rw [hx.1, hx.2]
      · rfl
    refine .inl ⟨(s.entry a i).page, s.withEntry a i (s.entry a i), 0, hrun,
      h.write hsame (fun _ => rfl) rfl rfl, ?_, ?_, Nat.zero_le _, by simp [hlink]⟩
    · refine ⟨hsame.leaf, fun k' π' hπ' _ => hsame.table hπ', fun k' π' x hπ' hx => ?_,
        fun p _ hno => ?_, fun _ _ => rfl, fun p _ => hsame.noTable, fun _ => rfl, fun _ _ => rfl,
        ⟨[], by simp [VmState.owned, VmState.withEntry]⟩, Nat.add_zero _⟩
      · rw [hsame.table hπ', hx]
      · refine memory_withEntry ?_
        rintro rfl
        exact hno k π (by omega) ha
    · rw [hsame.table (by rw [length_cons]; omega), hlink]
  | false =>
    have hnone : s.table k (i :: π) = none := by
      rw [table_of_some ha, VmState.link, if_neg (by simp [hp])]
    obtain ⟨b, hfree, hlt, hroom, halloc⟩ | ⟨hempty, halloc⟩ | ⟨hroom, b, hfree, hlt, halloc⟩ :=
      h.allocOwnedPage_cases k
    · obtain ⟨hgrown, htable⟩ := h.grown_withTable ha hπ hp hfree hlt
      exact .inl ⟨b, s.withTable k a i b, 1, ensureNextTable_absent hp halloc,
        h.withTable ha hπ hp hfree hlt, hgrown, htable, hroom, by simp [hnone]⟩
    · exact .inr ⟨s, ensureNextTable_absent hp halloc, h, .refl k _ s, hnone, .inl hempty⟩
    · have hno := h.noTable_of_refs (h.refs_of_free hfree)
      exact .inr ⟨s.fill b fun _ => 0, ensureNextTable_absent hp halloc, h.fill hno _,
        h.grown_fill (h.refs_of_free hfree) k _ _, hnone, .inr hroom⟩

/-- How many tables there are to add on the way to an address. -/
def VmState.missing (s : VmState κ) (k : κ) (virtualAddress : Nat) : Nat :=
  (List.range 3).countP fun n => (s.table k ((path virtualAddress).drop n)).isNone

omit [DecidableEq κ] [Fintype κ] in
theorem missing_le (s : VmState κ) (k : κ) (va : Nat) : s.missing k va ≤ 3 := by
  have h := countP_le_length (p := fun n => (s.table k ((path va).drop n)).isNone)
    (l := List.range 3)
  rwa [length_range] at h

omit [DecidableEq κ] [Fintype κ] in
theorem missing_eq (s : VmState κ) (k : κ) (va : Nat) : s.missing k va =
    (if s.table k [tableIndex va 3] = none then 1 else 0) +
      ((if s.table k [tableIndex va 2, tableIndex va 3] = none then 1 else 0) +
        if s.table k (path va) = none then 1 else 0) := by
  simp only [VmState.missing, range_succ, range_zero, nil_append, cons_append,
    countP_cons, countP_nil, Option.isNone_iff_eq_none, drop_zero]
  simp only [path, drop_succ_cons, drop_zero]
  omega

/-- The tables on the way to an address are added when there are free pages for them and room to
record them. -/
theorem ensureTables_spec (h : Sound held pinned s) (hroot : (s.spaces k).pml4 ≠ 0)
    (hva : va % pageSize = 0) (hlarge : ¬LargePath (path va)) :
    (∃ pt t, ensureTables k va s = some (.ok pt, t) ∧ Sound held pinned t ∧
      Grown k (path va) (s.missing k va) s t ∧ t.table k (path va) = some pt ∧
      s.missing k va ≤ s.room k) ∨
    (∃ t n, ensureTables k va s = some (.error (), t) ∧ Sound held pinned t ∧
      Grown k (path va) n s t ∧ (s.freePages < s.missing k va ∨ s.room k < s.missing k va)) := by
  have hshort : ∀ π : List Nat, π.length < 3 → ¬LargePath π := fun π hπ hl => by
    have := hl.length
    omega
  have t3 : s.table k [] = some (s.spaces k).pml4 := by
    simp [Forest.reach, VmState.root, hroot]
  have hrun : ∀ x, ensureTables k va x =
      (if (x.spaces k).pml4 = 0 ∨ va % pageSize ≠ 0 then Prog.fail () else do
        let pdpt ← ensureNextTable k (x.spaces k).pml4 (tableIndex va 3)
        let pd ← ensureNextTable k pdpt (tableIndex va 2)
        ensureNextTable k pd (tableIndex va 1) : VmM κ Nat) x := fun x => rfl
  rw [hrun, if_neg (by simp [hroot, hva]), missing_eq, bind_apply]
  obtain ⟨a2, s2, n2, run2, h2, g2, t2, hroom2, hn2⟩ | ⟨s2, run2, h2, g2, hnone, hfull⟩ :=
    ensureNextTable_spec h t3 (by simp) (hshort [tableIndex va 3] (by simp))
  · rw [run2]
    dsimp only
    rw [bind_apply]
    have hsame1 := g2.other k [tableIndex va 2, tableIndex va 3] (by simp) fun _ hs => by
      simpa using hs.length_le
    have hsame0 := g2.other k (path va) (by simp) fun _ hs => by simpa using hs.length_le
    obtain ⟨a1, s1, n1, run1, h1, g1, t1, hroom1, hn1⟩ | ⟨s1, run1, h1, g1, hnone, hfull⟩ :=
      ensureNextTable_spec h2 t2 (by simp) (hshort [tableIndex va 2, tableIndex va 3] (by simp))
    · rw [run1]
      have hsame0' := g1.other k (path va) (by simp) fun _ hs => by simpa using hs.length_le
      have g : Grown k (path va) (n2 + n1) s s1 :=
        (g2.mono ⟨[_, _], rfl⟩).trans (g1.mono ⟨[_], rfl⟩)
      obtain ⟨a0, s0, n0, run0, h0, g0, t0, hroom0, hn0⟩ | ⟨s0, run0, h0, g0, hnone, hfull⟩ :=
        ensureNextTable_spec h1 t1 (by simp) hlarge
      · have hcount : n0 = if s.table k (path va) = none then 1 else 0 := by
          rw [hn0, show tableIndex va 1 :: _ = path va from rfl, hsame0', hsame0]
        rw [← hcount, ← hsame1, ← hn1, ← hn2]
        refine .inl ⟨a0, s0, run0, h0, by rw [← Nat.add_assoc]; exact g.trans g0, t0, ?_⟩
        have := g2.room
        have := g.room
        omega
      · have hnone' : s.table k (path va) = none := by
          rw [← hsame0, ← hsame0']
          exact hnone
        refine .inr ⟨s0, _, run0, h0, g.trans g0, ?_⟩
        rw [if_pos hnone', ← hsame1, ← hn1, ← hn2]
        have := g.free
        have := g.room
        omega
    · rw [run1]
      refine .inr ⟨s1, _, rfl, h1, (g2.mono ⟨[_, _], rfl⟩).trans (g1.mono ⟨[_], rfl⟩), ?_⟩
      rw [hsame1] at hnone
      rw [if_pos hnone, ← hn2]
      have := g2.free
      have := g2.room
      omega
  · refine .inr ⟨s2, 0, by rw [run2], h2, g2.mono ⟨[_, _], rfl⟩, ?_⟩
    rw [if_pos hnone]
    omega

/-! ## Pages -/

/-- Page `e.page` is mapped at an address of space `k` and recorded, with `n` more tables and `m`
pages fewer that are free. -/
structure Installs (k : κ) (va : Nat) (e : Pte) (n m : Nat) (s t : VmState κ) : Prop where
  leaf : ∀ k' va', va' < 2 ^ 48 →
    t.leaf k' va' = if k' = k ∧ va' / 4096 = va / 4096 then some e else s.leaf k' va'
  other : ∀ k' π, π.length ≤ 3 → (k' = k → ¬π <:+ path va) → t.table k' π = s.table k' π
  kept : ∀ k' π a, π.length ≤ 3 → s.table k' π = some a → t.table k' π = some a
  way : t.table k (path va) ≠ none
  memory : ∀ p, 0 < s.pageRefs p → s.NoTable p → t.memory p = s.memory p
  refs : ∀ p, 0 < s.pageRefs p → t.pageRefs p = s.pageRefs p
  noTable : ∀ p, 0 < s.pageRefs p → s.NoTable p → t.NoTable p
  roots : ∀ k', (t.spaces k').pml4 = (s.spaces k').pml4
  owned : ∀ k', k' ≠ k → t.owned k' = s.owned k'
  free : t.freePages + m = s.freePages
  room : t.room k + (n + 1) = s.room k

omit [DecidableEq κ] [Fintype κ] in
theorem alignDown_page (va : Nat) : alignDown va pageSize / 4096 = va / 4096 := by
  rw [alignDown, pageSize]
  omega

/-- The entry of a page, with the flags of `map_page`. -/
def Pte.mapping (flags : Pte) (page : Nat) : Pte := { flags with page, present := true }

omit [Fintype κ] in
/-- The tables were added and the entry is set. -/
theorem Grown.installs (g : Grown k (path va) n s t) (ht : Trees t)
    (hpt : t.table k (path va) = some a) (hin : inUser va = true) (he : e.present = true)
    (hfits : e.Fits) (hpos : 0 < t.room k) (hle : n ≤ s.room k) :
    Installs k va e n n s ((t.withEntry a (tableIndex va 0) e).record k e.page) := by
  have hsame := sameTrees_record (t.withEntry a (tableIndex va 0) e) k e.page
  have htable : ∀ k' π, π.length ≤ 3 →
      ((t.withEntry a (tableIndex va 0) e).record k e.page).table k' π = t.table k' π :=
    fun k' π hπ => (hsame.table hπ).trans (ht.table_setLeaf hpt hfits hπ)
  have howned : ∀ k', ((t.withEntry a (tableIndex va 0) e).record k e.page).owned k' =
      if k' = k then t.owned k' ++ [e.page] else t.owned k' := fun k' => owned_record _ k k' e.page
  refine ⟨fun k' va' hva' => ?_, fun k' π hπ hne => ?_, fun k' π x hπ hx => ?_, ?_,
    fun q hq hno => ?_, g.refs, fun q hq hno k' π hπ => ?_, fun k' => ?_, fun k' hk => ?_, g.free, ?_⟩
  · rw [hsame.leaf, ht.leaf_setLeaf hpt hfits (inUser.lt hin) hva', if_pos he, g.leaf]
  · rw [htable k' π hπ, g.other k' π hπ hne]
  · rw [htable k' π hπ, g.kept k' π x hπ hx]
  · rw [htable k _ (by simp), hpt]
    simp
  · have hne : q ≠ a := by
      rintro rfl
      exact g.noTable q hq hno k (path va) (by simp) hpt
    exact (memory_withEntry hne).trans (g.memory q hq hno)
  · rw [htable k' π hπ]
    exact g.noTable q hq hno k' π hπ
  · exact (hsame.roots k').trans (g.roots k')
  · rw [howned, if_neg hk, g.owned k' hk]
  · have := g.room
    rw [VmState.room] at hpos
    rw [VmState.room, howned, if_pos rfl, length_append, length_singleton]
    rw [VmState.room] at this
    omega

/-- `map_page` and then `record_owned_page`. -/
def mapRecord (k : κ) (virtualAddress page : Nat) (flags : Pte) : VmM κ Unit := do
  mapPage k (alignDown virtualAddress pageSize) page flags
  recordOwnedPage k page

/-- `map_page` and then `record_owned_page`, for a page in the hands of the code: both succeed, or
tables are added and there is no page for another one, or the entry is set and there is no room to
record the page. -/
theorem mapRecord_cases {flags : Pte} (h : Sound (bump held p) pinned s)
    (hin : inUser va = true) (hu : flags.user = true) (hp : p < 2 ^ 40)
    (hpin : pinned p → 0 < held p)
    (hshared : pinned p ∨ (flags.write = true → s.recorded p = 0) ∧
      ∀ k va e, inUser va = true → s.leaf k va = some e → e.write = true → e.page ≠ p)
    (hexclusive : flags.write = true → flags.cow = false) :
    (∃ t, mapRecord k va p flags s = some (.ok (), t) ∧ Sound held pinned t ∧
        Installs k va (flags.mapping p) (s.missing k va) (s.missing k va) s t) ∨
    (∃ t n, mapRecord k va p flags s = some (.error (), t) ∧ Sound (bump held p) pinned t ∧
        Grown k (path va) n s t ∧
        ((s.spaces k).pml4 ≠ 0 → s.freePages < s.missing k va ∨ s.room k < s.missing k va)) ∨
    ∃ t pt, mapRecord k va p flags s =
        some (.error (), t.withEntry pt (tableIndex va 0) (flags.mapping p)) ∧
      Sound (bump held p) pinned t ∧ Grown k (path va) (s.missing k va) s t ∧
      t.table k (path va) = some pt ∧ s.missing k va = s.room k := by
  obtain ⟨hpath, hindex⟩ := path_page (alignDown_page va)
  by_cases hroot : (s.spaces k).pml4 = 0
  · refine .inr (.inl ⟨s, 0, ?_, h, .refl k _ s, fun hne => absurd hroot hne⟩)
    simp [mapRecord, mapPage, ensureTables, bind_apply, hroot]
  · have hmissing : s.missing k (alignDown va pageSize) = s.missing k va := by
      simp only [VmState.missing, hpath]
    have hva : alignDown va pageSize % pageSize = 0 := by
      rw [alignDown, pageSize]
      omega
    obtain ⟨pt, t, run, ht, g, hpt, hle⟩ | ⟨t, n, run, ht, g, hfull⟩ :=
      ensureTables_spec h hroot hva (by rw [hpath]; exact not_largePath_user hin)
    · rw [hmissing] at g hle
      rw [hpath] at g hpt
      have hrefs : 0 < s.pageRefs p := h.refs_of_held (by simp)
      have hfits : (flags.mapping p).Fits := hp
      have hrun : mapRecord k va p flags s =
          recordOwnedPage k p (t.withEntry pt (tableIndex va 0) (flags.mapping p)) := by
        simp only [mapRecord, mapPage, bind_apply, run, setEntry_apply, hindex]
        rfl
      rw [hrun, recordOwnedPage_apply]
      have hspace : (t.withEntry pt (tableIndex va 0) (flags.mapping p)).owned k = t.owned k := rfl
      rw [hspace]
      by_cases hroom : maxOwnedPages ≤ (t.owned k).length
      · rw [if_pos hroom]
        have hzero : t.room k = 0 := by
          rw [VmState.room]
          omega
        have := g.room
        exact .inr (.inr ⟨t, pt, rfl, ht, g, hpt, by omega⟩)
      · rw [if_neg hroom]
        have hset : Sound held pinned
            ((t.withEntry pt (tableIndex va 0) (flags.mapping p)).record k p) := by
          refine ht.install hpt hfits hin rfl hu hpin ?_ hexclusive
          refine hshared.imp id fun hs => ⟨fun hw => ?_, fun k' va' e hin' he => ?_⟩
          · rw [show (flags.mapping p).page = p from rfl, g.recorded hrefs]
            exact hs.1 hw
          · rw [g.leaf] at he
            exact hs.2 k' va' e hin' he
        have hlt : 0 < t.room k := by
          rw [VmState.room]
          omega
        exact .inl ⟨_, rfl, hset, g.installs ht.toTrees hpt hin rfl hfits hlt hle⟩
    · rw [hmissing] at hfull
      rw [hpath] at g
      refine .inr (.inl ⟨t, n, ?_, ht, g, fun _ => hfull⟩)
      simp [mapRecord, mapPage, bind_apply, run]

/-- Recording is left without room only in `hroom`. -/
theorem mapRecord_spec (flags : Pte) (h : Sound (bump held p) pinned s)
    (hin : inUser va = true) (hu : flags.user = true) (hp : p < 2 ^ 40)
    (hpin : pinned p → 0 < held p)
    (hshared : pinned p ∨ (flags.write = true → s.recorded p = 0) ∧
      ∀ k va e, inUser va = true → s.leaf k va = some e → e.write = true → e.page ≠ p)
    (hexclusive : flags.write = true → flags.cow = false)
    (hroom : s.missing k va = s.room k → s.freePages < s.missing k va) :
    (∃ t, mapRecord k va p flags s = some (.ok (), t) ∧ Sound held pinned t ∧
        Installs k va (flags.mapping p) (s.missing k va) (s.missing k va) s t) ∨
    (∃ t n, mapRecord k va p flags s = some (.error (), t) ∧ Sound (bump held p) pinned t ∧
      Grown k (path va) n s t ∧
        ((s.spaces k).pml4 ≠ 0 → s.freePages < s.missing k va ∨ s.room k < s.missing k va)) := by
  obtain hdone | hfail | ⟨t, pt, -, -, g, -, heq⟩ :=
    mapRecord_cases h hin hu hp hpin hshared hexclusive
  · exact .inl hdone
  · exact .inr hfail
  · have := g.free
    have := hroom heq
    omega

omit [DecidableEq κ] [Fintype κ] in
theorem freePages_release (hstate : s.pageState p = .reserved) (hrefs : s.pageRefs p = 1)
    (hlt : p < maxTrackedPages) : (s.release p).freePages = s.freePages + 1 := by
  rw [VmState.release, if_neg (by simp [hstate, hlt]), if_neg (by omega)]
  have hfree : (update s.pageState p .free) p = PageState.free := by simp
  have htake := freePages_take (s := { s with pageState := update s.pageState p .free }) hfree hlt
  have hback : ∀ x : VmState κ, x.pageState = update (update s.pageState p .free) p
      .reserved → x.freePages = s.freePages := fun x hx => by
    refine freePages_congr ?_
    rw [hx, Function.update_idem, ← hstate, update_eq_self]
  rw [hback _ rfl] at htake
  exact htake.symm

omit [DecidableEq κ] in
theorem Sound.grown_release (h : Sound held pinned s) (hfree : s.pageState p = .free)
    (hlt : p < maxTrackedPages) {content : Page} (ht : Sound (bump held p) pinned t)
    (g : Grown k ρ n ((s.take p).fill p content) t) :
    Sound held pinned (t.release p) ∧ Grown k ρ n s (t.release p) := by
  have hzero := h.refs_of_free hfree
  have hno : (s.take p).NoTable p := (h.take hfree hlt).noTable_of_held (by simp)
  have hsame := sameTrees_fill hno content
  have hone : ((s.take p).fill p content).pageRefs p = 1 := by simp [VmState.take, VmState.fill]
  have hrefs : t.pageRefs p = 1 := (g.refs p (by omega)).trans hone
  have hstate := (ht.reserved p (by omega)).2
  have hother : ∀ q, 0 < s.pageRefs q → q ≠ p ∧
      0 < ((s.take p).fill p content).pageRefs q := fun q hq => by
    have hqp : q ≠ p := by
      rintro rfl
      omega
    exact ⟨hqp, by simpa [VmState.take, VmState.fill, hqp] using hq⟩
  have hrelease : t.release p = { t with
      pageState := update t.pageState p .free
      pageRefs := update t.pageRefs p 0 } := by
    rw [VmState.release, if_neg (by simp [hstate, hlt]), if_neg (by omega)]
  refine ⟨ht.release (h.pins p), ?_⟩
  refine ⟨fun k' va => ?_, fun k' π hπ hne => ?_, fun k' π a hπ ha => ?_, fun q hq hno => ?_,
    fun q hq => ?_, fun q hq hno => ?_, fun k' => ?_, fun k' hk => ?_, ?_, ?_⟩
  · rw [hrelease]
    exact (g.leaf k' va).trans (hsame.leaf k' va)
  · rw [hrelease]
    exact (g.other k' π hπ hne).trans (hsame.table hπ)
  · rw [hrelease]
    exact g.kept k' π a hπ ((hsame.table hπ).trans ha)
  · rw [hrelease]
    refine (g.memory q (hother q hq).2 (hsame.noTable hno)).trans ?_
    simp [VmState.take, VmState.fill, (hother q hq).1]
  · rw [hrelease]
    dsimp only
    rw [update_of_ne (hother q hq).1, g.refs q (hother q hq).2]
    simp [VmState.take, VmState.fill, (hother q hq).1]
  · rw [hrelease]
    exact g.noTable q (hother q hq).2 (hsame.noTable hno)
  · rw [hrelease]
    exact g.roots k'
  · rw [hrelease]
    exact g.owned k' hk
  · obtain ⟨new, hnew, hlen, hfresh⟩ := g.added
    refine ⟨new, ?_, hlen, fun q hq => ?_⟩
    · rw [hrelease]
      exact hnew
    · have := hfresh q hq
      by_contra hne
      have := (hother q (by omega)).2
      omega
  · rw [freePages_release hstate hrefs hlt]
    have := g.free
    have := freePages_take hfree hlt
    have hfill : ((s.take p).fill p content).freePages = (s.take p).freePages := rfl
    omega

theorem Sound.installs_take (h : Sound held pinned s) (hfree : s.pageState p = .free)
    (hlt : p < maxTrackedPages) {content : Page}
    (g : Installs k va e n m ((s.take p).fill p content) t) : Installs k va e n (m + 1) s t := by
  have hzero := h.refs_of_free hfree
  have hno : (s.take p).NoTable p := (h.take hfree hlt).noTable_of_held (by simp)
  have hsame := sameTrees_fill hno content
  have hother : ∀ q, 0 < s.pageRefs q → q ≠ p ∧
      0 < ((s.take p).fill p content).pageRefs q := fun q hq => by
    have hqp : q ≠ p := by
      rintro rfl
      omega
    exact ⟨hqp, by simpa [VmState.take, VmState.fill, hqp] using hq⟩
  refine ⟨fun k' va' hva' => ?_, fun k' π hπ hne => ?_, fun k' π a hπ ha => ?_, g.way,
    fun q hq hno => ?_, fun q hq => ?_, fun q hq hno => ?_, g.roots, g.owned, ?_, g.room⟩
  · rw [g.leaf k' va' hva', hsame.leaf]
    rfl
  · exact (g.other k' π hπ hne).trans (hsame.table hπ)
  · exact g.kept k' π a hπ ((hsame.table hπ).trans ha)
  · refine (g.memory q (hother q hq).2 (hsame.noTable hno)).trans ?_
    simp [VmState.take, VmState.fill, (hother q hq).1]
  · rw [g.refs q (hother q hq).2]
    simp [VmState.take, VmState.fill, (hother q hq).1]
  · exact g.noTable q (hother q hq).2 (hsame.noTable hno)
  · have := g.free
    have := freePages_take hfree hlt
    have hfill : ((s.take p).fill p content).freePages = (s.take p).freePages := rfl
    omega

/-- A new page is mapped, or nothing is mapped, or the page is mapped and given back, as there is no
room to record it. -/
theorem mapNewPage_cases (h : Sound held pinned s) (hin : inUser va = true) (writable : Bool)
    (content : Page) :
    (∃ p t, mapNewPage k va writable content s = some (.ok (), t) ∧ Sound held pinned t ∧
      Installs k va ((userFlags writable).mapping p) (s.missing k va) (s.missing k va + 1) s t ∧
      s.pageRefs p = 0 ∧ t.memory p = content) ∨
    (∃ t n, mapNewPage k va writable content s = some (.error (), t) ∧ Sound held pinned t ∧
      Grown k (path va) n s t ∧
      ((s.spaces k).pml4 ≠ 0 → s.freePages ≤ s.missing k va ∨ s.room k < s.missing k va)) ∨
    ∃ p t, mapNewPage k va writable content s = some (.error (), t) ∧ Trees t ∧
      t.leaf k va = some ((userFlags writable).mapping p) ∧ t.pageState p = .free ∧
      s.missing k va = s.room k ∧ s.missing k va < s.freePages := by
  obtain ⟨halloc, hnone⟩ | ⟨p, hfree, hlt, halloc⟩ := h.allocPage_cases
  · refine .inr (.inl ⟨s, 0, ?_, h, .refl k _ s, fun _ => .inl ?_⟩)
    · rw [mapNewPage, bind_of_error halloc]
    · rw [freePages_eq_zero hnone]
      exact Nat.zero_le _
  · have hno : (s.take p).NoTable p := (h.take hfree hlt).noTable_of_held (by simp)
    have hzero := h.refs_of_free hfree
    have hs := (h.take hfree hlt).fill hno content
    have hsame := sameTrees_fill hno content
    have hmissing : ((s.take p).fill p content).missing k va = s.missing k va := by
      have htable : ∀ n, ((s.take p).fill p content).table k ((path va).drop n) =
          s.table k ((path va).drop n) := fun n => hsame.table (by simp)
      simp only [VmState.missing, htable]
    have hpages : ((s.take p).fill p content).freePages + 1 = s.freePages := freePages_take hfree hlt
    have hspace : ((s.take p).fill p content).room k = s.room k := rfl
    have hleaf : ∀ k' va e, inUser va = true → ((s.take p).fill p content).leaf k' va = some e →
        e.write = true → e.page ≠ p := fun k' va e hin he _ => by
      rw [hsame.leaf] at he
      have := h.refs_of_leaf hin he
      rintro rfl
      omega
    have hcount : ((s.take p).fill p content).recorded p = 0 := by
      have hrecorded : ((s.take p).fill p content).recorded p = s.recorded p := rfl
      have := h.recorded_le p
      omega
    have hrun : ∀ r u,
        mapRecord k va p (userFlags writable) ((s.take p).fill p content) = some (r, u) →
        mapNewPage k va writable content s = some (r, if r.toBool then u else u.release p) := by
      intro r u hru
      rw [mapNewPage, bind_of_ok halloc, bind_of_ok (setPage_apply _ _ _)]
      have hmap : mapUserPage k va p writable ((s.take p).fill p content) = some (r, u) := by
        rw [mapUserPage, if_neg (by simp [hin])]
        exact hru
      rw [bind_of_ok (attempt_of hmap)]
      cases r <;> rfl
    have hp : p < 2 ^ 40 := by
      rw [maxTrackedPages] at hlt
      omega
    obtain ⟨t, run, ht, g⟩ | ⟨t, n, run, ht, g, hfull⟩ | ⟨t, pt, run, ht, g, hpt, heq⟩ :=
      mapRecord_cases hs hin (show (userFlags writable).user = true from rfl) hp (h.pins p)
        (.inr ⟨fun _ => hcount, hleaf⟩) fun _ => rfl
    · rw [hmissing] at g
      refine .inl ⟨p, t, hrun _ _ run, ht, h.installs_take hfree hlt g, hzero, ?_⟩
      have hpos : 0 < ((s.take p).fill p content).pageRefs p := by simp [VmState.take, VmState.fill]
      rw [g.memory p hpos (hsame.noTable hno)]
      simp [VmState.fill]
    · obtain ⟨hrelease, hgrown⟩ := h.grown_release hfree hlt ht g
      refine .inr (.inl ⟨t.release p, n, hrun _ _ run, hrelease, hgrown, fun hroot => ?_⟩)
      rw [hmissing, hspace] at hfull
      have := hfull hroot
      omega
    · have hfits : ((userFlags writable).mapping p).Fits := hp
      have hone : t.pageRefs p = 1 := by
        rw [g.refs p (by simp [VmState.take, VmState.fill])]
        simp [VmState.take, VmState.fill]
      have hstate := (ht.reserved p (by omega)).2
      have hsame := sameTrees_release
        (t.withEntry pt (tableIndex va 0) ((userFlags writable).mapping p)) p
      refine .inr (.inr ⟨p, VmState.release _ p, hrun _ _ run, hsame.trees
        (ht.setLeaf hpt hfits (inUser.lt hin) hin.symm), ?_, ?_, ?_, ?_⟩)
      · rw [hsame.leaf, ht.leaf_setLeaf hpt hfits (inUser.lt hin) (inUser.lt hin), if_pos ⟨rfl, rfl⟩]
        rfl
      · simp [VmState.release, VmState.withEntry, hstate, hone, Nat.not_le.2 hlt]
      · rwa [hmissing, hspace] at heq
      · have := g.free
        omega

/-- A new page is mapped, or nothing is mapped; `hroom` is for recording it. -/
theorem mapNewPage_spec (h : Sound held pinned s) (hin : inUser va = true) (writable : Bool)
    (content : Page) (hroom : s.missing k va = s.room k → s.freePages ≤ s.missing k va) :
    (∃ p t, mapNewPage k va writable content s = some (.ok (), t) ∧ Sound held pinned t ∧
      Installs k va ((userFlags writable).mapping p) (s.missing k va) (s.missing k va + 1) s t ∧
      s.pageRefs p = 0 ∧ t.memory p = content) ∨
    (∃ t n, mapNewPage k va writable content s = some (.error (), t) ∧ Sound held pinned t ∧
      Grown k (path va) n s t ∧
      ((s.spaces k).pml4 ≠ 0 → s.freePages ≤ s.missing k va ∨ s.room k < s.missing k va)) := by
  obtain hdone | hfail | ⟨p, t, -, -, -, -, heq, hlt⟩ := mapNewPage_cases h hin writable content
  · exact .inl hdone
  · exact .inr hfail
  · exact absurd (hroom heq) (Nat.not_le.2 hlt)

/-- Outside the window for user programs nothing is mapped. -/
theorem mapNewPage_outside (h : Sound held pinned s) (hout : inUser va = false) (writable : Bool)
    (content : Page) (k : κ) (ρ : List Nat) :
    ∃ t, mapNewPage k va writable content s = some (.error (), t) ∧ Sound held pinned t ∧
      Grown k ρ 0 s t := by
  obtain ⟨halloc, -⟩ | ⟨p, hfree, hlt, halloc⟩ := h.allocPage_cases
  · exact ⟨s, by rw [mapNewPage, bind_of_error halloc], h, .refl k ρ s⟩
  · have hzero := h.refs_of_free hfree
    have hmap : mapUserPage k va p writable ((s.take p).fill p content) =
        some (.error (), (s.take p).fill p content) := by
      rw [mapUserPage, if_pos (by simp [hout])]
      rfl
    refine ⟨s.fill p content, ?_, h.fill (h.noTable_of_refs hzero) content,
      h.grown_fill hzero k ρ content⟩
    rw [mapNewPage, bind_of_ok halloc, bind_of_ok (setPage_apply _ _ _),
      bind_of_ok (attempt_of hmap), ← release_take hfree hlt hzero]
    rfl

/-! ## Shared pages -/

/-- The state after `retain_page`. -/
def VmState.retain (s : VmState κ) (page : Nat) : VmState κ :=
  { s with pageRefs := Function.update s.pageRefs page ((s.pageRefs page + 1) % 2 ^ 16) }

omit [DecidableEq κ] [Fintype κ] in
theorem refs_retain_self (hwrap : s.pageRefs p + 1 < 2 ^ 16) :
    (s.retain p).pageRefs p = s.pageRefs p + 1 := by
  simp only [VmState.retain, update_self]
  exact Nat.mod_eq_of_lt hwrap

omit [DecidableEq κ] [Fintype κ] in
theorem refs_retain_of_ne (s : VmState κ) (p : Nat) :
    ∀ q, q ≠ p → (s.retain p).pageRefs q = s.pageRefs q := fun q hq => by
  simp [VmState.retain, hq]

omit [DecidableEq κ] in
theorem Sound.retainPage_apply (h : Sound held pinned s) (hpos : 0 < s.pageRefs p) :
    retainPage p s = some (.ok (), s.retain p) := by
  obtain ⟨hlt, hstate⟩ := h.reserved p hpos
  have hnot : ¬(maxTrackedPages ≤ p ∨ s.pageState p ≠ .reserved ∨ s.pageRefs p = 0) := by
    simp only [hstate, ne_eq, not_true_eq_false, false_or, not_or]
    omega
  rw [retainPage, bind_apply, read_apply]
  dsimp only
  rw [if_neg hnot]
  rfl

omit [DecidableEq κ] in
theorem Sound.retain (h : Sound held pinned s) (hpos : 0 < s.pageRefs p)
    (hwrap : s.pageRefs p + 1 < 2 ^ 16) (hno : s.NoTable p) :
    Sound (bump held p) pinned (s.retain p) := by
  have hself := refs_retain_self hwrap
  have hother := refs_retain_of_ne s p
  refine h.of_sameTrees (.of_memory (fun _ => rfl) fun _ _ => rfl) (fun _ _ => Nat.le_refl _)
    (fun q hq => hother q ?_) (fun q => ?_) (fun q hq => ?_) ?_ h.alone fun q hq => ?_
  · rintro rfl
    exact hq hno
  · have hrecorded : (s.retain p).recorded q = s.recorded q := rfl
    have := h.counted q
    by_cases hqp : q = p
    · subst hqp
      rw [hself, hrecorded, bump_self]
      omega
    · rw [hother q hqp, hrecorded, bump_of_ne hqp]
      exact this
  · by_cases hqp : q = p
    · subst hqp
      exact h.reserved q hpos
    · rw [hother q hqp] at hq
      exact h.reserved q hq
  · have hne : (0 : Nat) ≠ p := by
      rintro rfl
      have := h.null.1
      omega
    exact ⟨(hother 0 hne).trans h.null.1, h.null.2⟩
  · have := h.pins q hq
    by_cases hqp : q = p
    · subst hqp
      simp
    · rwa [bump_of_ne hqp]

omit [DecidableEq κ] in
/-- A reference that was taken in vain is given back. -/
theorem Sound.grown_release_retain (h : Sound held pinned s) (hpos : 0 < s.pageRefs p)
    (hwrap : s.pageRefs p + 1 < 2 ^ 16) (ht : Sound (bump held p) pinned t)
    (g : Grown k ρ n (s.retain p) t) :
    Sound held pinned (t.release p) ∧ Grown k ρ n s (t.release p) := by
  have hself := refs_retain_self hwrap
  have hother := refs_retain_of_ne s p
  have hkeep : ∀ q, 0 < s.pageRefs q → 0 < (s.retain p).pageRefs q := fun q hq => by
    by_cases hqp : q = p
    · subst hqp
      omega
    · rwa [hother q hqp]
  have hrefs : t.pageRefs p = s.pageRefs p + 1 := by rw [g.refs p (by omega), hself]
  obtain ⟨hlt, hstate⟩ := ht.reserved p (by omega)
  have hrelease : t.release p =
      { t with pageRefs := update t.pageRefs p (t.pageRefs p - 1) } := by
    rw [VmState.release, if_neg (by simp [hstate, hlt]), if_pos (by omega)]
  refine ⟨ht.release (h.pins p), ?_⟩
  rw [hrelease]
  refine ⟨g.leaf, g.other, g.kept, fun q hq => g.memory q (hkeep q hq), fun q hq => ?_,
    fun q hq => g.noTable q (hkeep q hq), g.roots, g.owned, ?_, g.free⟩
  · by_cases hqp : q = p
    · subst hqp
      simp [hrefs]
    · simp only [update_of_ne hqp]
      rw [g.refs q (hkeep q hq), hother q hqp]
  · obtain ⟨new, hnew, hlen, hfresh⟩ := g.added
    refine ⟨new, hnew, hlen, fun q hq => ?_⟩
    by_contra hne
    have := hkeep q (by omega)
    have := hfresh q hq
    omega

/-- A page of the kernel is mapped, or nothing is mapped. -/
theorem mapSharedPage_spec (h : Sound held pinned s) (hin : inUser va = true) (writable : Bool)
    (hpinned : pinned p) (hwrap : s.pageRefs p + 1 < 2 ^ 16)
    (hroom : s.missing k va = s.room k → s.freePages < s.missing k va) :
    (∃ t, mapSharedPage k va p writable s = some (.ok (), t) ∧ Sound held pinned t ∧
      Installs k va ((userFlags writable).mapping p) (s.missing k va) (s.missing k va) (s.retain p) t) ∨
    (∃ t n, mapSharedPage k va p writable s = some (.error (), t) ∧ Sound held pinned t ∧
      Grown k (path va) n s t ∧
      ((s.spaces k).pml4 ≠ 0 → s.freePages < s.missing k va ∨ s.room k < s.missing k va)) := by
  have hheld := h.pins p hpinned
  have hpos := h.refs_of_held hheld
  have hs := h.retain hpos hwrap (h.noTable_of_held hheld)
  have hlt := (h.reserved p hpos).1
  have hmissing : (s.retain p).missing k va = s.missing k va := rfl
  have hrun : ∀ r u, mapRecord k va p (userFlags writable) (s.retain p) = some (r, u) →
      mapSharedPage k va p writable s = some (r, if r.toBool then u else u.release p) := by
    intro r u hru
    rw [mapSharedPage, if_neg (by simp [hin]), bind_apply, h.retainPage_apply hpos]
    dsimp only
    have hmap : (do mapPage k (alignDown va pageSize) p (userFlags writable); recordOwnedPage k p :
        VmM κ Unit) (s.retain p) = some (r, u) := hru
    rw [bind_apply, Prog.attempt, hmap]
    cases r <;> rfl
  obtain ⟨t, run, ht, g⟩ | ⟨t, n, run, ht, g, hfull⟩ := mapRecord_spec
    (userFlags writable) hs hin rfl (by rw [maxTrackedPages] at hlt; omega)
    (fun _ => hheld) (.inl hpinned) (fun _ => rfl) hroom
  · exact .inl ⟨t, hrun _ _ run, ht, g⟩
  · obtain ⟨hrelease, hgrown⟩ := h.grown_release_retain hpos hwrap ht g
    exact .inr ⟨t.release p, n, hrun _ _ run, hrelease, hgrown, hfull⟩

end RadKernel.Vm
