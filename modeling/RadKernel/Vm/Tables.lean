import RadKernel.Lib.Forest
import RadKernel.Vm.Entries

/-!
# Trees of page tables

The tables of an address space are a tree with three levels below its root. The entry for an
address is in a table of the lowest level, at a path made of three of the parts of the address. In
`Trees` no table is in two places, entries that lead to tables let user programs through, and
entries for addresses let them pass inside the window for user programs only.
-/

namespace RadKernel.Vm

open Forest Option

variable {κ : Type} {s t : VmState κ} {k k' : κ} {π π' : List Nat} {a b i va va' : Nat} {e : Pte}

/-- The table that an entry leads to. -/
def VmState.link (s : VmState κ) (table index : Nat) : Option Nat :=
  if (s.entry table index).present && !(s.entry table index).large then
    some (s.entry table index).page
  else none

def VmState.root (s : VmState κ) (k : κ) : Option Nat :=
  if (s.spaces k).pml4 = 0 then none else some (s.spaces k).pml4

/-- The table of a space at a path. -/
abbrev VmState.table (s : VmState κ) (k : κ) (π : List Nat) : Option Nat := reach s.link s.root k π

/-- The path of the table with the entry for an address. -/
def path (virtualAddress : Nat) : List Nat :=
  [tableIndex virtualAddress 1, tableIndex virtualAddress 2, tableIndex virtualAddress 3]

/-- The entry for an address, when it is present. -/
def VmState.leaf (s : VmState κ) (k : κ) (virtualAddress : Nat) : Option Pte :=
  (s.table k (path virtualAddress)).bind fun table =>
    if (s.entry table (tableIndex virtualAddress 0)).present then
      some (s.entry table (tableIndex virtualAddress 0))
    else none

/-- A page is no table of any space. -/
def VmState.NoTable (s : VmState κ) (page : Nat) : Prop :=
  ∀ k π, π.length ≤ 3 → s.table k π ≠ some page

/-! ## Addresses -/

theorem tableIndex_eq (va level : Nat) : tableIndex va level = va / 4096 / 512 ^ level % 512 := by
  rw [tableIndex, Nat.pow_add, Nat.mul_comm level 9, Nat.pow_mul, ← Nat.div_div_eq_div_mul]

/-- Addresses with the same entry are in the same page. -/
theorem path_eq_iff (h : va < 2 ^ 48) (h' : va' < 2 ^ 48) :
    path va = path va' ∧ tableIndex va 0 = tableIndex va' 0 ↔ va / 4096 = va' / 4096 := by
  simp only [path, tableIndex_eq, List.cons.injEq, and_true]
  refine ⟨?_, fun h => by simp [h]⟩
  rintro ⟨⟨h1, h2, h3⟩, h0⟩
  simp only [Nat.pow_zero, Nat.div_one, Nat.pow_one] at h0 h1
  have h2' : va / 4096 / 262144 % 512 = va' / 4096 / 262144 % 512 := h2
  have h3' : va / 4096 / 134217728 % 512 = va' / 4096 / 134217728 % 512 := h3
  omega

theorem path_page (h : va / 4096 = va' / 4096) :
    path va = path va' ∧ tableIndex va 0 = tableIndex va' 0 := by
  simp only [path, tableIndex_eq, h, and_self]

theorem leaf_page (s : VmState κ) (k : κ) (h : va / 4096 = va' / 4096) :
    s.leaf k va = s.leaf k va' := by
  simp only [VmState.leaf, path, tableIndex_eq, h]

@[simp] theorem length_path (va : Nat) : (path va).length = 3 := rfl

theorem inUser_iff : inUser va = true ↔ userBase ≤ va ∧ va < userLimit := by
  simp [inUser]

/-- The window begins and ends between pages. -/
theorem inUser_page (h : va / 4096 = va' / 4096) : inUser va = inUser va' := by
  rw [Bool.eq_iff_iff, inUser_iff, inUser_iff, userBase, userLimit]
  omega

theorem inUser.lt (h : inUser va = true) : va < 2 ^ 48 := by
  have := (inUser_iff.1 h).2
  rw [userLimit] at this
  omega

/-! ## Entries -/

theorem entry_fits (s : VmState κ) (table index : Nat) : (s.entry table index).Fits := by
  have hbyte : ∀ b : UInt8, b.toNat < 256 := fun b => b.toNat_lt
  have h1 := hbyte (s.memory table (8 * index + 1))
  have h2 := hbyte (s.memory table (8 * index + 2))
  have h3 := hbyte (s.memory table (8 * index + 3))
  have h4 := hbyte (s.memory table (8 * index + 4))
  have h5 := hbyte (s.memory table (8 * index + 5))
  rw [Pte.Fits, VmState.entry, Pte.ofBytes]
  dsimp only
  omega

theorem link_eq_some :
    s.link a i = some b ↔ (s.entry a i).present = true ∧ (s.entry a i).large = false ∧
      (s.entry a i).page = b := by
  rw [VmState.link]
  split_ifs with h
  · simp only [Bool.and_eq_true, Bool.not_eq_true'] at h
    simp [h]
  · simp only [Bool.and_eq_true, Bool.not_eq_true', not_and] at h
    simp only [false_iff]
    rintro ⟨hp, hl, -⟩
    exact h hp hl

theorem leaf_eq_some : s.leaf k va = some e ↔
    ∃ table, s.table k (path va) = some table ∧ s.entry table (tableIndex va 0) = e ∧
      e.present = true := by
  rw [VmState.leaf, bind_eq_some_iff]
  refine exists_congr fun table => and_congr_right fun _ => ?_
  split_ifs with h
  · rw [some_inj]
    exact ⟨fun he => ⟨he, he ▸ h⟩, fun he => he.1⟩
  · simp only [false_iff]
    rintro ⟨rfl, he⟩
    exact h he

theorem table_of_some (h : s.table k π = some a) (i : Nat) : s.table k (i :: π) = s.link a i :=
  reach_of_some h i

theorem table_of_none (h : s.table k π = none) (i : Nat) : s.table k (i :: π) = none :=
  reach_of_none h i

theorem leaf_of_table (h : s.table k (path va) = some a) :
    s.leaf k va = if (s.entry a (tableIndex va 0)).present then some (s.entry a (tableIndex va 0))
      else none := by
  rw [VmState.leaf, h, bind_some]

theorem entry_congr (h : t.memory a = s.memory a) (i : Nat) : t.entry a i = s.entry a i := by
  rw [VmState.entry, VmState.entry, h]

theorem link_congr (h : ∀ i, t.entry a i = s.entry a i) : t.link a = s.link a := by
  funext i
  rw [VmState.link, VmState.link, h]

theorem root_congr (h : (t.spaces k).pml4 = (s.spaces k).pml4) : t.root k = s.root k := by
  rw [VmState.root, VmState.root, h]

theorem table_congr (hroot : (t.spaces k).pml4 = (s.spaces k).pml4)
    (hentry : ∀ π a, π.length < 3 → s.table k π = some a → ∀ i, t.entry a i = s.entry a i)
    (hπ : π.length ≤ 3) : t.table k π = s.table k π :=
  reach_congr (root_congr hroot) (fun π a hlt ha => link_congr (hentry π a hlt ha)) hπ

theorem leaf_congr (hroot : (t.spaces k).pml4 = (s.spaces k).pml4)
    (hentry : ∀ π a, π.length ≤ 3 → s.table k π = some a → ∀ i, t.entry a i = s.entry a i)
    (va : Nat) : t.leaf k va = s.leaf k va := by
  have htable : t.table k (path va) = s.table k (path va) :=
    table_congr hroot (fun π a hlt => hentry π a (by omega)) (Nat.le_of_eq (length_path va))
  rw [VmState.leaf, VmState.leaf, htable]
  cases h : s.table k (path va) with
  | none => rfl
  | some a => rw [bind_some, bind_some, hentry _ a (Nat.le_of_eq (length_path va)) h]

/-! ## Well-formed trees -/

/-- The path of a large page of the kernel. -/
def LargePath (π : List Nat) : Prop :=
  ∃ va, lowIdentityLimit ≤ va ∧ va < kernelIdentityLimit ∧
    overlapsUser (alignDown va largePageSize) largePageSize = false ∧ path va = π

/-- What an entry that is not for a single page may be. -/
def InnerEntry (π : List Nat) (e : Pte) : Prop :=
  (e.large = false ∧ e.user = true ∧ e.write = true) ∨
    (e.large = true ∧ e.user = false ∧ LargePath π)

theorem LargePath.length (h : LargePath π) : π.length = 3 := by
  obtain ⟨va, -, -, -, rfl⟩ := h
  exact length_path va

theorem path_large (h : va < 2 ^ 48) (h' : va' < 2 ^ 48) (heq : path va = path va') :
    va / 2 ^ 21 = va' / 2 ^ 21 := by
  simp only [path, tableIndex_eq, List.cons.injEq, and_true] at heq
  obtain ⟨h1, h2, h3⟩ := heq
  simp only [Nat.pow_one] at h1
  have h2' : va / 4096 / 262144 % 512 = va' / 4096 / 262144 % 512 := h2
  have h3' : va / 4096 / 134217728 % 512 = va' / 4096 / 134217728 % 512 := h3
  omega

theorem not_largePath_user (hin : inUser va = true) : ¬LargePath (path va) := by
  rintro ⟨va', -, hhigh, hoverlap, hpath⟩
  rw [kernelIdentityLimit] at hhigh
  have hpage := path_large (by omega) (inUser.lt hin) hpath
  obtain ⟨hlow, hlim⟩ := inUser_iff.1 hin
  rw [userBase] at hlow
  rw [userLimit] at hlim
  have hbeside : ¬(alignDown va' largePageSize < userLimit ∧
      userBase < alignDown va' largePageSize + largePageSize) := by
    simpa [overlapsUser] using hoverlap
  rw [alignDown, largePageSize, userLimit, userBase] at hbeside
  omega

theorem not_largePath_low (hva : va < lowIdentityLimit) : ¬LargePath (path va) := by
  rintro ⟨va', hlow, hhigh, -, hpath⟩
  rw [kernelIdentityLimit] at hhigh
  rw [lowIdentityLimit] at hva hlow
  have := path_large (by omega) (by omega) hpath
  omega

theorem not_largePath_high (hva : kernelIdentityLimit ≤ va) (hlt : va < 2 ^ 48) :
    ¬LargePath (path va) := by
  rintro ⟨va', -, hhigh, -, hpath⟩
  rw [kernelIdentityLimit] at hva hhigh
  have := path_large (by omega) hlt hpath
  omega

structure Trees (s : VmState κ) : Prop where
  distinct : Distinct 3 s.link s.root
  inner : ∀ k π a i, π.length < 3 → s.table k π = some a → (s.entry a i).present = true →
    InnerEntry (i :: π) (s.entry a i)
  leaf_user : ∀ k va e, va < 2 ^ 48 → s.leaf k va = some e → e.user = inUser va

namespace Trees

section
variable (h : Trees s) (ha : s.table k π = some a) (hπ : π.length < 3) (hlarge : ¬LargePath (i :: π))
include h ha hπ hlarge

theorem inner_of_present (hp : (s.entry a i).present = true) :
    (s.entry a i).large = false ∧ (s.entry a i).user = true := by
  obtain ⟨hl, hu, -⟩ | ⟨-, -, hpath⟩ := h.inner k π a i hπ ha hp
  · exact ⟨hl, hu⟩
  · exact absurd hpath hlarge

theorem userEntry_link (hlink : s.link a i = some b) :
    s.userEntry a i = some (s.entry a i) ∧ (s.entry a i).page = b ∧ (s.entry a i).large = false := by
  obtain ⟨hp, hl, hb⟩ := link_eq_some.1 hlink
  obtain ⟨-, hu⟩ := h.inner_of_present ha hπ hlarge hp
  exact ⟨by simp [VmState.userEntry, hp, hu], hb, hl⟩

theorem userEntry_none (hlink : s.link a i = none) : s.userEntry a i = none := by
  cases hp : (s.entry a i).present with
  | false => simp [VmState.userEntry, hp]
  | true =>
    obtain ⟨hl, -⟩ := h.inner_of_present ha hπ hlarge hp
    simp [VmState.link, hp, hl] at hlink

theorem userTable : s.userTable a i = s.link a i := by
  rw [VmState.userTable]
  cases hlink : s.link a i with
  | none => rw [h.userEntry_none ha hπ hlarge hlink, bind_none]
  | some b =>
    obtain ⟨hentry, rfl, hl⟩ := h.userEntry_link ha hπ hlarge hlink
    rw [hentry, bind_some, hl, if_neg (by simp)]

end

/-- The walk of the kernel finds the entry of an address and the table it is in. -/
theorem walkUserLeaf (h : Trees s) (hin : inUser va = true) :
    s.walkUserLeaf k va =
      (s.table k (path va)).bind fun table => (s.leaf k va).map fun e => (table, e) := by
  have hshort : ¬LargePath [tableIndex va 3] := fun hl => by simpa using hl.length
  have hshort' : ¬LargePath [tableIndex va 2, tableIndex va 3] := fun hl => by simpa using hl.length
  unfold VmState.walkUserLeaf
  cases h3 : s.root k with
  | none =>
    have hzero : (s.spaces k).pml4 = 0 := by
      by_contra hne
      simp [VmState.root, hne] at h3
    have hnone : s.table k (path va) = none := by simp [path, reach, h3]
    rw [if_pos (by simp [hzero]), hnone, bind_none]
  | some a3 =>
    obtain ⟨hne, rfl⟩ : (s.spaces k).pml4 ≠ 0 ∧ (s.spaces k).pml4 = a3 := by
      rw [VmState.root] at h3
      split_ifs at h3 with hzero
      exact ⟨hzero, Option.some.inj h3⟩
    have t3 : s.table k [] = some (s.spaces k).pml4 := h3
    rw [if_neg (by simp [hne, hin])]
    cases h2 : s.link (s.spaces k).pml4 (tableIndex va 3) with
    | none =>
      have hnone : s.table k (path va) = none := by simp [path, reach, h3, h2]
      rw [h.userEntry_none t3 (by simp) hshort h2, hnone]
      rfl
    | some a2 =>
      obtain ⟨u2, rfl, -⟩ := h.userEntry_link t3 (by simp) hshort h2
      have t2 : s.table k [tableIndex va 3] = some _ := (table_of_some t3 _).trans h2
      rw [u2, bind_eq_bind, bind_some, h.userTable t2 (by simp) hshort']
      cases h1 : s.link _ (tableIndex va 2) with
      | none =>
        have hnone : s.table k (path va) = none :=
          table_of_none ((table_of_some t2 _).trans h1) _
        rw [hnone]
        rfl
      | some a1 =>
        have t1 : s.table k [tableIndex va 2, tableIndex va 3] = some a1 :=
          (table_of_some t2 _).trans h1
        rw [bind_eq_bind, bind_some, h.userTable t1 (by simp) (not_largePath_user hin)]
        cases h0 : s.link a1 (tableIndex va 1) with
        | none =>
          have hnone : s.table k (path va) = none := (table_of_some t1 _).trans h0
          rw [hnone]
          rfl
        | some a0 =>
          have t0 : s.table k (path va) = some a0 := (table_of_some t1 _).trans h0
          rw [t0, bind_some, bind_some, leaf_of_table t0, VmState.userEntry]
          cases hp : (s.entry a0 (tableIndex va 0)).present with
          | false => rfl
          | true =>
            have hleaf : s.leaf k va = some (s.entry a0 (tableIndex va 0)) := by
              rw [leaf_of_table t0, if_pos hp]
            have hu := h.leaf_user k va _ (inUser.lt hin) hleaf
            simp [hu, hin]

/-! ### Changes -/

theorem congr (h : Trees s) (hroot : ∀ k, (t.spaces k).pml4 = (s.spaces k).pml4)
    (hentry : ∀ k π a, π.length ≤ 3 → s.table k π = some a → ∀ i, t.entry a i = s.entry a i) :
    Trees t := by
  have htable : ∀ k π, π.length ≤ 3 → t.table k π = s.table k π := fun k π =>
    table_congr (hroot k) fun π a hlt => hentry k π a (by omega)
  refine ⟨h.distinct.congr htable, fun k π a i hπ ha hp => ?_, fun k va e hva he => ?_⟩
  · rw [htable k π (by omega)] at ha
    rw [hentry k π a (by omega) ha] at hp ⊢
    exact h.inner k π a i hπ ha hp
  · rw [leaf_congr (hroot k) (hentry k)] at he
    exact h.leaf_user k va e hva he

theorem table_setLeaf (h : Trees s) (ha : s.table k (path va) = some a) (he : e.Fits)
    (hπ : π.length ≤ 3) : (s.withEntry a (tableIndex va 0) e).table k' π = s.table k' π := by
  refine table_congr rfl (fun π b hlt hb i => ?_) hπ
  rw [entry_withEntry he, if_neg]
  rintro ⟨rfl, -⟩
  have := (h.distinct k' π k (path va) b (by omega) (Nat.le_of_eq (length_path va)) hb ha).2
  rw [this, length_path] at hlt
  omega

variable [DecidableEq κ]

section
variable (h : Trees s) (ha : s.table k (path va) = some a) (he : e.Fits) (hva : va < 2 ^ 48)
include h ha he hva

theorem leaf_setLeaf (hva' : va' < 2 ^ 48) :
    (s.withEntry a (tableIndex va 0) e).leaf k' va' =
      if k' = k ∧ va' / 4096 = va / 4096 then (if e.present then some e else none)
      else s.leaf k' va' := by
  have htable : (s.withEntry a (tableIndex va 0) e).table k' (path va') = s.table k' (path va') :=
    h.table_setLeaf ha he (Nat.le_of_eq (length_path va'))
  by_cases hsame : k' = k ∧ va' / 4096 = va / 4096
  · rw [if_pos hsame]
    obtain ⟨rfl, hpage⟩ := hsame
    have hentry : (s.withEntry a (tableIndex va 0) e).entry a (tableIndex va 0) = e := by
      rw [entry_withEntry he, if_pos ⟨rfl, rfl⟩]
    rw [leaf_page _ _ hpage, leaf_of_table ((h.table_setLeaf ha he (by simp)).trans ha), hentry]
  · rw [if_neg hsame, VmState.leaf, VmState.leaf, htable]
    cases hb : s.table k' (path va') with
    | none => rfl
    | some b =>
      have hother : ¬(b = a ∧ tableIndex va' 0 = tableIndex va 0) := by
        rintro ⟨rfl, hindex⟩
        obtain ⟨rfl, hpath⟩ := h.distinct k' (path va') k (path va) b (by simp) (by simp) hb ha
        exact hsame ⟨rfl, (path_eq_iff hva' hva).1 ⟨hpath, hindex⟩⟩
      have hentry : (s.withEntry a (tableIndex va 0) e).entry b (tableIndex va' 0) =
          s.entry b (tableIndex va' 0) := by
        rw [entry_withEntry he, if_neg hother]
      rw [bind_some, bind_some, hentry]

theorem setLeaf (hu : e.user = inUser va) : Trees (s.withEntry a (tableIndex va 0) e) := by
  have htable : ∀ k' π, π.length ≤ 3 →
      (s.withEntry a (tableIndex va 0) e).table k' π = s.table k' π := fun k' π =>
    h.table_setLeaf ha he
  refine ⟨h.distinct.congr htable, fun k' π b i hπ hb hp => ?_, fun k' va' e' hva' he' => ?_⟩
  · rw [htable k' π (by omega)] at hb
    have hne : b ≠ a := by
      rintro rfl
      have := (h.distinct k' π k (path va) b (by omega) (by simp) hb ha).2
      simp [this] at hπ
    rw [entry_withEntry he, if_neg (by simp [hne])] at hp ⊢
    exact h.inner k' π b i hπ hb hp
  · rw [h.leaf_setLeaf ha he hva hva'] at he'
    split_ifs at he' with hsame
    · obtain ⟨rfl, hpage⟩ := hsame
      obtain rfl := Option.some.inj he'
      rw [hu, inUser_page hpage]
    · exact h.leaf_user k' va' e' hva' he'

end

end Trees

/-- Tables with entries that are not present lead nowhere. -/
theorem link_of_empty (h : s.entry a i = {}) : s.link a i = none := by
  rw [VmState.link, h]
  rfl

def linkEntry (page : Nat) : Pte := { page, present := true, write := true, user := true }

/-- An empty table is linked from an entry that was not present. -/
structure Plants (s t : VmState κ) (k : κ) (π : List Nat) (a i b : Nat) : Prop where
  parent : s.table k π = some a
  depth : π.length < 3
  absent : (s.entry a i).present = false
  fresh : s.NoTable b
  roots : ∀ k, (t.spaces k).pml4 = (s.spaces k).pml4
  linked : t.entry a i = linkEntry b
  empty : ∀ j, t.entry b j = {}
  same : ∀ x j, x ≠ b → (x ≠ a ∨ j ≠ i) → t.entry x j = s.entry x j

namespace Plants

variable [DecidableEq κ]

section
variable (p : Plants s t k π a i b) (h : Trees s)
include p h

theorem table (hπ : π'.length ≤ 3) :
    t.table k' π' = if k' = k ∧ π' = i :: π then some b else s.table k' π' := by
  have hroot : t.root = s.root := funext fun k => root_congr (p.roots k)
  rw [VmState.table, hroot]
  refine h.distinct.reach_link p.parent p.depth ?_ p.fresh ?_ ?_ ?_ hπ
  · simp [VmState.link, p.absent]
  · simp [VmState.link, p.linked, linkEntry]
  · exact fun j => link_of_empty (p.empty j)
  · intro x j hx hne
    rw [VmState.link, VmState.link, p.same x j hx hne]

theorem leaf (va : Nat) : t.leaf k' va = s.leaf k' va := by
  rw [VmState.leaf, VmState.leaf, p.table h (Nat.le_of_eq (length_path va))]
  split_ifs with hnew
  · obtain ⟨rfl, hpath⟩ := hnew
    have hnone : s.table k' (path va) = none := by
      rw [hpath, table_of_some p.parent, VmState.link, if_neg (by simp [p.absent])]
    rw [hnone, bind_some, bind_none, p.empty]
    rfl
  · cases hx : s.table k' (path va) with
    | none => rfl
    | some x =>
      have hxb : x ≠ b := by
        rintro rfl
        exact p.fresh k' (path va) (by simp) hx
      have hxa : x ≠ a := by
        rintro rfl
        have hlen := congrArg List.length
          (h.distinct k' (path va) k π x (by simp) (by have := p.depth; omega) hx p.parent).2
        have := p.depth
        simp at hlen
        omega
      rw [bind_some, bind_some, p.same x _ hxb (.inl hxa)]

theorem trees : Trees t := by
  refine ⟨h.distinct.add p.fresh fun k' π' => p.table h, fun k' π' x j hπ' hx hp => ?_,
    fun k' va e hva he => ?_⟩
  · rw [p.table h (by omega)] at hx
    split_ifs at hx with hnew
    · obtain rfl := Option.some.inj hx
      rw [p.empty] at hp
      cases hp
    · have hxb : x ≠ b := by
        rintro rfl
        exact p.fresh k' π' (by omega) hx
      by_cases hhere : x = a ∧ j = i
      · obtain ⟨rfl, rfl⟩ := hhere
        rw [p.linked]
        exact .inl ⟨rfl, rfl, rfl⟩
      · rw [p.same x j hxb (by tauto)] at hp ⊢
        exact h.inner k' π' x j hπ' hx hp
  · rw [p.leaf h] at he
    exact h.leaf_user k' va e hva he

end

end Plants

end RadKernel.Vm
