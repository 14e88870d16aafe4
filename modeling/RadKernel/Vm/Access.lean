import RadKernel.Kernel.State
import RadKernel.Vm.ForkSharing

/-!
# Copies to and from user programs

`x86_vm_validate_user_range` and the copies of `x86_user.cpp` that rely on it. The kernel walks the
tables of the caller itself, and for a write it wants every entry to be writable. An entry that a
fork marked is not, so a copy fails where a program could write.
-/

namespace RadKernel.Vm

open Function Option

/-! ## The copies -/

section

variable {κ : Type} [DecidableEq κ]

/-- `walk_user`: the entry, also of a large page. -/
def VmState.walkUser (s : VmState κ) (id : κ) (virtualAddress : Nat) : Option Pte := do
  let pml4 := (s.spaces id).pml4
  if pml4 = 0 || !inUser virtualAddress then none
  else
    let entry ← s.userEntry pml4 (tableIndex virtualAddress 3)
    let entry ← s.userEntry entry.page (tableIndex virtualAddress 2)
    if entry.large then return entry
    else
      let entry ← s.userEntry entry.page (tableIndex virtualAddress 1)
      if entry.large then return entry
      else s.userEntry entry.page (tableIndex virtualAddress 0)

/-- The walk of the processor for a program, of any address. -/
def VmState.userWalk (s : VmState κ) (id : κ) (virtualAddress : Nat) : Option Pte := do
  let pml4 := (s.spaces id).pml4
  if pml4 = 0 then none
  else
    let entry ← s.userEntry pml4 (tableIndex virtualAddress 3)
    let entry ← s.userEntry entry.page (tableIndex virtualAddress 2)
    if entry.large then return entry
    else
      let entry ← s.userEntry entry.page (tableIndex virtualAddress 1)
      if entry.large then return entry
      else s.userEntry entry.page (tableIndex virtualAddress 0)

/-- The loop of `x86_vm_validate_user_range`. -/
def VmState.validatePages (s : VmState κ) (id : κ) (write : Bool) (last address : Nat) : Bool :=
  if address < last then
    match s.walkUser id address with
    | none => false
    | some entry =>
      if write && !entry.write then false
      else s.validatePages id write last (alignDown address pageSize + pageSize)
  else true
termination_by last - address
decreasing_by
  rw [alignDown, pageSize]
  omega

/-- `x86_vm_validate_user_range`; `last` is where the range ends. -/
def VmState.validateUserRange (s : VmState κ) (id : κ) (virtualAddress size : Nat) (write : Bool) :
    Bool :=
  if size = 0 then userBase ≤ virtualAddress && virtualAddress ≤ userLimit
  else if virtualAddress < userBase || userLimit ≤ virtualAddress then false
  else if userLimit - virtualAddress < size then false
  else s.validatePages id write (virtualAddress + size) virtualAddress

/-- The byte of physical memory that an address stands for. -/
def VmState.place (s : VmState κ) (id : κ) (virtualAddress : Nat) : Option (Nat × Nat) :=
  (s.walkUserLeaf id virtualAddress).map fun leaf => (leaf.2.page, virtualAddress % pageSize)

/-- `memcpy` to addresses of a program. The processor does not keep the kernel from pages that are
not writable; where there is no page the kernel halts. -/
def VmState.putBytes (s : VmState κ) (id : κ) : Nat → List UInt8 → Option (VmState κ)
  | _, [] => some s
  | virtualAddress, byte :: bytes =>
    (s.place id virtualAddress).bind fun place =>
      (s.poke place.1 place.2 byte).putBytes id (virtualAddress + 1) bytes

/-- `memcpy` from addresses of a program. -/
def VmState.getBytes (s : VmState κ) (id : κ) : Nat → Nat → Option (List UInt8)
  | _, 0 => some []
  | virtualAddress, size + 1 => do
    let byte ← s.load id virtualAddress
    let bytes ← s.getBytes id (virtualAddress + 1) size
    return byte :: bytes

/-- `x86_copy_to_user`. -/
def VmState.copyToUser (s : VmState κ) (id : κ) (dst : Nat) (src : List UInt8) :
    Option (Status × VmState κ) :=
  if s.validateUserRange id dst src.length true then
    (s.putBytes id dst src).map fun t => (.ok, t)
  else some (.invalidArgument, s)

/-- `x86_copy_from_user`. -/
def VmState.copyFromUser (s : VmState κ) (id : κ) (src size : Nat) :
    Option (Except Status (List UInt8)) :=
  if s.validateUserRange id src size false then (s.getBytes id src size).map .ok
  else some (.error .invalidArgument)

end

/-! ## What the walk of the kernel finds -/

variable {κ : Type} {s t : VmState κ} {held : Nat → Nat} {P : Nat → Prop} {k k' : κ}
  {va dst n i last : Nat} {write : Bool} {e : Pte} {src : List UInt8}

/-- An entry that lets programs pass and is not for a single page leads to a table. -/
theorem Trees.table_of_userEntry {π : List Nat} {a : Nat} (h : Trees s) (ha : s.table k π = some a)
    (hπ : π.length < 3) (he : s.userEntry a i = some e) :
    e.large = false ∧ s.table k (i :: π) = some e.page := by
  rw [VmState.userEntry] at he
  split_ifs at he with hp
  obtain rfl := Option.some.inj he
  obtain ⟨hpresent, huser⟩ : (s.entry a i).present = true ∧ (s.entry a i).user = true := by
    simpa using hp
  obtain ⟨hl, -, -⟩ | ⟨-, hu, -⟩ := h.inner k π a i hπ ha hpresent
  · exact ⟨hl, (table_of_some ha i).trans (link_eq_some.2 ⟨hpresent, hl, rfl⟩)⟩
  · rw [hu] at huser
    cases huser

/-- There are no large pages where user programs are. -/
theorem Trees.walkUser (h : Trees s) : s.walkUser k va = (s.walkUserLeaf k va).map Prod.snd := by
  unfold VmState.walkUser VmState.walkUserLeaf
  dsimp only
  split_ifs with hzero
  · rfl
  have hroot : (s.spaces k).pml4 ≠ 0 := fun hnone => hzero (by simp [hnone])
  have t3 : s.table k [] = some (s.spaces k).pml4 := if_neg hroot
  cases h3 : s.userEntry (s.spaces k).pml4 (tableIndex va 3) with
  | none => rfl
  | some e3 =>
    obtain ⟨-, t2⟩ := h.table_of_userEntry t3 (by simp) h3
    simp only [bind_eq_bind, bind_some, VmState.userTable]
    cases h2 : s.userEntry e3.page (tableIndex va 2) with
    | none => rfl
    | some e2 =>
      obtain ⟨l2, t1⟩ := h.table_of_userEntry t2 (by simp) h2
      simp only [bind_some, l2, if_neg Bool.false_ne_true]
      cases h1 : s.userEntry e2.page (tableIndex va 1) with
      | none => rfl
      | some e1 =>
        obtain ⟨l1, -⟩ := h.table_of_userEntry t1 (by simp) h1
        simp only [bind_some, l1, if_neg Bool.false_ne_true]
        cases s.userEntry e1.page (tableIndex va 0) <;> rfl

section
variable (h : Trees s) (hin : inUser va = true) (he : s.leaf k va = some e)
include h hin he

theorem Trees.walk_of_leaf : ∃ a, s.walkUserLeaf k va = some (a, e) := by
  obtain ⟨a, ha, -⟩ := leaf_eq_some.1 he
  exact ⟨a, by rw [h.walkUserLeaf hin, ha, he]; rfl⟩

theorem Trees.userWalk_of_leaf : s.userWalk k va = some e := by
  have hsame : s.userWalk k va = s.walkUser k va := by
    simp only [VmState.userWalk, VmState.walkUser, hin, Bool.not_true, Bool.or_false,
      decide_eq_true_eq]
  obtain ⟨a, ha⟩ := h.walk_of_leaf hin he
  rw [hsame, h.walkUser, ha, map_some]

end

/-- The processor finds the entry of the address, and the address is in the window. -/
theorem Trees.leaf_of_userWalk (h : Trees s) (hva : va < 2 ^ 48) (he : s.userWalk k va = some e) :
    inUser va = true ∧ s.leaf k va = some e := by
  unfold VmState.userWalk at he
  dsimp only at he
  split_ifs at he with hroot
  have t3 : s.table k [] = some (s.spaces k).pml4 := if_neg hroot
  obtain ⟨e3, h3, he⟩ := Option.bind_eq_some_iff.1 he
  obtain ⟨-, t2⟩ := h.table_of_userEntry t3 (by simp) h3
  obtain ⟨e2, h2, he⟩ := Option.bind_eq_some_iff.1 he
  obtain ⟨l2, t1⟩ := h.table_of_userEntry t2 (by simp) h2
  rw [l2, if_neg Bool.false_ne_true] at he
  obtain ⟨e1, h1, he⟩ := Option.bind_eq_some_iff.1 he
  obtain ⟨l1, t0⟩ := h.table_of_userEntry t1 (by simp) h1
  rw [l1, if_neg Bool.false_ne_true, VmState.userEntry] at he
  split_ifs at he with hp
  obtain ⟨hpresent, huser⟩ : (s.entry e1.page (tableIndex va 0)).present = true ∧
      (s.entry e1.page (tableIndex va 0)).user = true := by simpa using hp
  have hleaf : s.leaf k va = some e := by
    rw [leaf_of_table t0, if_pos hpresent, Option.some.inj he]
  exact ⟨(h.leaf_user k va e hva hleaf).symm.trans (Option.some.inj he ▸ huser), hleaf⟩

theorem walkUser_page (s : VmState κ) (k : κ) {va' : Nat} (h : va / 4096 = va' / 4096) :
    s.walkUser k va = s.walkUser k va' := by
  simp only [VmState.walkUser, tableIndex_eq, h, inUser_page h]

/-- The kernel lets a copy through at an address. -/
def VmState.Passes (s : VmState κ) (k : κ) (write : Bool) (va : Nat) : Prop :=
  ∃ leaf, s.walkUserLeaf k va = some leaf ∧ (write = true → leaf.2.write = true)

theorem Trees.passes_iff (h : Trees s) :
    s.Passes k write va ↔ ∃ e, s.walkUser k va = some e ∧ (write = true → e.write = true) := by
  rw [h.walkUser]
  refine ⟨fun ⟨leaf, hleaf, hw⟩ => ⟨leaf.2, by rw [hleaf, map_some], hw⟩, ?_⟩
  rintro ⟨e, he, hw⟩
  obtain ⟨leaf, hleaf, rfl⟩ := Option.map_eq_some_iff.1 he
  exact ⟨leaf, hleaf, hw⟩

/-- The loop looks at one address of every page. -/
theorem Trees.validatePages (h : Trees s) :
    s.validatePages k write last va = true ↔ ∀ a, va ≤ a → a < last → s.Passes k write a := by
  fun_induction VmState.validatePages s k write last va with
  | case1 va hlt hnone =>
    simp only [Bool.false_eq_true, false_iff]
    intro hall
    obtain ⟨e, he, -⟩ := h.passes_iff.1 (hall va (Nat.le_refl va) hlt)
    rw [hnone] at he
    cases he
  | case2 va hlt e he hread =>
    simp only [Bool.false_eq_true, false_iff]
    intro hall
    obtain ⟨e', he', hw⟩ := h.passes_iff.1 (hall va (Nat.le_refl va) hlt)
    obtain rfl := Option.some.inj (he.symm.trans he')
    simp only [Bool.and_eq_true, Bool.not_eq_true'] at hread
    rw [hw hread.1] at hread
    cases hread.2
  | case3 va hlt e he hpass ih =>
    have hw : write = true → e.write = true := fun hwrite => by simpa [hwrite] using hpass
    rw [ih]
    refine ⟨fun hall a hle ha => ?_, fun hall a hle ha => hall a ?_ ha⟩
    · by_cases hpage : a / 4096 = va / 4096
      · exact h.passes_iff.2 ⟨e, by rw [walkUser_page s k hpage, he], hw⟩
      · refine hall a ?_ ha
        rw [alignDown, pageSize]
        omega
    · rw [alignDown, pageSize] at hle
      omega
  | case4 va hlt => exact iff_of_true rfl fun a hle ha => by omega

theorem Trees.validateUserRange (h : Trees s) :
    s.validateUserRange k va n write = true ↔
      (n = 0 → userBase ≤ va ∧ va ≤ userLimit) ∧ ∀ i < n, s.Passes k write (va + i) := by
  rw [VmState.validateUserRange]
  have hin : ∀ {i}, s.Passes k write (va + i) → userBase ≤ va + i ∧ va + i < userLimit :=
    fun ⟨_, hleaf, _⟩ => inUser_iff.1 (inUser_of_walk hleaf)
  split_ifs with hzero hout hlong
  · simp [hzero]
  · simp only [false_iff, not_and, not_forall]
    rintro -
    refine ⟨0, by omega, fun hpass => ?_⟩
    have := hin hpass
    simp only [Bool.or_eq_true, decide_eq_true_eq] at hout
    omega
  · simp only [false_iff, not_and, not_forall]
    rintro -
    refine ⟨userLimit - va, hlong, fun hpass => ?_⟩
    have := hin hpass
    omega
  · rw [h.validatePages]
    refine ⟨fun hall => ⟨fun hn => absurd hn hzero, fun i hi => hall _ (by omega) (by omega)⟩, ?_⟩
    rintro ⟨-, hall⟩ a hle ha
    have hpass := hall (a - va) (by omega)
    rwa [show va + (a - va) = a by omega] at hpass

/-! ## What a copy does -/

theorem place_eq_some {place : Nat × Nat} : s.place k va = some place ↔
    ∃ leaf, s.walkUserLeaf k va = some leaf ∧ (leaf.2.page, va % pageSize) = place := by
  rw [VmState.place, map_eq_some_iff]

theorem load_eq (s : VmState κ) (k : κ) (va : Nat) :
    s.load k va = (s.place k va).map fun place => s.memory place.1 place.2 := by
  rw [VmState.load, VmState.place, map_map]
  rfl

theorem memory_poke (s : VmState κ) (page offset : Nat) (byte : UInt8) (p o : Nat) :
    (s.poke page offset byte).memory p o =
      if (p, o) = (page, offset) then byte else s.memory p o := by
  by_cases hp : p = page
  · subst hp
    by_cases ho : o = offset <;> simp [VmState.poke, VmState.fill, ho]
  · simp [VmState.poke, VmState.fill, hp]

variable [Fintype κ]

theorem Sound.noTable_of_place {place : Nat × Nat} (h : Sound held P s)
    (hp : s.place k va = some place) : s.NoTable place.1 := by
  obtain ⟨leaf, hleaf, rfl⟩ := place_eq_some.1 hp
  exact h.apart k va _ (inUser_of_walk hleaf) (h.leaf_of_walk hleaf)

omit [Fintype κ] in
/-- Bytes of pages that hold no table may change. -/
theorem SameTrees.walkUserLeaf (h : SameTrees s t) (hs : Trees s) (ht : Trees t) (k : κ)
    (va : Nat) : t.walkUserLeaf k va = s.walkUserLeaf k va := by
  cases hin : inUser va with
  | false => simp [VmState.walkUserLeaf, hin]
  | true =>
    rw [hs.walkUserLeaf hin, ht.walkUserLeaf hin, h.leaf, h.table (Nat.le_of_eq (length_path va))]

omit [Fintype κ] in
theorem SameTrees.place (h : SameTrees s t) (hs : Trees s) (ht : Trees t) (k : κ) (va : Nat) :
    t.place k va = s.place k va := by
  rw [VmState.place, VmState.place, h.walkUserLeaf hs ht]

/-- The bytes that addresses from `dst` on stand for change, the last one to stand for a byte
decides. -/
structure VmState.Stores (s : VmState κ) (k : κ) (dst : Nat) (src : List UInt8) (t : VmState κ) :
    Prop where
  place : ∀ k va, t.place k va = s.place k va
  frame : ∀ p o, (∀ i < src.length, s.place k (dst + i) ≠ some (p, o)) →
    t.memory p o = s.memory p o
  bytes : ∀ i (hi : i < src.length) p o, s.place k (dst + i) = some (p, o) →
    (∀ j, i < j → j < src.length → s.place k (dst + j) ≠ some (p, o)) → t.memory p o = src[i]

/-- A copy to addresses that are all there. -/
theorem Sound.putBytes (h : Sound held P s) (hall : ∀ i < src.length, s.place k (dst + i) ≠ none) :
    ∃ t, s.putBytes k dst src = some t ∧ Sound held P t ∧ s.Stores k dst src t := by
  induction src generalizing s dst with
  | nil => exact ⟨s, rfl, h, fun _ _ => rfl, fun _ _ _ => rfl, fun i hi => absurd hi (by simp)⟩
  | cons byte src ih =>
    obtain ⟨⟨p₀, o₀⟩, hplace⟩ := Option.ne_none_iff_exists'.1 (hall 0 (by simp))
    have hno := h.noTable_of_place hplace
    have h₁ : Sound held P (s.poke p₀ o₀ byte) := h.fill hno _
    have hsame : ∀ k va, (s.poke p₀ o₀ byte).place k va = s.place k va :=
      (sameTrees_fill hno _).place h.toTrees h₁.toTrees
    have hnext : ∀ i, dst + 1 + i = dst + (i + 1) := fun i => by omega
    have hthere : ∀ i < src.length, (s.poke p₀ o₀ byte).place k (dst + 1 + i) ≠ none := by
      intro i hi
      rw [hsame, hnext]
      exact hall (i + 1) (by simpa using hi)
    obtain ⟨t, run, ht, hkept, hframe, hbytes⟩ := ih h₁ hthere
    simp only [hsame, hnext] at hkept hframe hbytes
    refine ⟨t, ?_, ht, hkept, fun p o hother => ?_, fun i hi p o hp hlast => ?_⟩
    · rw [VmState.putBytes, show s.place k dst = some (p₀, o₀) from hplace]
      exact run
    · rw [hframe p o fun i hi => hother (i + 1) (by simpa using hi)]
      have hne : (p, o) ≠ (p₀, o₀) := by
        intro heq
        exact hother 0 (by simp) (heq ▸ hplace)
      rw [memory_poke, if_neg hne]
    · cases i with
      | zero =>
        obtain ⟨rfl, rfl⟩ := Prod.mk.inj (Option.some.inj (hplace.symm.trans hp))
        rw [hframe p₀ o₀ fun j hj => hlast (j + 1) (by omega) (by simpa using hj), memory_poke,
          if_pos rfl]
        rfl
      | succ i =>
        refine hbytes i (by simpa using hi) p o hp fun j hj hlen => ?_
        exact hlast (j + 1) (by omega) (by simpa using hlen)

/-- No entry of a table changes in a copy. -/
theorem Sound.walk_putBytes (h : Sound held P s) (hput : s.putBytes k dst src = some t) :
    Sound held P t ∧ ∀ k va, t.walkUserLeaf k va = s.walkUserLeaf k va := by
  induction src generalizing s dst with
  | nil =>
    obtain rfl := Option.some.inj hput
    exact ⟨h, fun _ _ => rfl⟩
  | cons byte src ih =>
    obtain ⟨⟨p, o⟩, hplace, hrest⟩ := Option.bind_eq_some_iff.1 hput
    have hno := h.noTable_of_place hplace
    have h₁ : Sound held P (s.poke p o byte) := h.fill hno _
    obtain ⟨ht, hwalk⟩ := ih h₁ hrest
    refine ⟨ht, fun k va => ?_⟩
    rw [hwalk]
    exact (sameTrees_fill hno _).walkUserLeaf h.toTrees h₁.toTrees k va

omit [Fintype κ] in
theorem getBytes_eq_some {bytes : List UInt8} : s.getBytes k va n = some bytes ↔
    bytes.length = n ∧ ∀ i < n, s.load k (va + i) = bytes[i]? := by
  induction n generalizing va bytes with
  | zero => simp [VmState.getBytes, eq_comm]
  | succ n ih =>
    have hnext : ∀ i, va + 1 + i = va + (i + 1) := fun i => by omega
    simp only [VmState.getBytes, bind_eq_bind, bind_eq_some_iff, ih, hnext]
    constructor
    · rintro ⟨byte, hbyte, rest, ⟨hlength, hrest⟩, heq⟩
      obtain rfl := Option.some.inj heq
      refine ⟨by simp [hlength], fun i hi => ?_⟩
      cases i with
      | zero => exact hbyte
      | succ i => exact hrest i (by omega)
    · rintro ⟨hlength, hload⟩
      obtain _ | ⟨byte, rest⟩ := bytes
      · simp at hlength
      · refine ⟨byte, hload 0 (by omega), rest, ⟨by simpa using hlength, fun i hi => ?_⟩, rfl⟩
        exact hload (i + 1) (by omega)

/-- The kernel lets a copy to a range through. -/
def VmState.Writable (s : VmState κ) (k : κ) (dst n : Nat) : Prop :=
  (n = 0 → userBase ≤ dst ∧ dst ≤ userLimit) ∧ ∀ i < n, s.Passes k true (dst + i)

theorem Sound.copyToUser_ok (h : Sound held P s) (hpass : s.Writable k dst src.length) :
    ∃ t, s.copyToUser k dst src = some (.ok, t) ∧ Sound held P t ∧ s.Stores k dst src t := by
  have hthere : ∀ i < src.length, s.place k (dst + i) ≠ none := by
    intro i hi hnone
    obtain ⟨leaf, hleaf, -⟩ := hpass.2 i hi
    rw [VmState.place, hleaf] at hnone
    cases hnone
  obtain ⟨t, run, hrest⟩ := h.putBytes hthere
  refine ⟨t, ?_, hrest⟩
  rw [VmState.copyToUser, if_pos (h.validateUserRange.2 hpass), run, map_some]

theorem Sound.copyToUser_error (h : Sound held P s) (hpass : ¬s.Writable k dst src.length) :
    s.copyToUser k dst src = some (.invalidArgument, s) := by
  rw [VmState.copyToUser, if_neg fun hvalid => hpass (h.validateUserRange.1 hvalid)]

/-- A copy from a program gives the bytes that the program reads, and fails where it cannot. -/
theorem Sound.copyFromUser (h : Sound held P s) {bytes : List UInt8} :
    s.copyFromUser k va n = some (.ok bytes) ↔ (n = 0 → userBase ≤ va ∧ va ≤ userLimit) ∧
      bytes.length = n ∧ ∀ i < n, s.load k (va + i) = bytes[i]? := by
  rw [VmState.copyFromUser]
  split_ifs with hvalid
  · have hempty := (h.validateUserRange.1 hvalid).1
    rw [← getBytes_eq_some, map_eq_some_iff]
    exact ⟨fun ⟨_, hget, heq⟩ => ⟨hempty, hget.trans (congrArg some (Except.ok.inj heq))⟩,
      fun ⟨_, hget⟩ => ⟨_, hget, rfl⟩⟩
  · refine iff_of_false (by simp) fun ⟨hempty, hlength, hload⟩ => hvalid ?_
    refine h.validateUserRange.2 ⟨hempty, fun i hi => ?_⟩
    have hbyte := hload i hi
    rw [List.getElem?_eq_getElem (by omega), VmState.load] at hbyte
    obtain ⟨leaf, hleaf, -⟩ := Option.map_eq_some_iff.1 hbyte
    exact ⟨leaf, hleaf, by simp⟩

/-! ## The rules of the hardware -/

/-- A program can write to an address, maybe after a fault. -/
def VmState.Storable (s : VmState κ) (k : κ) (va : Nat) : Prop :=
  ∃ leaf, s.walkUserLeaf k va = some leaf ∧ (leaf.2.write = true ∨ leaf.2.cow = true)

/-- A copy of `n` bytes to a range that the program can write to stores them, in pages that no other
address stands for: what is read at other addresses stays, and so does every page in use that the
program does not have in the range afterwards. A copy to another range changes nothing. -/
def Copies (s : VmState κ) (k : κ) (dst n : Nat) : Prop :=
  ∀ src : List UInt8, src.length = n →
    ((∀ i < n, s.Storable k (dst + i)) → ∃ t, s.copyToUser k dst src = some (.ok, t) ∧
      (∀ i (hi : i < src.length), t.load k (dst + i) = some src[i]) ∧
      (∀ k' va, (k' = k → ∀ i < n, va ≠ dst + i) → t.load k' va = s.load k' va) ∧
      ∀ p, 0 < s.pageRefs p → (∀ i < n, ∀ o, t.place k (dst + i) ≠ some (p, o)) →
        t.memory p = s.memory p) ∧
    (¬(∀ i < n, s.Storable k (dst + i)) →
      ∃ status, s.copyToUser k dst src = some (status, s) ∧ status ≠ .ok)

/-- The kernel lets the copy through, and no other address stands for one of the bytes. -/
def VmState.Private (s : VmState κ) (k : κ) (va : Nat) : Prop :=
  s.Passes k true va ∧ ∀ k' va', s.place k' va' = s.place k va → k' = k ∧ va' = va

/-- What is copied to an address is read at every address for the same byte. -/
theorem Copies.load_same (hcopy : Copies s k dst n) (h : Sound held P s)
    (hstore : ∀ i < n, s.Storable k (dst + i)) (hn : src.length = n) (hi : i < src.length)
    (hsame : s.place k' va = s.place k (dst + i)) :
    (∀ j (hj : j < src.length), va = dst + j → k' = k → src[j] = src[i]) ∧
      ((k' = k → ∀ i < n, va ≠ dst + i) → s.load k' va = some src[i]) := by
  obtain ⟨t, run, hbytes, hother, -⟩ := (hcopy src hn).1 hstore
  have hpass : s.Writable k dst src.length := by
    by_contra hpass
    rw [h.copyToUser_error hpass] at run
    cases run
  obtain ⟨t', run', -, hkept, -⟩ := h.copyToUser_ok hpass
  obtain rfl : t = t' := congrArg Prod.snd (Option.some.inj (run.symm.trans run'))
  have hread : t.load k' va = some src[i] := by
    rw [load_eq, hkept, hsame, ← hkept, ← load_eq, hbytes i hi]
  refine ⟨fun j hj hva hk => ?_, fun hout => by rw [← hother k' va hout, hread]⟩
  rw [hva, hk, hbytes j hj] at hread
  exact Option.some.inj hread

theorem Sound.copies_iff_private (h : Sound held P s) :
    Copies s k dst n ↔ (n = 0 → userBase ≤ dst ∧ dst ≤ userLimit) ∧
      ((∀ i < n, s.Storable k (dst + i)) → ∀ i < n, s.Private k (dst + i)) := by
  refine ⟨fun hcopy => ?_, fun ⟨hempty, hprivate⟩ src hn => ?_⟩
  · -- whatever is copied, the kernel lets it through
    have hpass : (∀ i < n, s.Storable k (dst + i)) → s.Writable k dst n := fun hstore => by
      by_contra hpass
      have hn : (List.replicate n (0 : UInt8)).length = n := List.length_replicate
      obtain ⟨t, run, -⟩ := (hcopy _ hn).1 hstore
      rw [h.copyToUser_error (by rwa [hn])] at run
      cases run
    refine ⟨fun hzero => (hpass fun i hi => by omega).1 hzero,
      fun hstore i hi => ⟨(hpass hstore).2 i hi, fun k' va hsame => ?_⟩⟩
    by_contra hne
    by_cases hin : k' = k ∧ ∃ j < n, va = dst + j
    · obtain ⟨rfl, j, hj, rfl⟩ := hin
      have hij : i ≠ j := by
        rintro rfl
        exact hne ⟨rfl, rfl⟩
      have hlen : ((List.replicate n (0 : UInt8)).set i 1).length = n := by simp
      have heq := (hcopy.load_same h hstore hlen (by omega) hsame).1 j (by omega) rfl rfl
      simp [hij] at heq
    · have hout : k' = k → ∀ i < n, va ≠ dst + i := fun hk i hi hva => hin ⟨hk, i, hi, hva⟩
      have hread : ∀ byte : UInt8, s.load k' va = some byte := fun byte => by
        have hlen : (List.replicate n byte).length = n := List.length_replicate
        have hbyte := (hcopy.load_same h hstore hlen (by omega) hsame).2 hout
        rwa [List.getElem_replicate] at hbyte
      have hzero := (hread 0).symm.trans (hread 1)
      simp at hzero
  · refine ⟨fun hstore => ?_, fun hstore => ?_⟩
    · have hall := hprivate hstore
      subst hn
      obtain ⟨t, run, -, hkept, hframe, hbytes⟩ :=
        h.copyToUser_ok ⟨hempty, fun i hi => (hall i hi).1⟩
      refine ⟨t, run, fun i hi => ?_, fun k' va hout => ?_, fun p _ hp => funext fun o => ?_⟩
      · obtain ⟨leaf, hleaf, -⟩ := (hall i hi).1
        have hplace : s.place k (dst + i) = some _ := place_eq_some.2 ⟨leaf, hleaf, rfl⟩
        rw [load_eq, hkept, hplace, map_some, hbytes i hi _ _ hplace fun j hij hj hsame => ?_]
        have := ((hall i hi).2 k (dst + j) (hsame.trans hplace.symm)).2
        omega
      · rw [load_eq, load_eq, hkept]
        cases hplace : s.place k' va with
        | none => rfl
        | some place =>
          rw [map_some, map_some, hframe _ _ fun i hi hsame => ?_]
          obtain ⟨hk, hva⟩ := (hall i hi).2 k' va (hplace.trans hsame.symm)
          exact hout hk i hi hva
      · refine hframe p o fun i hi => ?_
        rw [← hkept]
        exact hp i hi o
    · refine ⟨.invalidArgument, h.copyToUser_error fun hpass => hstore fun i hi => ?_, by simp⟩
      obtain ⟨leaf, hleaf, hw⟩ := hpass.2 i (by omega)
      exact ⟨leaf, hleaf, .inl (hw rfl)⟩

/-! ## Every state that calls lead to -/

variable [DecidableEq κ] {m : Machine κ} {ranges : List KernelMmioRange}

/-- There is room for a page in the list of owned pages, unless there are too few pages for its
tables, too, and counts of references do not overflow. -/
def Machine.Tame (m : Machine κ) : Event κ → Prop
  | .fork _ parent => ∀ p, m.vm.pageRefs p + m.vm.uses parent window p < 2 ^ 16
  | .fault k virtualAddress _ => m.vm.missing k virtualAddress = m.vm.room k →
      m.vm.freePages ≤ m.vm.missing k virtualAddress
  | .map k virtualAddress _ _ => m.vm.missing k virtualAddress = m.vm.room k →
      m.vm.freePages ≤ m.vm.missing k virtualAddress
  | .share k virtualAddress page _ => m.vm.pageRefs page + 1 < 2 ^ 16 ∧
      (m.vm.missing k virtualAddress = m.vm.room k →
        m.vm.freePages < m.vm.missing k virtualAddress)
  | _ => True

/-- A page that is mapped can be recorded, unless there are too few pages for its tables, and counts
of references do not overflow. -/
def Machine.Records (m : Machine κ) : Event κ → Prop
  | .fork _ parent => ∀ p, m.vm.pageRefs p + m.vm.uses parent window p < 2 ^ 16
  | .fault k virtualAddress _ => m.vm.walkUserLeaf k (alignDown virtualAddress pageSize) = none →
      userStackGrowLimit ≤ virtualAddress → virtualAddress < userStackTop →
      m.vm.missing k virtualAddress = m.vm.room k →
      m.vm.freePages ≤ m.vm.missing k virtualAddress
  | .map k virtualAddress _ _ => inUser virtualAddress = true →
      m.vm.missing k virtualAddress = m.vm.room k →
      m.vm.freePages ≤ m.vm.missing k virtualAddress
  | .share k virtualAddress page _ => inUser virtualAddress = true →
      m.vm.pageRefs page + 1 < 2 ^ 16 ∧
        (m.vm.missing k virtualAddress = m.vm.room k →
          m.vm.freePages < m.vm.missing k virtualAddress)
  | _ => True

omit [DecidableEq κ] [Fintype κ] in
theorem Machine.Tame.records {event : Event κ} (h : m.Tame event) : m.Records event := by
  cases event with
  | fork => exact h
  | fault => exact fun _ _ _ => h
  | map => exact fun _ => h
  | share => exact fun _ => h
  | create | destroy | newObject | write | store => trivial

omit [DecidableEq κ] [Fintype κ] in
theorem Machine.Keeps.tame {event : Event κ} (h : m.Keeps event) : m.Tame event := by
  cases event with
  | fork => exact h.2
  | fault => exact h
  | map => exact h.2
  | share => exact h.2
  | create | destroy | newObject | write | store => trivial

/-- The machines that calls lead to, in any order, also when programs with pages of objects fork. -/
abbrev Machine.Tamed (ranges : List KernelMmioRange) : Machine κ → Prop :=
  Run (Obeys (Machine.step ranges) Machine.Tame) Boots

omit [Fintype κ] in
theorem Machine.Reached.tamed (h : m.Reached ranges) : m.Tamed ranges :=
  h.mono fun _ _ _ hstep => ⟨Machine.Keeps.tame hstep.1, hstep.2⟩

namespace Sound

omit [DecidableEq κ] in
theorem withVm (h : Sound m.held m.pinned t) :
    Sound { m with vm := t }.held { m with vm := t }.pinned { m with vm := t }.vm := h

theorem map {page : Page} (h : Sound held P s)
    (hroom : inUser va = true → s.missing k va = s.room k → s.freePages ≤ s.missing k va) :
    Sound held P (s.after (mapNewPage k va write page)).1 := by
  cases hin : inUser va with
  | true =>
    obtain ⟨_, t, run, ht, -⟩ | ⟨t, _, run, ht, -⟩ := mapNewPage_spec h hin write page (hroom hin)
    · rwa [after_ok run]
    · rwa [after_error run]
  | false =>
    obtain ⟨t, run, ht, -⟩ := mapNewPage_outside h hin write page k (path va)
    rwa [after_error run]

theorem fault (h : Sound held P s) (present write : Bool)
    (hroom : present = false → userStackGrowLimit ≤ va → va < userStackTop →
      s.missing k va = s.room k → s.freePages ≤ s.missing k va) :
    Sound held P (s.after (handlePageFault k va present write true)).1 := by
  obtain ⟨hpresent, hlow, hhigh, -, hmissing, run⟩ | run | ⟨hin, run⟩ :=
    handlePageFault_cases s present write
  · rw [run]
    exact h.map fun _ => hmissing ▸ hroom hpresent hlow hhigh
  · rwa [after_error run]
  · rw [run]
    obtain ⟨_, _, t, run, ht, -⟩ | ⟨run, -⟩ := breakCow_spec h hin
    · rwa [after_ok run]
    · rwa [after_error run]

theorem step (h : Sound m.held m.pinned m.vm) (event : Event κ) (hrecords : m.Records event) :
    Sound (m.step ranges event).held (m.step ranges event).pinned (m.step ranges event).vm := by
  cases event with
  | create k =>
    rw [Machine.step]
    split_ifs with hempty
    · obtain ⟨t, run, ht, -⟩ | ⟨t, run, ht, -⟩ := createAddressSpace_spec h hempty ranges
      · rwa [after_ok run]
      · rwa [after_error run]
    · exact h
  | destroy k =>
    obtain ⟨t, run, ht, -⟩ := destroyAddressSpace_spec h k
    rw [Machine.step, after_ok run]
    exact ht
  | fork child parent =>
    rw [Machine.step]
    split_ifs with hempty
    · by_cases hroot : (m.vm.spaces parent).pml4 = 0
      · rw [Machine.fork, after_error (cloneCow_noRoot hroot ranges)]
        exact h
      obtain ⟨t, run, ht, -⟩ | ⟨t, _, run, ht, -⟩ := cloneCow_spec h hempty hroot hrecords ranges
      · rw [Machine.fork, after_ok run]
        exact ht
      · rw [Machine.fork, after_error run]
        exact ht
    · exact h
  | fault k va write =>
    refine (h.fault _ write fun hnone => hrecords ?_).withVm
    simpa using hnone
  | map k va writable content =>
    exact (h.map hrecords).withVm
  | newObject content =>
    rw [Machine.step]
    obtain ⟨halloc, -⟩ | ⟨p, hfree, hlt, halloc⟩ := h.allocPage_cases
    · rw [halloc]
      exact h
    · rw [halloc]
      exact h.hold hfree hlt content
  | share k va p writable =>
    rw [Machine.step]
    split_ifs with hp
    · have hpin : m.pinned p := fun hnone => by simp [hnone] at hp
      rw [Machine.share]
      cases hin : inUser va with
      | false =>
        have hfail : mapSharedPage k va p writable m.vm = some (.error (), m.vm) := by
          rw [mapSharedPage, if_pos (by simp [hin])]
          rfl
        rw [after_error hfail]
        exact h
      | true =>
        obtain ⟨t, run, ht, -⟩ | ⟨t, _, run, ht, -⟩ :=
          mapSharedPage_spec h hin writable hpin (hrecords hin).1 (hrecords hin).2
        · rw [after_ok run]
          exact ht
        · rw [after_error run]
          exact ht
    · exact h
  | write p offset byte =>
    rw [Machine.step]
    split_ifs with hp
    · have hpin : m.pinned p := fun hnone => by simp [hnone] at hp
      exact (h.fill (h.noTable_of_held (h.pins p hpin)) _).setByte p offset byte
    · exact h
  | store k va byte =>
    rw [Machine.step, Machine.store]
    cases hstore : m.vm.store k va byte with
    | none => exact h
    | some t =>
      obtain ⟨leaf, hleaf, ht⟩ := Option.bind_eq_some_iff.1 hstore
      have hno := h.noTable_of_place (place_eq_some.2 ⟨leaf, hleaf, rfl⟩)
      split_ifs at ht
      obtain rfl := Option.some.inj ht
      dsimp only
      split
      · exact (h.fill hno _).setByte _ _ byte
      · exact h.fill hno _

end Sound

theorem sound_of_records (h : Run (Obeys (Machine.step ranges) Machine.Records) Boots m) :
    Sound m.held m.pinned m.vm :=
  h.invariant (fun _ hm => hm.agrees.sound) fun m event t hm hstep => by
    obtain ⟨hrecords, rfl⟩ := hstep
    exact hm.step event hrecords

omit [Fintype κ] in
theorem Machine.Tamed.records (h : m.Tamed ranges) :
    Run (Obeys (Machine.step ranges) Machine.Records) Boots m :=
  h.mono fun _ _ _ hstep => ⟨hstep.1.records, hstep.2⟩

theorem sound_of_tamed (h : m.Tamed ranges) : Sound m.held m.pinned m.vm :=
  sound_of_records h.records

/-- A copy to a program follows the rules of the hardware just when no address of the range that the
program could write to is marked, and no other address stands for one of its bytes; a range without
bytes has to begin in the window. -/
theorem copies_iff (h : m.Tamed ranges) (k : κ) (dst n : Nat) :
    Copies m.vm k dst n ↔ (n = 0 → userBase ≤ dst ∧ dst ≤ userLimit) ∧
      ((∀ i < n, m.vm.Storable k (dst + i)) → ∀ i < n, m.vm.Private k (dst + i)) :=
  (sound_of_tamed h).copies_iff_private

/-! ## A fork that comes before -/

/-- A program has a page mapped that it can write to, and forks. The kernel does not copy to the
page any more, though the program can still write to it. -/
theorem not_copies_forked : ∃ page m,
    (sharing page ++ [Event.fork true false]).foldl (Machine.step []) boot = m ∧ m.Tamed [] ∧
    m.vm.Storable false 0x60000000 ∧
    m.vm.copyToUser false 0x60000000 [1] = some (.invalidArgument, m.vm) ∧
    ¬Copies m.vm false 0x60000000 1 := by
  obtain ⟨p, m, hm, h⟩ := ready_sharing
  obtain ⟨t, e, hfork, ht, hforked, -, hcow, hwrite, -⟩ := h.fork
  obtain ⟨a, ha⟩ := ht.walk_of_leaf (by decide) (hforked false)
  have hstep : m.Tamed [] → Machine.Tamed [] (m.step [] (.fork true false)) := fun hm =>
    hm.step (k := .fork true false) ⟨h.counts, rfl⟩
  have htamed := hstep h.reached.tamed
  have hstore : t.Storable false 0x60000000 := ⟨(a, e), ha, .inr hcow⟩
  have hpass : ¬t.Passes false true 0x60000000 := by
    rintro ⟨leaf, hleaf, hw⟩
    obtain rfl := Option.some.inj (ha.symm.trans hleaf)
    rw [hw rfl] at hwrite
    cases hwrite
  refine ⟨p, _, ?_, htamed, ?_⟩
  · rw [List.foldl_append, hm]
    rfl
  · rw [hfork]
    refine ⟨hstore, ht.copyToUser_error fun hall => hpass (hall.2 0 (by simp)), fun hcopies => ?_⟩
    have hall := (ht.copies_iff_private.1 hcopies).2 fun i hi => by
      obtain rfl : i = 0 := by omega
      exact hstore
    exact hpass (hall 0 (by omega)).1

/-- Before the fork the same copy does what it should. -/
theorem copies_sharing : ∃ page m, (sharing page).foldl (Machine.step []) boot = m ∧
    Copies m.vm false 0x60000000 1 := by
  obtain ⟨p, m, hm, h⟩ := ready_sharing
  have ha := agrees_of_reached h.reached
  have hv : 0x60000000 / pageSize = 0x60000 := by decide
  have hview : m.views false (0x60000000 / pageSize) = some { page := p, writable := true } := by
    rw [hv]
    exact h.view
  obtain ⟨e, he, -, hwrite, -⟩ := ha.view_page hview
  obtain ⟨a, hwalk⟩ := ha.sound.walk_of_leaf (by decide) he
  refine ⟨p, m, hm, (copies_iff h.reached.tamed false 0x60000000 1).2 ⟨by simp, fun _ i hi => ?_⟩⟩
  obtain rfl : i = 0 := by omega
  refine ⟨⟨(a, e), hwalk, fun _ => hwrite⟩, fun k' va' hsame => ?_⟩
  rw [Nat.add_zero, place_eq_some.2 ⟨(a, e), hwalk, rfl⟩] at hsame
  obtain ⟨leaf, hleaf, heq⟩ := place_eq_some.1 hsame
  have hin := inUser_of_walk hleaf
  have he' := ha.sound.leaf_of_walk hleaf
  cases k' with
  | true =>
    rw [leaf_empty h.child] at he'
    cases he'
  | false =>
    have hpage : va' / 4096 = 0x60000 := by
      by_contra hne
      rw [h.sole va' hin hne] at he'
      cases he'
    have hoffset : va' % pageSize = 0x60000000 % pageSize := (Prod.mk.inj heq).2
    rw [pageSize] at hoffset
    exact ⟨rfl, by omega⟩

/-! ## Pages that programs get at -/

/-- Every page that a program gets at is reserved, recorded for its space, and has as many references
as there are entries for it and references of the kernel. -/
def Machine.Accounted (m : Machine κ) : Prop :=
  ∀ k va e, va < 2 ^ 48 → m.vm.userWalk k va = some e →
    m.vm.pageState e.page = .reserved ∧ e.page ∈ m.vm.owned k ∧
      m.vm.pageRefs e.page = m.vm.recorded e.page + m.held e.page

/-- No page that a program gets at is free as long as pages that are mapped can be recorded. -/
theorem accounted_of_run (h : Run (Obeys (Machine.step ranges) Machine.Records) Boots m) :
    m.Accounted := by
  intro k va e hva he
  have hm := sound_of_records h
  obtain ⟨hin, hleaf⟩ := hm.leaf_of_userWalk hva he
  exact ⟨(hm.reserved _ (hm.refs_of_leaf hin hleaf)).2, hm.owned_of_leaf hin hleaf, hm.counted _⟩

theorem accounted_sharing : ∃ page m, (sharing page).foldl (Machine.step []) boot = m ∧
    m.Accounted := by
  obtain ⟨p, m, hm, h⟩ := ready_sharing
  exact ⟨p, m, hm, accounted_of_run h.reached.tamed.records⟩

omit [DecidableEq κ] [Fintype κ] in
theorem missing_zero (h : s.table k (path va) ≠ none) :
    s.missing k va = 0 ∧ (s.spaces k).pml4 ≠ 0 := by
  have h1 : s.table k [tableIndex va 2, tableIndex va 3] ≠ none := fun hnone =>
    h (table_of_none hnone _)
  have h2 : s.table k [tableIndex va 3] ≠ none := fun hnone => h1 (table_of_none hnone _)
  have h3 : s.table k [] ≠ none := fun hnone => h2 (table_of_none hnone _)
  refine ⟨by rw [missing_eq, if_neg h, if_neg h1, if_neg h2], fun hzero => h3 (if_pos hzero)⟩

/-- A program maps new pages at one address, and when there is no room to record another one it has a
page that is free. -/
theorem exists_free (hm : Sound m.held m.pinned m.vm) (hin : inUser va = true)
    (htable : m.vm.table k (path va) ≠ none) (hpages : m.vm.room k < m.vm.freePages)
    (content : Page) : ∃ n, ¬((List.replicate n (Event.map k va write content)).foldl
      (Machine.step ranges) m).Accounted := by
  obtain ⟨hmissing, hroot⟩ := missing_zero htable
  induction hroom : m.vm.room k generalizing m with
  | zero =>
    refine ⟨1, fun haccounted => ?_⟩
    obtain ⟨_, t, -, -, g, -⟩ | ⟨_, _, -, -, -, hfull⟩ | ⟨p, t, run, ht, hleaf, hfree, -⟩ :=
      mapNewPage_cases hm hin write content (k := k)
    · have := g.room
      omega
    · have := hfull hroot
      omega
    · have hstep : m.step ranges (.map k va write content) = { m with vm := t } := by
        rw [Machine.step, after_error run]
      rw [List.replicate_one, List.foldl_cons, hstep] at haccounted
      have hreserved := (haccounted k va _ (inUser.lt hin) (ht.userWalk_of_leaf hin hleaf)).1
      cases hfree.symm.trans hreserved
  | succ j ih =>
    obtain ⟨p, t, run, ht, g, -⟩ | ⟨_, _, -, -, -, hfull⟩ :=
      mapNewPage_spec hm hin write content (k := k) (by omega)
    · have hleft := g.free
      have hspace := g.room
      obtain ⟨n, hn⟩ := ih (m := { m with vm := t }) ht g.way (by dsimp only; omega)
        (missing_zero g.way).1 (missing_zero g.way).2 (by dsimp only; omega)
      refine ⟨n + 1, ?_⟩
      rwa [List.replicate_succ, List.foldl_cons, Machine.step, after_ok run]
    · have := hfull hroot
      omega

/-- Page 0x60000000 of a program is mapped again and again. -/
theorem not_accounted_full : ∃ n, ¬((.create false :: List.replicate n
    (Event.map false 0x60000000 true fun _ => 0)).foldl (Machine.step [])
      ({ vm := .blank 20000 } : Machine Bool)).Accounted := by
  have hlength : kernelPaths.length = 14 := by decide
  have hin : inUser 0x60000000 = true := by decide
  have hfree : 20000 ≤ (VmState.blank 20000 : VmState Bool).freePages := freePages_blank (by decide)
  obtain ⟨s, run, hs, g, hpages, hlen⟩ := createAddressSpace_ok (k := false)
    (boots_blank 20000).agrees.sound rfl (by dsimp only; omega)
  have hmissing := missing_le s false 0x60000000
  have hroom : s.room false = 16384 - (s.owned false).length := rfl
  obtain ⟨p, t, run', ht, g', -⟩ | ⟨_, _, -, -, -, hfull⟩ :=
    mapNewPage_spec hs hin true (fun _ => 0) (k := false) (by dsimp only at hpages; omega)
  · have hleft := g'.free
    have hspace := g'.room
    dsimp only at hpages
    obtain ⟨n, hn⟩ := @exists_free _ _ _ true _ _ { vm := t } [] ht hin g'.way
      (by dsimp only; omega) fun _ => 0
    refine ⟨n + 1, ?_⟩
    rwa [List.replicate_succ, List.foldl_cons, List.foldl_cons, Machine.step_create rfl run,
      Machine.step, after_ok run']
  · have := hfull g.root
    dsimp only at hpages
    omega

/-! ## Spaces of their own -/

/-- The space whose bytes a call changes. -/
def Event.space : Event κ → Option κ
  | .destroy k | .fork k _ | .fault k .. | .map k .. | .store k .. => some k
  | _ => none

namespace Sound

section
omit [DecidableEq κ]

theorem load_eq_leaf (h : Sound held P s) (k : κ) (va : Nat) : s.load k va =
    if inUser va then (s.leaf k va).map fun e => s.memory e.page (va % pageSize) else none := by
  cases hin : inUser va with
  | false => simp [VmState.load, VmState.walkUserLeaf, hin]
  | true =>
    cases he : s.leaf k va with
    | none => cases hpt : s.table k (path va) <;> simp [VmState.load, h.walkUserLeaf hin, he, hpt]
    | some e => exact h.load hin he

variable (hs : Sound held P s) (ht : Sound held' P' t)
  (hmem : ∀ p, 0 < s.pageRefs p → s.NoTable p → t.memory p = s.memory p)
include hs ht hmem

/-- Where the page is the same, so is the byte. -/
theorem load_congr
    (hleaf : inUser va = true → (t.leaf k' va).map Pte.page = (s.leaf k va).map Pte.page) :
    t.load k' va = s.load k va := by
  rw [hs.load_eq_leaf, ht.load_eq_leaf]
  split_ifs with hin
  · have hpage := hleaf hin
    cases he : s.leaf k va with
    | none =>
      rw [he, map_none, map_eq_none_iff] at hpage
      rw [hpage]
      rfl
    | some e =>
      obtain ⟨e', he', heq⟩ := Option.map_eq_some_iff.1 (hpage.trans (by rw [he]; rfl))
      rw [he', map_some, map_some, heq, hmem _ (hs.refs_of_leaf hin he) (hs.apart k va e hin he)]
  · rfl

theorem load_same (hleaf : ∀ k va, inUser va = true →
    (t.leaf k va).map Pte.page = (s.leaf k va).map Pte.page) : t.load = s.load :=
  funext fun k => funext fun va => hs.load_congr ht hmem (hleaf k va)

end

end Sound

end RadKernel.Vm
