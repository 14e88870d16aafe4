import RadKernel.Lib.Run
import RadKernel.Vm.Faults

/-!
# Shared memory

The kernel keeps pages of its own and maps them into address spaces, for objects of shared memory
and for the code of libraries. `Machine` runs the calls of `x86_vm.cpp` next to what is expected of
these pages: which bytes they have, and where they are mapped.
-/

namespace RadKernel.Vm

open Function
open VmState (fill)

variable {κ : Type}

section

variable [DecidableEq κ]

/-! ## User programs -/

/-- The byte that a user program reads. -/
def VmState.load (s : VmState κ) (k : κ) (virtualAddress : Nat) : Option UInt8 :=
  (s.walkUserLeaf k virtualAddress).map fun leaf => s.memory leaf.2.page (virtualAddress % pageSize)

def VmState.poke (s : VmState κ) (page offset : Nat) (byte : UInt8) : VmState κ :=
  s.fill page (Function.update (s.memory page) offset byte)

/-- The state after a user program wrote a byte, if no fault comes first. -/
def VmState.store (s : VmState κ) (k : κ) (virtualAddress : Nat) (byte : UInt8) :
    Option (VmState κ) :=
  (s.walkUserLeaf k virtualAddress).bind fun leaf =>
    if leaf.2.write then some (s.poke leaf.2.page (virtualAddress % pageSize) byte) else none

/-! ## The machine -/

/-- A page of an object that is mapped. -/
structure View where
  page : Nat
  writable : Bool
  deriving DecidableEq, Repr

/-- The address spaces, the references of the kernel, the bytes of the pages of objects, and where
they are expected to be mapped, by the number of the virtual page. -/
structure Machine (κ : Type) where
  vm : VmState κ
  held : Nat → Nat := fun _ => 0
  objects : Nat → Option Page := fun _ => none
  views : κ → Nat → Option View := fun _ _ => none

inductive Event (κ : Type) where
  | create (k : κ)
  | destroy (k : κ)
  | fork (child parent : κ)
  | fault (k : κ) (virtualAddress : Nat) (write : Bool)
  | map (k : κ) (virtualAddress : Nat) (writable : Bool) (content : Page)
  | newObject (content : Page)
  | share (k : κ) (virtualAddress page : Nat) (writable : Bool)
  | write (page offset : Nat) (byte : UInt8)
  | store (k : κ) (virtualAddress : Nat) (byte : UInt8)

/-- The state after a call, and whether it succeeded. -/
def VmState.after {α : Type} (s : VmState κ) (x : VmM κ α) : VmState κ × Bool :=
  match x s with
  | some (.ok _, t) => (t, true)
  | some (.error _, t) => (t, false)
  | none => (s, false)

namespace Machine

/-- Pages of objects are pinned. -/
abbrev pinned (m : Machine κ) (page : Nat) : Prop := m.objects page ≠ none

def setByte (m : Machine κ) (page offset : Nat) (byte : UInt8) : Nat → Option Page :=
  Function.update m.objects page ((m.objects page).map fun c => Function.update c offset byte)

/-- A page that the kernel allocates for an object. -/
def hold (m : Machine κ) (content : Page) : Option (Except Unit Nat × VmState κ) → Machine κ
  | some (.ok page, vm) => { m with
      vm := vm.fill page content
      held := Function.update m.held page 1
      objects := Function.update m.objects page (some content) }
  | _ => m

def share (m : Machine κ) (k : κ) (virtualAddress page : Nat) (writable : Bool) : Machine κ :=
  let (vm, done) := m.vm.after (mapSharedPage k virtualAddress page writable)
  if done then { m with
    vm
    views := Function.update m.views k
      (Function.update (m.views k) (virtualAddress / pageSize) (some { page, writable })) }
  else { m with vm }

def fork (ranges : List KernelMmioRange) (m : Machine κ) (child parent : κ) : Machine κ :=
  let (vm, done) := m.vm.after (cloneCow ranges child parent)
  if done then { m with vm, views := Function.update m.views child (m.views parent) }
  else { m with vm }

/-- What a user program writes to the page of an object is expected to be in the object. -/
def store (m : Machine κ) (k : κ) (virtualAddress : Nat) (byte : UInt8) : Machine κ :=
  match m.vm.store k virtualAddress byte with
  | none => m
  | some vm =>
    match m.views k (virtualAddress / pageSize) with
    | some { page, writable := true } =>
      { m with vm, objects := m.setByte page (virtualAddress % pageSize) byte }
    | _ => { m with vm }

/-- Spaces that are in use are not made again, the kernel maps and writes to pages of objects only,
and the error code of a fault says whether there is an entry. -/
def step (ranges : List KernelMmioRange) (m : Machine κ) : Event κ → Machine κ
  | .create k =>
    if m.vm.spaces k = {} then { m with vm := (m.vm.after (createAddressSpace ranges k)).1 } else m
  | .destroy k => { m with
      vm := (m.vm.after (destroyAddressSpace k)).1
      views := Function.update m.views k fun _ => none }
  | .fork child parent => if m.vm.spaces child = {} then m.fork ranges child parent else m
  | .fault k virtualAddress write => { m with
      vm := (m.vm.after (handlePageFault k virtualAddress
        (m.vm.walkUserLeaf k (alignDown virtualAddress pageSize)).isSome write true)).1 }
  | .map k virtualAddress writable content =>
    { m with vm := (m.vm.after (mapNewPage k virtualAddress writable content)).1 }
  | .newObject content => m.hold content (allocPage m.vm)
  | .share k virtualAddress page writable =>
    if (m.objects page).isSome then m.share k virtualAddress page writable else m
  | .write page offset byte =>
    if (m.objects page).isSome then
      { m with vm := m.vm.poke page offset byte, objects := m.setByte page offset byte }
    else m
  | .store k virtualAddress byte => m.store k virtualAddress byte

end Machine

end

variable {α : Type} {x : VmM κ α}

theorem after_ok {a : α} (h : x s = some (.ok a, t)) : s.after x = (t, true) := by
  rw [VmState.after, h]

theorem after_error (h : x s = some (.error (), t)) : s.after x = (t, false) := by
  rw [VmState.after, h]

namespace Machine

variable [DecidableEq κ] {m : Machine κ} {t : VmState κ} {ranges : List KernelMmioRange} {k : κ}
  {page virtualAddress : Nat}

theorem step_create (hempty : m.vm.spaces k = {})
    (h : createAddressSpace ranges k m.vm = some (.ok (), t)) :
    m.step ranges (.create k) = { m with vm := t } := by
  rw [step, if_pos hempty, after_ok h]

theorem step_newObject {content : Page} (h : allocPage m.vm = some (.ok page, t)) :
    m.step ranges (.newObject content) = { m with
      vm := t.fill page content
      held := update m.held page 1
      objects := update m.objects page (some content) } := by
  rw [step, h, hold]

theorem step_share {writable : Bool} (hobject : m.pinned page)
    (h : mapSharedPage k virtualAddress page writable m.vm = some (.ok (), t)) :
    m.step ranges (.share k virtualAddress page writable) = { m with
      vm := t
      views := update m.views k
        (update (m.views k) (virtualAddress / pageSize) (some { page, writable })) } := by
  rw [step, if_pos (Option.isSome_iff_ne_none.2 hobject), share, after_ok h]
  rfl

theorem step_fork {child parent : κ} (hempty : m.vm.spaces child = {})
    (h : cloneCow ranges child parent m.vm = some (.ok (), t)) :
    m.step ranges (.fork child parent) =
      { m with vm := t, views := update m.views child (m.views parent) } := by
  rw [step, if_pos hempty, fork, after_ok h]
  rfl

theorem step_fault (hpresent : (m.vm.walkUserLeaf k (alignDown virtualAddress pageSize)).isSome = true)
    (h : breakCow k (alignDown virtualAddress pageSize) m.vm = some (.ok (), t)) :
    m.step ranges (.fault k virtualAddress true) = { m with vm := t } := by
  rw [step, hpresent, handlePageFault, if_neg (by simp), if_neg (by simp), after_ok h]

theorem step_store {byte : UInt8} (h : m.vm.store k virtualAddress byte = some t)
    (hview : m.views k (virtualAddress / pageSize) = some { page, writable := true }) :
    m.step ranges (.store k virtualAddress byte) =
      { m with vm := t, objects := m.setByte page (virtualAddress % pageSize) byte } := by
  rw [step, store, h]
  rw [hview]

end Machine

/-! ## What is expected holds -/

variable {m : Machine κ} {s t : VmState κ} {held : Nat → Nat} {P Q : Nat → Prop} {k k' : κ}
  {p q v va : Nat} {e : Pte} {w : View}
  {ranges : List KernelMmioRange}

theorem setByte_ne_none (m : Machine κ) (p offset : Nat) (byte : UInt8) (q : Nat) :
    m.setByte p offset byte q ≠ none ↔ m.pinned q := by
  rw [Machine.setByte]
  by_cases hq : q = p
  · rw [hq, update_self]
    cases h : m.objects p <;> simp [Machine.pinned, h]
  · rw [update_of_ne hq]

variable {leaf : Nat × Pte}

theorem Trees.leaf_of_walk (h : Trees s)
    (hwalk : s.walkUserLeaf k va = some leaf) : s.leaf k va = some leaf.2 := by
  rw [h.walkUserLeaf (inUser_of_walk hwalk)] at hwalk
  obtain ⟨_, -, hmap⟩ := Option.bind_eq_some_iff.1 hwalk
  obtain ⟨e, he, rfl⟩ := Option.map_eq_some_iff.1 hmap
  exact he

/-- Every page of an object has the bytes that are expected and is mapped where it is expected, and
no other page is writable where one is expected. -/
structure Agrees [Fintype κ] (m : Machine κ) : Prop where
  sound : Sound m.held m.pinned m.vm
  views : ∀ k v w, m.views k v = some w → v ∈ userPages ∧ m.pinned w.page ∧
    ∃ e, m.vm.leaf k (v * pageSize) = some e ∧ e.page = w.page ∧ e.write = w.writable ∧
      e.cow = false
  writers : ∀ k va e, inUser va = true → m.vm.leaf k va = some e → e.write = true →
    m.pinned e.page → m.views k (va / pageSize) ≠ none
  bytes : ∀ p c, m.objects p = some c → m.vm.memory p = c

variable [Fintype κ]

/-- More pages may be pinned when the kernel holds them. -/
theorem Sound.repin (h : Sound held P s) (hsub : ∀ p, P p → Q p) (hpins : ∀ p, Q p → 0 < held p) :
    Sound held Q s :=
  { h with
    alone := fun k va e hin he hw hno => h.alone k va e hin he hw fun hp => hno (hsub _ hp)
    pins := hpins }

/-- A page that the kernel allocated for an object. -/
theorem Sound.hold [DecidableEq κ] (h : Sound m.held m.pinned m.vm)
    (hfree : m.vm.pageState p = .free) (hlt : p < maxTrackedPages) (content : Page) :
    Sound (update m.held p 1)
      (fun q => update m.objects p (some content) q ≠ none)
      ((m.vm.take p).fill p content) := by
  have hheld : update m.held p 1 = bump m.held p := by
    have := h.counted p
    have := h.refs_of_free hfree
    rw [bump, show m.held p = 0 by omega]
  have htake := h.take hfree hlt
  have hno : (m.vm.take p).NoTable p := htake.noTable_of_held (by simp)
  rw [hheld]
  refine (htake.fill hno content).repin (fun q hq => ?_) fun q hq => ?_
  · by_cases hqp : q = p
    · simp [hqp]
    · rwa [update_of_ne hqp]
  · by_cases hqp : q = p
    · simp [hqp]
    · rw [update_of_ne hqp] at hq
      rw [bump_of_ne hqp]
      exact h.pins q hq

theorem Sound.setByte (h : Sound m.held m.pinned s) (p offset : Nat) (byte : UInt8) :
    Sound m.held (fun q => m.setByte p offset byte q ≠ none) s := by
  have hpinned := setByte_ne_none m p offset byte
  exact h.repin (fun q hq => (hpinned q).2 hq) fun q hq => h.pins q ((hpinned q).1 hq)

namespace Agrees

section
variable (h : Agrees m)
include h

theorem noTable (hp : m.pinned p) : m.vm.NoTable p :=
  h.sound.noTable_of_held (h.sound.pins p hp)

theorem refs (hp : m.pinned p) : 0 < m.vm.pageRefs p :=
  h.sound.refs_of_held (h.sound.pins p hp)

theorem view_page (hw : m.views k (va / pageSize) = some w) :
    ∃ e, m.vm.leaf k va = some e ∧ e.page = w.page ∧ e.write = w.writable ∧ e.cow = false := by
  obtain ⟨-, -, he⟩ := h.views k _ w hw
  rwa [leaf_pageStart] at he

/-- Entries that are not where a page is expected may change, and the objects stay. -/
theorem of_leaf (ht : Sound m.held m.pinned t)
    (hleaf : ∀ k va, inUser va = true → m.views k (va / pageSize) ≠ none →
      t.leaf k va = m.vm.leaf k va)
    (hnew : ∀ k va e, inUser va = true → t.leaf k va = some e → e.write = true → m.pinned e.page →
      m.vm.leaf k va = some e)
    (hmemory : ∀ p, m.pinned p → t.memory p = m.vm.memory p) : Agrees { m with vm := t } := by
  refine ⟨ht, fun k v w hw => ?_, fun k va e hin he hwrite hp => ?_, fun p c hc => ?_⟩
  · obtain ⟨hv, hp, e, he, hrest⟩ := h.views k v w hw
    refine ⟨hv, hp, e, ?_, hrest⟩
    have hdiv : v * pageSize / pageSize = v := Nat.mul_div_cancel v (by decide)
    rw [← he]
    exact hleaf k _ (inUser_of_mem hv) (by rw [hdiv, hw]; simp)
  · exact h.writers k va e hin (hnew k va e hin he hwrite hp) hwrite hp
  · have hp : m.pinned p := fun hnone => by
      rw [show m.objects p = some c from hc] at hnone
      cases hnone
    rw [hmemory p hp]
    exact h.bytes p c hc

theorem of_grown {ρ : List Nat} {n : Nat} (ht : Sound m.held m.pinned t)
    (g : Grown k ρ n m.vm t) : Agrees { m with vm := t } :=
  h.of_leaf ht (fun k va _ _ => g.leaf k va) (fun k va e _ he _ _ => by rwa [g.leaf] at he)
    fun p hp => g.memory p (h.refs hp) (h.noTable hp)

/-- A page that nobody held is none of an object. -/
theorem not_pinned (hp : m.vm.pageRefs p = 0) : ¬m.pinned p := fun hpin => by
  have := h.refs hpin
  omega

theorem beside (ht : Sound m.held m.pinned t) (hempty : m.vm.spaces k = {})
    (b : Beside k m.vm t) (hout : ∀ va, inUser va = true → t.leaf k va = none) :
    Agrees { m with vm := t } := by
  refine h.of_leaf ht (fun k' va hin _ => ?_) (fun k' va e hin he _ _ => ?_)
    fun p hp => b.memory p (h.refs hp) (h.noTable hp)
  · by_cases hk : k' = k
    · rw [hk, leaf_empty hempty, hout va hin]
    · exact b.leaf k' va hk hin
  · by_cases hk : k' = k
    · rw [hk, hout va hin] at he
      cases he
    · rwa [b.leaf k' va hk hin] at he

end

variable [DecidableEq κ]

theorem of_entry (h : Agrees m) (ht : Sound m.held m.pinned t)
    (hnone : m.views k (va / pageSize) = none) (hleaf : ∀ k' va', va' < 2 ^ 48 → t.leaf k' va' =
      if k' = k ∧ va' / 4096 = va / 4096 then some e else m.vm.leaf k' va')
    (hp : ¬m.pinned e.page) (hmemory : ∀ p, m.pinned p → t.memory p = m.vm.memory p) :
    Agrees { m with vm := t } := by
  refine h.of_leaf ht (fun k' va' hin hview => ?_) (fun k' va' e' hin he hw hpin => ?_) hmemory
  · rw [hleaf k' va' (inUser.lt hin), if_neg]
    rintro ⟨rfl, hva⟩
    have hsame : va' / pageSize = va / pageSize := hva
    rw [hsame] at hview
    exact hview hnone
  · rw [hleaf k' va' (inUser.lt hin)] at he
    split_ifs at he with hsame
    · obtain rfl := Option.some.inj he
      exact absurd hpin hp
    · exact he

/-! ### Address spaces -/

section
variable (h : Agrees m) (ranges)
include h ranges

theorem create (k : κ) : Agrees (m.step ranges (.create k)) := by
  rw [Machine.step]
  split_ifs with hempty
  · obtain ⟨t, run, ht, g⟩ | ⟨t, run, ht, b, hout⟩ := createAddressSpace_spec h.sound hempty ranges
    · rw [after_ok run]
      exact h.beside ht hempty g.toBeside g.window
    · rw [after_error run]
      exact h.beside ht hempty b fun va _ => leaf_empty hout va
  · exact h

theorem destroy (k : κ) : Agrees (m.step ranges (.destroy k)) := by
  obtain ⟨t, run, ht, d⟩ := destroyAddressSpace_spec h.sound k
  rw [Machine.step, after_ok run]
  refine ⟨ht, fun k' v w hw => ?_, fun k' va e hin he hwrite hp => ?_, fun p c hc => ?_⟩
  · have hw' : update m.views k (fun _ => none) k' v = some w := hw
    by_cases hk : k' = k
    · simp [hk] at hw'
    · rw [update_of_ne hk] at hw'
      have hleaf : t.leaf k' (v * pageSize) = m.vm.leaf k' (v * pageSize) := by
        rw [d.leaf, if_neg hk]
      change _ ∧ _ ∧ ∃ e, t.leaf k' (v * pageSize) = some e ∧ _
      rw [hleaf]
      exact h.views k' v w hw'
  · have he' : t.leaf k' va = some e := he
    rw [d.leaf] at he'
    split_ifs at he' with hk
    change update m.views k (fun _ => none) k' (va / pageSize) ≠ none
    rw [update_of_ne hk]
    exact h.writers k' va e hin he' hwrite hp
  · change t.memory p = c
    rw [d.memory]
    exact h.bytes p c hc

/-- No space with a writable page of an object forks, and the counts of references do not
overflow. -/
theorem fork {child parent : κ} (hreadonly : ∀ v w, m.views parent v = some w → w.writable = false)
    (hwrap : ∀ p, m.vm.pageRefs p + m.vm.uses parent window p < 2 ^ 16) :
    Agrees (m.step ranges (.fork child parent)) := by
  rw [Machine.step]
  split_ifs with hempty
  · -- what the parent is expected to have is as it was
    have hkeep : ∀ {t : VmState κ} {done : List Nat}, Cloning child parent done m.vm t →
        ∀ k va, k ≠ child → inUser va = true → m.views k (va / pageSize) ≠ none →
          t.leaf k va = m.vm.leaf k va := by
      intro t done g k va hk hin hview
      rw [g.leaf k va hk hin]
      split_ifs with hparent
      · obtain ⟨w, hw⟩ := Option.ne_none_iff_exists'.1 hview
        obtain ⟨e, he, -, hwrite, -⟩ := h.view_page hw
        have hro := hreadonly (va / pageSize) w (hparent.1 ▸ hw)
        rw [he, Option.map_some, Pte.forked_of_not_write (hwrite.trans hro)]
      · rfl
    have hwriter : ∀ {t : VmState κ} {done : List Nat}, Cloning child parent done m.vm t →
        ∀ k va e, k ≠ child → inUser va = true → t.leaf k va = some e → e.write = true →
          m.vm.leaf k va = some e := by
      intro t done g k va e hk hin he hw
      rw [g.leaf k va hk hin] at he
      split_ifs at he with hparent
      · obtain ⟨e₀, -, rfl⟩ := Option.map_eq_some_iff.1 he
        simp at hw
      · exact he
    rw [Machine.fork]
    by_cases hroot : (m.vm.spaces parent).pml4 = 0
    · rw [after_error (cloneCow_noRoot hroot ranges)]
      exact h
    obtain ⟨t, run, ht, g⟩ | ⟨t, done, run, ht, g, hout⟩ :=
      cloneCow_spec h.sound hempty hroot hwrap ranges
    · have hne : parent ≠ child := by
        rintro rfl
        rw [hempty] at hroot
        exact hroot rfl
      rw [after_ok run]
      refine ⟨ht, fun k v w hw => ?_, fun k va e hin he hwrite hp => ?_, fun p c hc => ?_⟩
      · have hw : update m.views child (m.views parent) k v = some w := hw
        change _ ∧ _ ∧ ∃ e, t.leaf k (v * pageSize) = some e ∧ _
        by_cases hk : k = child
        · rw [hk, update_self] at hw
          obtain ⟨hv, hp, e, he, hpage, hwrite, hcow⟩ := h.views parent v w hw
          refine ⟨hv, hp, e, ?_, hpage, hwrite, hcow⟩
          rw [hk, g.window _ (inUser_of_mem hv), if_pos (alignDown_mem_window (inUser_of_mem hv)), he,
            Option.map_some, Pte.forked_of_not_write (hwrite.trans (hreadonly v w hw))]
        · rw [update_of_ne hk] at hw
          obtain ⟨hv, hp, e, he, hrest⟩ := h.views k v w hw
          have hdiv : v * pageSize / pageSize = v := Nat.mul_div_cancel v (by decide)
          refine ⟨hv, hp, e, ?_, hrest⟩
          rw [hkeep g.toCloning k _ hk (inUser_of_mem hv) (by rw [hdiv, hw]; simp), he]
      · have he : t.leaf k va = some e := he
        change update m.views child (m.views parent) k (va / pageSize) ≠ none
        by_cases hk : k = child
        · rw [hk, g.window va hin] at he
          split_ifs at he
          obtain ⟨e₀, -, rfl⟩ := Option.map_eq_some_iff.1 he
          simp at hwrite
        · rw [update_of_ne hk]
          exact h.writers k va e hin (hwriter g.toCloning k va e hk hin he hwrite) hwrite hp
      · have hp : m.pinned p := fun hnone => by
          rw [show m.objects p = some c from hc] at hnone
          cases hnone
        change t.memory p = c
        rw [g.memory p (h.refs hp) (h.noTable hp)]
        exact h.bytes p c hc
    · rw [after_error run]
      refine h.of_leaf ht (fun k va hin hview => ?_) (fun k va e hin he hw _ => ?_)
        fun p hp => g.memory p (h.refs hp) (h.noTable hp)
      · by_cases hk : k = child
        · rw [hk, leaf_empty hout, leaf_empty hempty]
        · exact hkeep g k va hk hin hview
      · by_cases hk : k = child
        · rw [hk, leaf_empty hout] at he
          cases he
        · exact hwriter g k va e hk hin he hw
  · exact h

end

/-! ### Pages of user programs -/

variable {writable : Bool}

/-- A page is mapped where none of an object is expected, and can be recorded. -/
theorem map {content : Page} (h : Agrees m) (hview : m.views k (va / pageSize) = none)
    (hroom : m.vm.missing k va = m.vm.room k → m.vm.freePages ≤ m.vm.missing k va) :
    Agrees { m with vm := (m.vm.after (mapNewPage k va writable content)).1 } := by
  cases hin : inUser va with
  | true =>
    obtain ⟨p, t, run, ht, g, hp, -⟩ | ⟨t, n, run, ht, g, -⟩ :=
      mapNewPage_spec h.sound hin writable content hroom
    · rw [after_ok run]
      exact h.of_entry ht hview g.leaf (h.not_pinned hp) fun q hq =>
        g.memory q (h.refs hq) (h.noTable hq)
    · rw [after_error run]
      exact h.of_grown ht g
  | false =>
    obtain ⟨t, run, ht, g⟩ := mapNewPage_outside h.sound hin writable content k (path va)
    rw [after_error run]
    exact h.of_grown ht g

theorem fault (h : Agrees m) (ranges : List KernelMmioRange) (write : Bool)
    (hroom : m.vm.missing k va = m.vm.room k → m.vm.freePages ≤ m.vm.missing k va) :
    Agrees (m.step ranges (.fault k va write)) := by
  rw [Machine.step]
  obtain ⟨hnone, -, -, hin, hmissing, run⟩ | run | ⟨hin, run⟩ :=
    handlePageFault_cases m.vm (m.vm.walkUserLeaf k (alignDown va pageSize)).isSome write
  · -- below the stack, where there is no entry
    have hwalk := h.sound.walkUserLeaf (k := k) hin
    have hview : m.views k (alignDown va pageSize / pageSize) = none := by
      by_contra hview
      obtain ⟨w, hw⟩ := Option.ne_none_iff_exists'.1 hview
      obtain ⟨e, he, -⟩ := h.view_page hw
      obtain ⟨a, ha, -⟩ := leaf_eq_some.1 he
      rw [hwalk, ha, he] at hnone
      cases hnone
    rw [run]
    exact h.map hview (hmissing ▸ hroom)
  · rw [after_error run]
    exact h
  · rw [run]
    obtain ⟨e, e', t, run, ht, he, hcow, -, -, r, -, hpages⟩ | ⟨run, -⟩ := breakCow_spec h.sound hin
    · -- a marked entry is not expected anywhere, and its page is not shared when it stays
      have hview : m.views k (alignDown va pageSize / pageSize) = none := by
        by_contra hview
        obtain ⟨w, hw⟩ := Option.ne_none_iff_exists'.1 hview
        obtain ⟨e₀, he₀, -, -, hcow₀⟩ := h.view_page hw
        rw [he] at he₀
        cases he₀
        rw [hcow] at hcow₀
        cases hcow₀
      have hpin : ¬m.pinned e'.page := by
        rcases hpages with ⟨hone, hsame⟩ | ⟨-, hzero⟩
        · intro hp
          have := h.sound.pins _ hp
          have := recorded_pos (h.sound.owned_of_leaf hin he)
          have := h.sound.counted e.page
          rw [hsame] at *
          omega
        · exact h.not_pinned hzero
      rw [after_ok run]
      exact h.of_entry ht hview r.leaf hpin fun q hq => r.memory q (h.refs hq) (h.noTable hq)
    · rw [after_error run]
      exact h

/-! ### Pages of objects -/

omit [DecidableEq κ] in
/-- The bytes of pages that hold no table may change, together with the objects. -/
theorem of_bytes {objects : Nat → Option Page} (h : Agrees m) (hs : SameTrees m.vm t)
    (ht : Sound m.held (fun p => objects p ≠ none) t) (hpinned : ∀ p, objects p ≠ none ↔ m.pinned p)
    (hbytes : ∀ p c, objects p = some c → t.memory p = c) : Agrees { m with vm := t, objects } := by
  refine ⟨ht, fun k v w hw => ?_, fun k va e hin he hwrite hp => ?_, hbytes⟩
  · obtain ⟨hv, hp, e, he, hrest⟩ := h.views k v w hw
    exact ⟨hv, (hpinned _).2 hp, e, (hs.leaf k _).trans he, hrest⟩
  · exact h.writers k va e hin ((hs.leaf k va).symm.trans he) hwrite ((hpinned _).1 hp)

omit [DecidableEq κ] in
theorem poke {offset : Nat} {byte : UInt8} (h : Agrees m) (hp : m.pinned p) :
    Agrees { m with vm := m.vm.poke p offset byte, objects := m.setByte p offset byte } := by
  have hno := h.noTable hp
  have hpinned := setByte_ne_none m p offset byte
  refine h.of_bytes (sameTrees_fill hno _) ((h.sound.fill hno _).setByte p offset byte)
    hpinned fun q c hc => ?_
  rw [Machine.setByte] at hc
  by_cases hq : q = p
  · rw [hq, update_self] at hc
    obtain ⟨c₀, hc₀, rfl⟩ := Option.map_eq_some_iff.1 hc
    rw [hq, ← h.bytes p c₀ hc₀]
    simp [VmState.poke, fill]
  · rw [update_of_ne hq] at hc
    rw [← h.bytes q c hc]
    simp [VmState.poke, fill, hq]

section
variable (h : Agrees m) (ranges)
include h ranges

theorem write (p offset : Nat) (byte : UInt8) : Agrees (m.step ranges (.write p offset byte)) := by
  rw [Machine.step]
  split_ifs with hp
  · exact h.poke fun hnone => by simp [hnone] at hp
  · exact h

theorem newObject (content : Page) : Agrees (m.step ranges (.newObject content)) := by
  rw [Machine.step]
  obtain ⟨halloc, -⟩ | ⟨p, hfree, hlt, halloc⟩ := h.sound.allocPage_cases
  · rw [halloc]
    exact h
  · rw [halloc, Machine.hold]
    have hzero := h.sound.refs_of_free hfree
    have hno := h.sound.noTable_of_refs hzero
    have hs : SameTrees m.vm ((m.vm.take p).fill p content) := by
      refine .of_memory (fun _ => rfl) fun q hq => ?_
      have hqp : q ≠ p := by
        rintro rfl
        exact hq hno
      simp [fill, VmState.take, hqp]
    refine ⟨h.sound.hold hfree hlt content, fun k v w hw => ?_, fun k va e hin he hwrite hp => ?_,
      fun q c hc => ?_⟩
    · obtain ⟨hv, hp, e, he, hrest⟩ := h.views k v w hw
      refine ⟨hv, ?_, e, (hs.leaf k _).trans he, hrest⟩
      change update m.objects p (some content) w.page ≠ none
      by_cases hwp : w.page = p
      · simp [hwp]
      · rwa [update_of_ne hwp]
    · have he' : m.vm.leaf k va = some e := (hs.leaf k va).symm.trans he
      refine h.writers k va e hin he' hwrite ?_
      have hne : e.page ≠ p := by
        have := h.sound.refs_of_leaf hin he'
        rintro rfl
        omega
      have hp' : update m.objects p (some content) e.page ≠ none := hp
      rwa [update_of_ne hne] at hp'
    · have hc' : update m.objects p (some content) q = some c := hc
      change ((m.vm.take p).fill p content).memory q = c
      by_cases hq : q = p
      · rw [hq, update_self] at hc'
        rw [hq, ← Option.some.inj hc']
        simp [fill]
      · rw [update_of_ne hq] at hc'
        rw [← h.bytes q c hc']
        simp [fill, VmState.take, hq]

/-- A page of an object is mapped where none is expected, and can be recorded. -/
theorem share (hview : m.views k (va / pageSize) = none) (hwrap : m.vm.pageRefs p + 1 < 2 ^ 16)
    (hroom : m.vm.missing k va = m.vm.room k → m.vm.freePages < m.vm.missing k va) :
    Agrees (m.step ranges (.share k va p writable)) := by
  rw [Machine.step]
  split_ifs with hp
  swap
  · exact h
  have hpin : m.pinned p := fun hnone => by simp [hnone] at hp
  rw [Machine.share]
  cases hin : inUser va with
  | false =>
    have hfail : mapSharedPage k va p writable m.vm = some (.error (), m.vm) := by
      rw [mapSharedPage, if_pos (by simp [hin])]
      rfl
    rw [after_error hfail]
    exact h
  | true =>
    obtain ⟨t, run, ht, g⟩ | ⟨t, n, run, ht, g, -⟩ :=
      mapSharedPage_spec h.sound hin writable hpin hwrap hroom
    swap
    · rw [after_error run]
      exact h.of_grown ht g
    rw [after_ok run]
    change Agrees { m with
      vm := t
      views := update m.views k (update (m.views k) (va / pageSize)
        (some { page := p, writable })) }
    have hleaf : ∀ k' va', inUser va' = true → t.leaf k' va' =
        if k' = k ∧ va' / 4096 = va / 4096 then some ((userFlags writable).mapping p)
        else m.vm.leaf k' va' := fun k' va' hin' => g.leaf k' va' (inUser.lt hin')
    have hpos : ∀ q, m.pinned q → 0 < (m.vm.retain p).pageRefs q := fun q hq => by
      by_cases hqp : q = p
      · rw [hqp, refs_retain_self hwrap]
        omega
      · rw [refs_retain_of_ne _ _ _ hqp]
        exact h.refs hq
    have hviews : ∀ k' v, update m.views k (update (m.views k) (va / pageSize)
        (some { page := p, writable })) k' v =
          if k' = k ∧ v = va / pageSize then some { page := p, writable } else m.views k' v := by
      intro k' v
      by_cases hk : k' = k
      · subst hk
        by_cases hv : v = va / pageSize
        · simp [hv]
        · simp [hv]
      · simp [hk]
    refine ⟨ht, fun k' v w hw => ?_, fun k' va' e hin' he hwrite hp' => ?_, fun q c hc => ?_⟩
    · dsimp only at hw
      rw [hviews] at hw
      change _ ∧ _ ∧ ∃ e, t.leaf k' (v * pageSize) = some e ∧ _
      split_ifs at hw with hsame
      · obtain ⟨rfl, rfl⟩ := hsame
        obtain rfl := Option.some.inj hw
        refine ⟨page_mem_userPages hin, hpin, (userFlags writable).mapping p, ?_, rfl, rfl, rfl⟩
        rw [leaf_pageStart, hleaf k' va hin, if_pos ⟨rfl, rfl⟩]
      · obtain ⟨hv, hp', e, he, hrest⟩ := h.views k' v w hw
        refine ⟨hv, hp', e, ?_, hrest⟩
        rw [hleaf k' _ (inUser_of_mem hv), if_neg, he]
        rintro ⟨rfl, hva⟩
        refine hsame ⟨rfl, ?_⟩
        rw [pageSize] at hva ⊢
        omega
    · have he : t.leaf k' va' = some e := he
      rw [hleaf k' va' hin'] at he
      dsimp only
      rw [hviews]
      by_cases hsame : k' = k ∧ va' / pageSize = va / pageSize
      · rw [if_pos hsame]
        simp
      · rw [if_neg hsame]
        rw [if_neg (by exact hsame)] at he
        exact h.writers k' va' e hin' he hwrite hp'
    · change t.memory q = c
      have hq : m.pinned q := fun hnone => by
        rw [show m.objects q = some c from hc] at hnone
        cases hnone
      rw [g.memory q (hpos q hq) (h.noTable hq)]
      exact h.bytes q c hc

theorem store (k : κ) (va : Nat) (byte : UInt8) : Agrees (m.step ranges (.store k va byte)) := by
  rw [Machine.step, Machine.store]
  cases hstore : m.vm.store k va byte with
  | none => exact h
  | some t =>
    obtain ⟨⟨a, e⟩, hwalk, ht⟩ := Option.bind_eq_some_iff.1 hstore
    have hin := inUser_of_walk hwalk
    have he := h.sound.leaf_of_walk hwalk
    split_ifs at ht with hw
    obtain rfl := Option.some.inj ht
    cases hview : m.views k (va / pageSize) with
    | none =>
      -- a page that is writable and not expected here is none of an object
      have hpin : ¬m.pinned e.page := fun hp => h.writers k va e hin he hw hp hview
      have hno := h.sound.apart k va e hin he
      refine h.of_bytes (sameTrees_fill hno _) (h.sound.fill hno _) (fun _ => Iff.rfl) fun q c hc => ?_
      have hq : q ≠ e.page := by
        rintro rfl
        exact hpin fun hnone => by simp [hnone] at hc
      rw [← h.bytes q c hc]
      simp [VmState.poke, fill, hq]
    | some w =>
      obtain ⟨page, writable⟩ := w
      obtain ⟨e', he', hpage, hwrite, -⟩ := h.view_page hview
      obtain rfl : e = e' := Option.some.inj (he.symm.trans he')
      obtain rfl : writable = true := hwrite.symm.trans hw
      obtain rfl : e.page = page := hpage
      exact h.poke (h.views k _ _ hview).2.1

end

end Agrees

/-! ## Runs -/

/-- No space that can write to an object forks. Pages are mapped where none of an object is. The
other conditions are room for the page in the list of owned pages, unless there are too few pages
for its tables, too, and counts of references that do not overflow. -/
def Machine.Keeps (m : Machine κ) : Event κ → Prop
  | .fork _ parent => (∀ v w, m.views parent v = some w → w.writable = false) ∧
      ∀ p, m.vm.pageRefs p + m.vm.uses parent window p < 2 ^ 16
  | .fault k virtualAddress _ => m.vm.missing k virtualAddress = m.vm.room k →
      m.vm.freePages ≤ m.vm.missing k virtualAddress
  | .map k virtualAddress _ _ => m.views k (virtualAddress / pageSize) = none ∧
      (m.vm.missing k virtualAddress = m.vm.room k →
        m.vm.freePages ≤ m.vm.missing k virtualAddress)
  | .share k virtualAddress page _ => m.views k (virtualAddress / pageSize) = none ∧
      m.vm.pageRefs page + 1 < 2 ^ 16 ∧
      (m.vm.missing k virtualAddress = m.vm.room k →
        m.vm.freePages < m.vm.missing k virtualAddress)
  | _ => True

/-- No space is in use, the kernel holds no page, and page 0 is not for use. -/
structure Boots (m : Machine κ) : Prop where
  spaces : ∀ k, m.vm.spaces k = {}
  refs : ∀ p, m.vm.pageRefs p = 0
  null : m.vm.pageState 0 ≠ .free
  held : ∀ p, m.held p = 0
  objects : ∀ p, m.objects p = none
  views : ∀ k v, m.views k v = none

theorem Boots.agrees (h : Boots m) : Agrees m := by
  have hleaf : ∀ k va, m.vm.leaf k va = none := fun k va => leaf_empty (h.spaces k) va
  have htable : ∀ k π, m.vm.table k π = none := fun k π => table_empty (h.spaces k) π
  have hrecorded : ∀ p, m.vm.recorded p = 0 := fun p =>
    Finset.sum_eq_zero fun k _ => by rw [owned_empty (h.spaces k), List.count_nil]
  refine ⟨⟨⟨?_, fun k π a i _ ha => ?_, fun k va e _ he => ?_⟩, fun k π a _ ha => ?_, fun p => ?_,
    fun p hp => ?_, ⟨h.refs 0, h.null⟩, fun k p => ?_, fun k va e _ he => ?_, fun k va e _ he => ?_,
    fun k va e _ he => ?_, fun p hp => absurd (h.objects p) hp⟩, fun k v w hw => ?_,
    fun k va e _ he => ?_, fun p c hc => ?_⟩
  · intro k π k' π' a _ _ ha
    rw [← VmState.table, htable] at ha
    cases ha
  · rw [htable] at ha
    cases ha
  · rw [hleaf] at he
    cases he
  · rw [htable] at ha
    cases ha
  · rw [h.refs, hrecorded, h.held]
  · rw [h.refs] at hp
    omega
  · have hempty : m.vm.mapped k p = ∅ := by
      rw [VmState.mapped, Finset.filter_eq_empty_iff]
      intro v _
      simp [hleaf]
    rw [hempty]
    exact Nat.zero_le _
  · rw [hleaf] at he
    cases he
  · rw [hleaf] at he
    cases he
  · rw [hleaf] at he
    cases he
  · rw [h.views] at hw
    cases hw
  · rw [hleaf] at he
    cases he
  · rw [h.objects] at hc
    cases hc

/-- The pages from 1 to `n` are free, and no space is in use. -/
def VmState.blank (n : Nat) : VmState κ where
  memory := fun _ _ => 0
  pageState := fun page => if 0 < page ∧ page ≤ n then .free else .reserved

omit [Fintype κ] in
theorem boots_blank (n : Nat) : Boots ({ vm := .blank n } : Machine κ) := by
  refine ⟨fun _ => rfl, fun _ => rfl, ?_, fun _ => rfl, fun _ => rfl, fun _ _ => rfl⟩
  simp [VmState.blank]

omit [Fintype κ] in
theorem freePages_blank {n : Nat} (hn : n < maxTrackedPages) :
    n ≤ (VmState.blank n : VmState κ).freePages := by
  have hsub : Finset.Ioc 0 n ⊆ (Finset.range maxTrackedPages).filter fun page =>
      (VmState.blank n : VmState κ).pageState page = .free := by
    intro page hpage
    rw [Finset.mem_Ioc] at hpage
    exact Finset.mem_filter.2 ⟨Finset.mem_range.2 (by omega), if_pos hpage⟩
  have hcard := Finset.card_le_card hsub
  rwa [Nat.card_Ioc] at hcard

variable [DecidableEq κ] {ranges : List KernelMmioRange}

/-- The machines that the events lead to, when they meet the conditions. -/
abbrev Machine.Reached (ranges : List KernelMmioRange) : Machine κ → Prop :=
  Run (Obeys (Machine.step ranges) Machine.Keeps) Boots

theorem Agrees.step (h : Agrees m) (event : Event κ) (hkeeps : m.Keeps event) :
    Agrees (m.step ranges event) := by
  cases event with
  | create k => exact h.create ranges k
  | destroy k => exact h.destroy ranges k
  | fork child parent => exact h.fork ranges hkeeps.1 hkeeps.2
  | fault k va write => exact h.fault ranges write hkeeps
  | map k va writable content => exact h.map hkeeps.1 hkeeps.2
  | newObject content => exact h.newObject ranges content
  | share k va p writable => exact h.share ranges hkeeps.1 hkeeps.2.1 hkeeps.2.2
  | write p offset byte => exact h.write ranges p offset byte
  | store k va byte => exact h.store ranges k va byte

/-- The mappings of an object agree as long as no space with a writable page of one forks. -/
theorem agrees_of_reached (h : m.Reached ranges) : Agrees m :=
  h.invariant (fun _ hm => hm.agrees) fun m event t hm hstep => by
    obtain ⟨hkeeps, rfl⟩ := hstep
    exact hm.step event hkeeps

end RadKernel.Vm
