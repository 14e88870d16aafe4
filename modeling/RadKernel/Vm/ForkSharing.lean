import RadKernel.Vm.Capacity
import RadKernel.Vm.SharedMemory

/-!
# Shared memory and forks

What a program writes to a page of an object is seen by all that have the page mapped, as long as
no program that can write to an object forks. A fork marks the page like any other that is writable,
and the first write after it goes to a copy.
-/

namespace RadKernel.Vm

open Function

section

variable {κ : Type} [Fintype κ] {m : Machine κ} {s t : VmState κ}
  {held : Nat → Nat} {P : Nat → Prop} {k : κ} {p v va i : Nat} {e : Pte} {w : View}
  {ranges : List KernelMmioRange}

/-! ## Reads and writes -/

section
variable (h : Sound held P s) (hin : inUser va = true) (he : s.leaf k va = some e)
include h hin he

theorem Sound.load : s.load k va = some (s.memory e.page (va % pageSize)) := by
  obtain ⟨a, ha, -⟩ := leaf_eq_some.1 he
  rw [VmState.load, h.walkUserLeaf hin, ha, he]
  rfl

theorem Sound.store (hw : e.write = true) (byte : UInt8) :
    s.store k va byte = some (s.poke e.page (va % pageSize) byte) := by
  obtain ⟨a, ha, -⟩ := leaf_eq_some.1 he
  rw [VmState.store, h.walkUserLeaf hin, ha, he]
  simp [hw]

end

namespace Agrees

/-- Who has a page of an object mapped reads what the kernel reads. -/
theorem load (h : Agrees m) (hw : m.views k v = some w) (hi : i < pageSize) :
    m.vm.load k (v * pageSize + i) = some (m.vm.memory w.page i) := by
  obtain ⟨hv, -, e, he, hpage, -⟩ := h.views k v w hw
  have hdiv : (v * pageSize + i) / 4096 = v * pageSize / 4096 := by
    rw [pageSize] at *
    omega
  have hmod : (v * pageSize + i) % pageSize = i := by
    rw [pageSize] at *
    omega
  have hin : inUser (v * pageSize + i) = true := by rw [inUser_page hdiv, inUser_of_mem hv]
  rw [← leaf_page m.vm k hdiv] at he
  rw [h.sound.load hin he, hmod, hpage]

variable [DecidableEq κ]

theorem store_view (h : Agrees m) (hw : m.views k v = some w) (hwrite : w.writable = true)
    (hi : i < pageSize) (byte : UInt8) :
    m.step ranges (.store k (v * pageSize + i) byte) =
      { m with vm := m.vm.poke w.page i byte, objects := m.setByte w.page i byte } := by
  obtain ⟨hv, -, e, he, hpage, hew, -⟩ := h.views k v w hw
  have hdiv : (v * pageSize + i) / 4096 = v * pageSize / 4096 := by
    rw [pageSize] at *
    omega
  have hmod : (v * pageSize + i) % pageSize = i := by
    rw [pageSize] at *
    omega
  have hquot : (v * pageSize + i) / pageSize = v := by
    rw [pageSize] at *
    omega
  have hin : inUser (v * pageSize + i) = true := by rw [inUser_page hdiv, inUser_of_mem hv]
  rw [← leaf_page m.vm k hdiv] at he
  obtain ⟨page, writable⟩ := w
  obtain rfl : writable = true := hwrite
  rw [Machine.step, Machine.store, h.sound.store hin he hew, hmod, hquot, hw, hpage]

end Agrees

variable [DecidableEq κ]

/-- Everyone who has a page of an object mapped reads what the kernel reads there, and what one of
them writes is seen by all of them and by the kernel. -/
theorem writes_seen (h : m.Reached ranges) :
    (∀ k v w, m.views k v = some w → ∀ i < pageSize,
      m.vm.load k (v * pageSize + i) = some (m.vm.memory w.page i)) ∧
    ∀ k v w, m.views k v = some w → w.writable = true → ∀ i < pageSize, ∀ byte : UInt8,
      let n := m.step ranges (.store k (v * pageSize + i) byte)
      n.vm.memory w.page = Function.update (m.vm.memory w.page) i byte ∧ n.views = m.views ∧
        ∀ k' v' w', n.views k' v' = some w' → w'.page = w.page →
          n.vm.load k' (v' * pageSize + i) = some byte := by
  have hm := agrees_of_reached h
  refine ⟨fun k v w hw i hi => hm.load hw hi, fun k v w hw hwrite i hi byte => ?_⟩
  have hn := hm.store ranges k (v * pageSize + i) byte
  have hstep : m.step ranges (.store k (v * pageSize + i) byte) = _ :=
    hm.store_view hw hwrite hi byte
  rw [hstep] at hn ⊢
  have hmemory : (m.vm.poke w.page i byte).memory w.page =
      Function.update (m.vm.memory w.page) i byte := by
    simp [VmState.poke, VmState.fill]
  refine ⟨hmemory, rfl, fun k' v' w' hw' hpage => ?_⟩
  have hload := hn.load hw' hi
  rw [hload, hpage]
  rw [hmemory, Function.update_self]

end

/-! ## A fork that comes between -/

variable {p : Nat}

def boot : Machine Bool where
  vm := .blank 100

/-- A program that maps a page of an object. -/
def sharing (page : Nat) : List (Event Bool) :=
  [.create false, .newObject fun _ => 0, .share false 0x60000000 page true]

theorem boots_boot : Boots boot := boots_blank 100

theorem freePages_boot : 100 ≤ boot.vm.freePages := freePages_blank (by decide)

/-- One page of an object is mapped, and there is memory for a fork. -/
structure Ready (page : Nat) (m : Machine Bool) : Prop where
  reached : m.Reached []
  view : m.views false 0x60000 = some { page, writable := true }
  object : m.objects page = some fun _ => 0
  child : m.vm.spaces true = {}
  root : (m.vm.spaces false).pml4 ≠ 0
  sole : ∀ va, inUser va = true → va / 4096 ≠ 0x60000 → m.vm.leaf false va = none
  counts : ∀ p, m.vm.pageRefs p + m.vm.uses false window p < 2 ^ 16
  free : kernelPaths.length + 4 ≤ m.vm.freePages

/-- A space and an object are made. -/
theorem made_boot : ∃ page t, Machine.Reached [] { boot with
      vm := t
      held := update boot.held page 1
      objects := update boot.objects page (some fun _ => 0) } ∧
    Machine.step [] (Machine.step [] boot (.create false)) (.newObject fun _ => 0) = { boot with
      vm := t
      held := update boot.held page 1
      objects := update boot.objects page (some fun _ => 0) } ∧
    (t.spaces false).pml4 ≠ 0 ∧ t.spaces true = {} ∧ t.pageRefs page = 1 ∧
    (∀ va, inUser va = true → t.leaf false va = none) ∧
    (t.owned false).length ≤ 14 ∧ 80 ≤ t.freePages := by
  have hlength : kernelPaths.length = 14 := by decide
  have hfree := freePages_boot
  have h₀ : boot.Reached [] := .start boots_boot
  obtain ⟨t, run, ht, g, hpages, hlen⟩ := createAddressSpace_ok
    (agrees_of_reached h₀).sound rfl (by omega)
  have h₁ : Machine.Reached [] (boot.step [] (.create false)) :=
    h₀.step (k := .create false) ⟨trivial, rfl⟩
  rw [Machine.step_create rfl run] at h₁
  obtain ⟨-, hnone⟩ | ⟨p, hp, hlt, halloc⟩ := ht.allocPage_cases
  · have := freePages_eq_zero hnone
    omega
  have hsame : SameTrees t ((t.take p).fill p fun _ => 0) := by
    refine .of_memory (fun _ => rfl) fun q hq => ?_
    have hqp : q ≠ p := by
      rintro rfl
      exact hq (ht.noTable_of_refs (ht.refs_of_free hp))
    simp [VmState.fill, VmState.take, hqp]
  have htake := freePages_take hp hlt
  have h₂ : Machine.Reached [] (Machine.step [] { boot with vm := t } (.newObject fun _ => 0)) :=
    h₁.step (k := .newObject fun _ => 0) ⟨trivial, rfl⟩
  have hstep : Machine.step [] { boot with vm := t } (.newObject fun _ => 0) = _ :=
    Machine.step_newObject halloc
  rw [hstep] at h₂
  refine ⟨p, (t.take p).fill p fun _ => 0, h₂, ?_, g.root, g.spaces true (by simp),
    by simp [VmState.take, VmState.fill], fun va hin => ?_, by rw [← hlength]; exact hlen, ?_⟩
  · rw [Machine.step_create rfl run, hstep]
  · rw [hsame.leaf, g.window va hin]
  · have hpages' : ((t.take p).fill p fun _ => 0).freePages = (t.take p).freePages := rfl
    omega

theorem ready_sharing : ∃ page m, (sharing page).foldl (Machine.step []) boot = m ∧
    Ready page m := by
  have hlength : kernelPaths.length = 14 := by decide
  have hmax : maxOwnedPages = 16384 := rfl
  have hin : inUser 0x60000000 = true := by decide
  obtain ⟨p, t, h, hrun, hroot, hchild, hrefs, hnone, hlen, hfree⟩ := made_boot
  generalize hm : ({ boot with
      vm := t
      held := update boot.held p 1
      objects := update boot.objects p (some fun _ => 0) } : Machine Bool) = m at h hrun
  have hvm : m.vm = t := by rw [← hm]
  have hheld : ∀ q, m.held q ≤ 1 := fun q => by
    rw [← hm]
    by_cases hq : q = p <;> simp [boot, hq]
  have hobject : m.objects p = some fun _ => 0 := by
    rw [← hm]
    simp
  have hviews : ∀ k v, m.views k v = none := fun k v => by
    rw [← hm]
    rfl
  have ha := agrees_of_reached h
  have hmissing := missing_le t false 0x60000000
  have hroom : t.room false = 16384 - (t.owned false).length := rfl
  have hpinned : m.pinned p := by
    rw [Machine.pinned, hobject]
    simp
  have hkeeps : m.Keeps (.share false 0x60000000 p true) := by
    refine ⟨hviews _ _, ?_, fun heq => ?_⟩
    · rw [hvm, hrefs]
      decide
    · rw [hvm] at heq ⊢
      omega
  have h₃ := h.step ⟨hkeeps, rfl⟩
  obtain ⟨u, run, hu, g⟩ | ⟨-, -, -, -, -, hfull⟩ :=
    mapSharedPage_spec ha.sound hin true hpinned hkeeps.2.1 hkeeps.2.2
  swap
  · rw [hvm] at hfull
    have := hfull hroot
    omega
  have hstep : m.step [] (.share false 0x60000000 p true) = _ := Machine.step_share hpinned run
  have hevents : (sharing p).foldl (Machine.step []) boot =
      m.step [] (.share false 0x60000000 p true) := by
    simp only [sharing, List.foldl_cons, List.foldl_nil, hrun]
  refine ⟨p, _, hevents, ?_⟩
  rw [hstep] at h₃ ⊢
  rw [hvm] at g
  have hleft := g.free
  have hspace := g.room
  have hpages : (t.retain p).freePages = t.freePages := rfl
  have hspace' : (t.retain p).room false = t.room false := rfl
  have howned : (u.owned false).length ≤ 18 := by
    have hroom' : u.room false = 16384 - (u.owned false).length := rfl
    omega
  have hchild' : u.spaces true = {} := by
    rw [g.beside.spaces true (by simp)]
    exact hchild
  refine ⟨h₃, ?_, hobject, hchild', ?_, fun va hin' hva => ?_, fun q => ?_, ?_⟩
  · simp [pageSize]
  · dsimp only
    rw [g.roots]
    exact hroot
  · dsimp only
    rw [g.leaf false va (inUser.lt hin'), if_neg (by simp [hva])]
    exact hnone va hin'
  · dsimp only
    have hcount := hu.counted q
    have huses := hu.uses_le false q
    have hle := List.count_le_length (a := q) (l := u.owned false)
    have hrecorded : u.recorded q = (u.owned true).count q + (u.owned false).count q := by
      rw [VmState.recorded, show (Finset.univ : Finset Bool) = {true, false} from rfl,
        Finset.sum_pair (by simp)]
    rw [owned_empty hchild', List.count_nil] at hrecorded
    have := hheld q
    omega
  · dsimp only
    omega

def forkAndWrite : List (Event Bool) :=
  [.fork true false, .fault false 0x60000000 true, .store false 0x60000000 1]

variable {m : Machine Bool}

/-- After the fork both have the page, marked. -/
theorem Ready.fork (h : Ready p m) : ∃ t e,
    m.step [] (.fork true false) =
      { m with vm := t, views := update m.views true (m.views false) } ∧
    Sound m.held m.pinned t ∧ (∀ k, t.leaf k 0x60000000 = some e) ∧ e.page = p ∧ e.cow = true ∧
    e.write = false ∧ t.memory p = (fun _ => 0) ∧ 0 < t.freePages := by
  have hin : inUser 0x60000000 = true := by decide
  have hm := agrees_of_reached h.reached
  have hv : 0x60000000 / pageSize = 0x60000 := by decide
  have hview : m.views false (0x60000000 / pageSize) = some { page := p, writable := true } := by
    rw [hv]
    exact h.view
  have haligned : 0x60000000 % pageSize = 0 := by decide
  obtain ⟨e, he, hpage, hwrite, -⟩ := hm.view_page hview
  obtain ⟨t, run, ht, g, hfree⟩ := cloneCow_ok hm.sound h.child h.root haligned h.sole h.counts h.free
  have hforked : ∀ k, t.leaf k 0x60000000 = some e.forked := fun k => by
    cases k with
    | true =>
      rw [g.window _ hin, if_pos (alignDown_mem_window hin), he]
      rfl
    | false =>
      rw [g.leaf false _ (by simp) hin, if_pos ⟨rfl, alignDown_mem_window hin⟩, he]
      rfl
  have hp : m.pinned p := by
    rw [Machine.pinned, h.object]
    simp
  have hcow : e.forked.cow = true ∧ e.forked.write = false := by
    rw [Pte.forked, if_pos hwrite]
    exact ⟨rfl, rfl⟩
  refine ⟨t, e.forked, Machine.step_fork h.child run, ht, hforked,
    by rw [e.forked_page, hpage], hcow.1, hcow.2, ?_, hfree⟩
  rw [g.memory p (hm.refs hp) (hm.noTable hp)]
  exact hm.bytes p _ h.object

theorem Ready.forked (h : Ready p m) : ∃ u e e',
    (m.step [] (.fork true false)).step [] (.fault false 0x60000000 true) =
      { m with vm := u, views := update m.views true (m.views false) } ∧
    Sound m.held m.pinned u ∧ u.leaf false 0x60000000 = some e' ∧ e'.write = true ∧
    u.leaf true 0x60000000 = some e ∧ e.page = p ∧ e'.page ≠ p ∧ u.memory p = fun _ => 0 := by
  have hin : inUser 0x60000000 = true := by decide
  obtain ⟨t, e, hfork, ht, hforked, hpage, hcow, -, hzero, hfree⟩ := h.fork
  have hheld := (agrees_of_reached h.reached).sound.pins p (by simp [Machine.pinned, h.object])
  have hpresent : (t.walkUserLeaf false 0x60000000).isSome = true := by
    obtain ⟨a, ha, -⟩ := leaf_eq_some.1 (hforked false)
    rw [ht.walkUserLeaf hin, ha, hforked]
    rfl
  obtain ⟨e₁, e', u, hbreak, hu, he₁, -, hw, -, r, -, hpages⟩ | ⟨-, hfull⟩ :=
    breakCow_spec ht hin
  swap
  · have := (hfull _ (hforked false) hcow).2
    omega
  have hsame : e₁.page = p := by
    rw [hforked] at he₁
    rw [← Option.some.inj he₁, hpage]
  have hrefs : 0 < t.pageRefs p := ht.refs_of_held hheld
  have hfresh : e'.page ≠ p := by
    rcases hpages with ⟨hone, -⟩ | ⟨-, hnew⟩
    · exfalso
      have hown := recorded_pos (ht.owned_of_leaf hin he₁)
      have := ht.counted e₁.page
      rw [hsame] at *
      omega
    · rintro rfl
      omega
  refine ⟨u, e, e', ?_, hu, ?_, hw, ?_, hpage, hfresh, ?_⟩
  · have hdown : alignDown 0x60000000 pageSize = 0x60000000 := by decide
    rw [hfork, Machine.step_fault (by rw [hdown]; exact hpresent) (by rw [hdown]; exact hbreak)]
  · rw [r.leaf false _ (inUser.lt hin), if_pos ⟨rfl, rfl⟩]
  · rw [r.leaf true _ (inUser.lt hin), if_neg (by simp), hforked]
  · rw [r.memory p hrefs (ht.noTable_of_held hheld), hzero]

theorem Ready.loses_writes (h : Ready p m) : ∃ n,
    forkAndWrite.foldl (Machine.step []) m = n ∧
      n.views false 0x60000 = some { page := p, writable := true } ∧
      n.views true 0x60000 = some { page := p, writable := true } ∧
      n.vm.load false 0x60000000 = some 1 ∧ n.vm.load true 0x60000000 = some 0 ∧
      n.vm.memory p 0 = 0 := by
  have hin : inUser 0x60000000 = true := by decide
  have hv : 0x60000000 / pageSize = 0x60000 := by decide
  have hmod : 0x60000000 % pageSize = 0 := by decide
  obtain ⟨u, e, e', hsteps, hu, hown, hw, hchild, hpage, hfresh, hzero⟩ := h.forked
  have hno := hu.apart false _ _ hin hown
  have hstore := hu.store hin hown hw 1
  rw [hmod] at hstore
  have hx := hu.fill hno (update (u.memory e'.page) 0 1)
  have hleaf := (sameTrees_fill hno (update (u.memory e'.page) 0 1)).leaf
  have hpage₀ : (u.poke e'.page 0 1).memory p 0 = 0 := by
    simp [VmState.poke, VmState.fill, hfresh.symm, hzero]
  have hviews : update m.views true (m.views false) false 0x60000 =
      some { page := p, writable := true } := by
    simp [h.view]
  refine ⟨{ m with
      vm := u.poke e'.page 0 1
      views := update m.views true (m.views false)
      objects := m.setByte p 0 1 }, ?_, hviews, ?_, ?_, ?_, hpage₀⟩
  · simp only [forkAndWrite, List.foldl_cons, List.foldl_nil]
    rw [hsteps, Machine.step_store hstore (by rw [hv]; exact hviews), hmod]
    rfl
  · simp [h.view]
  · have hread := hx.load hin ((hleaf false _).trans hown)
    rw [hmod] at hread
    refine hread.trans ?_
    simp [VmState.fill]
  · have hread := hx.load hin ((hleaf true _).trans hchild)
    rw [hmod, hpage] at hread
    exact hread.trans (congrArg some hpage₀)

/-- A program maps a page of an object, forks, and writes to the page. It reads what it wrote, but
the child and the kernel do not. -/
theorem fork_loses_writes : ∃ page m n, (sharing page).foldl (Machine.step []) boot = m ∧
    m.Reached [] ∧ m.views false 0x60000 = some { page, writable := true } ∧
    forkAndWrite.foldl (Machine.step []) m = n ∧
      n.views false 0x60000 = some { page, writable := true } ∧
      n.views true 0x60000 = some { page, writable := true } ∧
      n.vm.load false 0x60000000 = some 1 ∧ n.vm.load true 0x60000000 = some 0 ∧
      n.vm.memory page 0 = 0 := by
  obtain ⟨p, m, hm, h⟩ := ready_sharing
  obtain ⟨n, hn⟩ := h.loses_writes
  exact ⟨p, m, n, hm, h.reached, h.view, hn⟩

/-- Before the fork, reads and writes are seen. -/
theorem writes_seen_sharing : ∃ page m, (sharing page).foldl (Machine.step []) boot = m ∧
    m.views false 0x60000 = some { page, writable := true } ∧
    ∀ i < pageSize, m.vm.load false (0x60000 * pageSize + i) = some (m.vm.memory page i) := by
  obtain ⟨p, m, hm, h⟩ := ready_sharing
  exact ⟨p, m, hm, h.view, fun i hi => (writes_seen h.reached).1 false 0x60000 _ h.view i hi⟩

end RadKernel.Vm
