import RadKernel.Syscall.Model

/-!
# Worlds that calls lead to

Programs call the kernel in any order. The tables stay in order, the memory stays sound, and
`g_hidden_marker_needs_newline` is never set: the loop that looks for markers compares one byte more
than they have.
-/

namespace RadKernel.Syscall

open Kernel Fd Prog

/-! ## The tables -/

/-- The pages of an object fit into its record. -/
def FewPages (objects : Nat → ShmRecord) : Prop :=
  ∀ i, (objects i).used = true → (objects i).pageCount ≤ shmMaxPages

theorem FewPages.update {objects : Nat → ShmRecord} (h : FewPages objects) (i : Nat) {r : ShmRecord}
    (hr : r.used = true → r.pageCount ≤ shmMaxPages) : FewPages (Function.update objects i r) := by
  intro j hused
  by_cases hj : j = i
  · subst hj
    rw [Function.update_self] at hused ⊢
    exact hr hused
  · rw [Function.update_of_ne hj] at hused ⊢
    exact h j hused

/-- Records that are not in use are zeroed, objects have no more pages than fit, and pipes are
queues. -/
structure Ordered (s : KernelState) : Prop where
  cleared : Cleared s
  pages : FewPages s.shmObjects
  piped : ∃ w : Piped, w.tables = s ∧ w.Sound

variable {s t : KernelState} {pid : Nat} {fd : Int}

theorem ignoresRecords_pages : IgnoresRecords fun s => FewPages s.shmObjects where
  table _ _ h := h
  handles _ _ h := h
  pipe s k w h := by rwa [closePipeEnd_shmObjects]
  socket := closeSocket_rule (fun _ _ h => h) fun _ _ _ h => h
  opened _ _ h := h
  sockets _ _ h := h
  processes _ _ h := h
  objects _ i _ hr h := h.update i hr

theorem radPipeCreate_pages (h : FewPages s.shmObjects) (pid : Int) :
    FewPages (radPipeCreate s pid).2.shmObjects := by
  cases hk : (List.range maxPipes).find? fun i => !(s.pipes i).used with
  | none =>
    simp only [radPipeCreate, hk]
    exact h
  | some k => exact ignoresRecords_pages.toIgnores.survives.radPipeCreate hk h fun _ h => h

namespace Ordered

section
variable (h : Ordered s)
include h

theorem perform (c : Call) (hc : Traffic c) : Ordered (perform s c).2 := by
  obtain ⟨hcleared, hpages, w, rfl, hw⟩ := h
  refine ⟨perform_cleared hcleared hc, ?_, w.next (.call c), rfl, hw.call c⟩
  exact ignoresRecords_pages.perform hpages c fun pid _ => radPipeCreate_pages hpages pid

theorem setPipe {r : PipeRecord} (hr : r.used = true)
    (hpiped : ∃ w : Piped, w.tables = setPipe s i r ∧ w.Sound) : Ordered (setPipe s i r) :=
  ⟨h.cleared.setPipe fun hfree => by simp [hr] at hfree, h.pages, hpiped⟩

theorem radFdRead (pid fd : Int) (size : Nat) (answer : Int × List UInt8) :
    Ordered (radFdRead s pid fd size answer).2 := by
  obtain ⟨w, rfl, hw⟩ := h.piped
  have hpiped : ∃ v : Piped, v.tables = (Fd.radFdRead w.tables pid fd size answer).2 ∧ v.Sound :=
    ⟨_, rfl, hw.read pid fd size answer⟩
  revert hpiped
  unfold Fd.radFdRead
  split
  · exact fun _ => h
  · next r _ =>
    split_ifs
    · exact fun _ => h
    · intro hpiped
      obtain ⟨-, hsame⟩ | ⟨hused, n, -, hread⟩ := pipeRead_cases w.tables r size
      · rwa [hsame]
      · rw [hread] at hpiped ⊢
        exact h.setPipe hused hpiped
    · exact fun _ => h

theorem radFdWrite (pid fd : Int) (bytes : List UInt8) (answer : Int) :
    Ordered (radFdWrite s pid fd bytes answer).2 := by
  obtain ⟨w, rfl, hw⟩ := h.piped
  have hpiped : ∃ v : Piped, v.tables = (Fd.radFdWrite w.tables pid fd bytes answer).2 ∧ v.Sound :=
    ⟨_, rfl, hw.write pid fd bytes answer⟩
  revert hpiped
  unfold Fd.radFdWrite
  split
  · exact fun _ => h
  · next r _ =>
    split_ifs
    · exact fun _ => h
    · intro hpiped
      obtain ⟨-, hsame⟩ | ⟨hused, n, -, -, hwrite⟩ := pipeWrite_cases w.tables r bytes
      · rwa [hsame]
      · rw [hwrite] at hpiped ⊢
        exact h.setPipe hused hpiped
    · exact fun _ => h

theorem setPages (i : Nat) (pages : Nat → Nat) :
    Ordered { s with shmObjects :=
      Function.update s.shmObjects i { s.shmObjects i with pages := pages } } := by
  obtain ⟨w, rfl, hw⟩ := h.piped
  exact ⟨⟨h.cleared.fds, h.cleared.pipes, h.cleared.sockets⟩, h.pages.update i (h.pages i),
    { w with tables := _ }, rfl, hw.kept (.of_pipes rfl)⟩

end

theorem boot (console : Bool) (processes : Nat → ProcessRecord) :
    Ordered (boot console processes) := by
  refine ⟨cleared_boot console processes, ?_, _, rfl, Piped.sound_boot console processes⟩
  have hobjects : (Fd.boot console processes).shmObjects = fun _ => {} := by
    cases console <;> rfl
  simp [hobjects, FewPages]

end Ordered

/-! ## Markers -/

/-- A marker would have to end with a byte that no marker has. -/
theorem isRadMarkerOnly_eq (beyond : UInt8) (text : List UInt8) :
    isRadMarkerOnly beyond text = false := by
  rw [isRadMarkerOnly, markerOnlyFrom]
  split
  · rfl
  · split
    · next hprefix =>
      -- the line goes on to the terminator of the literal
      obtain ⟨rest, hrest⟩ := List.isPrefixOf_iff_prefix.1 hprefix
      rw [← hrest]
      simp [markerText, isNewline, markerTextChar]
    · rfl

/-! ## The memory -/

section

variable {κ : Type} [Fintype κ] {vm : Vm.VmState κ} {held : Nat → Nat}
  {P : Nat → Prop} {k : κ} {va n : Nat}

theorem load_of_valid (h : Vm.Sound held P vm) {write : Bool}
    (hvalid : vm.validateUserRange k va n write = true) (hi : i < n) :
    ∃ byte, vm.load k (va + i) = some byte := by
  obtain ⟨leaf, hleaf, -⟩ := (h.validateUserRange.1 hvalid).2 i hi
  exact ⟨_, by rw [Vm.VmState.load, hleaf]; rfl⟩

/-- A copy from a program returns, and whether it succeeds is known before. -/
theorem copyFromUser_cases (k : κ) (va n : Nat) (h : Vm.Sound held P vm) :
    (vm.validateUserRange k va n false = true ∧ ∃ bytes, bytes.length = n ∧
      (∀ i < n, vm.load k (va + i) = bytes[i]?) ∧ vm.copyFromUser k va n = some (.ok bytes)) ∨
    (vm.validateUserRange k va n false = false ∧
      vm.copyFromUser k va n = some (.error .invalidArgument)) := by
  cases hvalid : vm.validateUserRange k va n false with
  | false => exact .inr ⟨rfl, by rw [Vm.VmState.copyFromUser, hvalid, if_neg (by simp)]⟩
  | true =>
    have hloads : ∀ i < n, ∃ byte, vm.load k (va + i) = some byte := fun i hi =>
      load_of_valid h hvalid hi
    choose! f hf using hloads
    have hbytes : ∀ i < n, vm.load k (va + i) = ((List.range n).map f)[i]? := fun i hi => by
      rw [hf i hi]
      simp [hi]
    have hempty := (h.validateUserRange.1 hvalid).1
    exact .inl ⟨rfl, _, by simp, hbytes, h.copyFromUser.2 ⟨hempty, by simp, hbytes⟩⟩

theorem copyStringFromUser_returns (h : Vm.Sound held P vm) (k : κ) (va n : Nat) :
    ∃ out, vm.copyStringFromUser k va n = some out := by
  induction n generalizing va with
  | zero => exact ⟨_, rfl⟩
  | succ n ih =>
    rw [Vm.VmState.copyStringFromUser]
    split
    · next hvalid =>
      obtain ⟨ch, hload⟩ := load_of_valid h hvalid (i := 0) (by omega)
      rw [Nat.add_zero] at hload
      rw [hload, Option.bind_some]
      split
      · exact ⟨_, rfl⟩
      · obtain ⟨out, hout⟩ := ih (va + 1)
        exact ⟨_, by rw [hout, Option.map_some]⟩
    · exact ⟨_, rfl⟩

/-- Ranges stay writable when the entries of the tables stay. -/
theorem validateUserRange_congr {t : Vm.VmState κ} {Q : Nat → Prop} (h : Vm.Sound held P vm)
    (ht : Vm.Sound held Q t) (hwalk : ∀ k va, t.walkUserLeaf k va = vm.walkUserLeaf k va)
    (k : κ) (va n : Nat) (write : Bool) :
    t.validateUserRange k va n write = vm.validateUserRange k va n write := by
  have hpasses : ∀ a, t.Passes k write a ↔ vm.Passes k write a := fun a => by
    rw [Vm.VmState.Passes, Vm.VmState.Passes, hwalk]
  rw [Bool.eq_iff_iff, h.validateUserRange, ht.validateUserRange]
  simp only [hpasses]

end

/-! ## Worlds -/

variable {κ : Type} [Fintype κ] {w : World κ} {k : κ}

structure Orderly (w : World κ) : Prop where
  tables : Ordered w.tables
  memory : Vm.Sound w.machine.held w.machine.pinned w.machine.vm
  shown : w.hidden = false

namespace Orderly

theorem setVm {vm : Vm.VmState κ} (h : Orderly w)
    (hvm : Vm.Sound w.machine.held w.machine.pinned vm) : Orderly (w.setVm vm) :=
  ⟨h.tables, hvm, h.shown⟩

/-- A copy to a program changes no entry of a table, and it succeeds when the range is writable. -/
theorem copyToUser (h : Orderly w) (k : κ) (dst : Nat) (src : List UInt8) : ∃ status vm,
    copyToUser k dst src w = some (.ok status, w.setVm vm) ∧ Orderly (w.setVm vm) ∧
      (∀ k va, vm.walkUserLeaf k va = w.machine.vm.walkUserLeaf k va) ∧
      (status = .ok ↔ w.machine.vm.validateUserRange k dst src.length true = true) := by
  cases hvalid : w.machine.vm.validateUserRange k dst src.length true with
  | false =>
    refine ⟨.invalidArgument, w.machine.vm, ?_, h.setVm h.memory, fun _ _ => rfl, by simp⟩
    rw [Syscall.copyToUser, Vm.VmState.copyToUser, hvalid, if_neg (by simp)]
    rfl
  | true =>
    have hpass := h.memory.validateUserRange.1 hvalid
    obtain ⟨vm, run, -⟩ := h.memory.copyToUser_ok hpass
    have hput : w.machine.vm.putBytes k dst src = some vm := by
      rw [Vm.VmState.copyToUser, if_pos hvalid] at run
      obtain ⟨t, hput, ht⟩ := Option.map_eq_some_iff.1 run
      exact hput.trans (congrArg some (Prod.mk.inj ht).2)
    obtain ⟨hvm, hwalk⟩ := h.memory.walk_putBytes hput
    refine ⟨.ok, vm, ?_, h.setVm hvm, hwalk, by simp⟩
    rw [Syscall.copyToUser, run]
    rfl

variable {α : Type}

theorem keeps_pure (a : α) : Prog.Keeps Orderly (pure a : Sys κ α) := .pure a

theorem keeps_fail (status : Int) : Prog.Keeps Orderly (Prog.fail status : Sys κ α) :=
  fun w hw => ⟨_, w, rfl, hw⟩

theorem keeps_read : Prog.Keeps Orderly (Prog.read : Sys κ (World κ)) :=
  fun w hw => ⟨_, w, rfl, hw⟩

theorem keeps_ensure (c : Prop) [Decidable c] (status : Status) :
    Prog.Keeps Orderly (ensure c status : Sys κ Unit) :=
  .ite (fun _ => keeps_pure ()) fun _ => keeps_fail _

theorem keeps_onTables {f : KernelState → α × KernelState}
    (hf : ∀ s, Ordered s → Ordered (f s).2) : Prog.Keeps Orderly (onTables f : Sys κ α) :=
  fun _ hw => ⟨_, _, rfl, hf _ hw.tables, hw.memory, hw.shown⟩

theorem keeps_copyToUser (k : κ) (dst : Nat) (src : List UInt8) :
    Prog.Keeps Orderly (Syscall.copyToUser k dst src) := by
  intro w hw
  obtain ⟨status, vm, run, ht, -⟩ := hw.copyToUser k dst src
  exact ⟨_, _, run, ht⟩

theorem keeps_copyFromUser (k : κ) (src size : Nat) :
    Prog.Keeps Orderly (Syscall.copyFromUser k src size) := by
  intro w hw
  rw [Syscall.copyFromUser]
  obtain ⟨-, bytes, -, -, run⟩ | ⟨-, run⟩ := copyFromUser_cases k src size hw.memory
  · exact ⟨_, w, by rw [run]; rfl, hw⟩
  · exact ⟨_, w, by rw [run]; rfl, hw⟩

end Orderly

/-! ## The pages of an object -/

theorem shmFromFd_congr (h : t.fds = s.fds) : shmFromFd t pid fd = shmFromFd s pid fd := by
  rw [shmFromFd, shmFromFd, h]

/-- The tables, but for one page of an object. -/
def withPage (s : KernelState) (j i page : Nat) : KernelState :=
  let shm := s.shmObjects j
  { s with
    shmObjects := Function.update s.shmObjects j
      { shm with pages := Function.update shm.pages i page } }

variable {j i n : Nat}

section
variable (hfd : shmFromFd s pid fd = some j) (hused : (s.shmObjects j).used = true)
  (hi : i < (s.shmObjects j).pageCount) (hfit : (s.shmObjects j).pageCount ≤ shmMaxPages)
include hfd hused hi hfit

theorem radShmGetPage_of :
    radShmGetPage s pid fd i =
      if (s.shmObjects j).pages i = 0 then .error .invalidArgument
      else .ok ((s.shmObjects j).pages i) := by
  have hbad : (¬(s.shmObjects j).used = true ∨ (s.shmObjects j).pageCount ≤ i ∨ shmMaxPages ≤ i ∨
      (s.shmObjects j).pages i = 0) ↔ (s.shmObjects j).pages i = 0 := by
    refine ⟨fun h => ?_, fun h => .inr (.inr (.inr h))⟩
    rcases h with h | h | h | h
    · exact absurd hused h
    · omega
    · omega
    · exact h
  simp only [radShmGetPage, hfd, Bool.not_eq_true', ← Bool.not_eq_true, hbad]

theorem radShmSetPage_of (page : Nat) :
    radShmSetPage s pid fd i page = (.ok, withPage s j i page) := by
  simp only [radShmSetPage, hfd]
  rw [if_neg]
  · rfl
  · simp only [hused, Bool.not_true, Bool.false_eq_true, false_or]
    omega

end

omit [Fintype κ] in
theorem allocShmPage_ok {p : Nat} {vm : Vm.VmState κ}
    (halloc : Vm.allocPage w.machine.vm = some (.ok p, vm)) :
    (allocShmPage : Sys κ Nat) w = some (.ok (p * Vm.pageSize), { w with
      machine := { w.machine with
        vm := vm.fill p fun _ => 0
        held := Function.update w.machine.held p 1
        objects := Function.update w.machine.objects p (some fun _ => 0) } }) :=
  congrArg w.holdPage halloc

omit [Fintype κ] in
theorem allocShmPage_error (halloc : Vm.allocPage w.machine.vm = some (.error (), w.machine.vm)) :
    (allocShmPage : Sys κ Nat) w = some (.error Status.noMemory.code, w) :=
  congrArg w.holdPage halloc

/-- The page is a free one that the kernel holds then, unless there is none. -/
theorem Orderly.allocShmPage [DecidableEq κ] (h : Orderly w) :
    (w.machine.vm.freePages = 0 ∧
      (allocShmPage : Sys κ Nat) w = some (.error Status.noMemory.code, w)) ∨
    ∃ physical machine, (allocShmPage : Sys κ Nat) w = some (.ok physical, { w with machine }) ∧
      Orderly { w with machine } ∧ machine.vm.freePages + 1 = w.machine.vm.freePages := by
  obtain ⟨halloc, hnone⟩ | ⟨p, hfree, hlt, halloc⟩ := h.memory.allocPage_cases
  · exact .inl ⟨Vm.freePages_eq_zero hnone, allocShmPage_error halloc⟩
  · have hmemory := h.memory.hold hfree hlt fun _ => 0
    have htake := Vm.freePages_take hfree hlt
    refine .inr ⟨_, _, allocShmPage_ok halloc, ⟨h.tables, hmemory, h.shown⟩, ?_⟩
    rw [← htake]
    exact congrArg (· + 1) (Vm.freePages_congr rfl)

theorem Orderly.fillShmPage [DecidableEq κ] (h : Orderly w)
    (hfd : shmFromFd w.tables pid fd = some j) (hused : (w.tables.shmObjects j).used = true)
    (hi : i < (w.tables.shmObjects j).pageCount) :
    ((w.tables.shmObjects j).pages i ≠ 0 ∧ fillShmPage pid fd i w = some (.ok (), w)) ∨
    ((w.tables.shmObjects j).pages i = 0 ∧ ∃ page machine,
      fillShmPage pid fd i w = some (.ok (), { w with tables := withPage w.tables j i page, machine }) ∧
      Orderly { w with tables := withPage w.tables j i page, machine } ∧
      machine.vm.freePages + 1 = w.machine.vm.freePages) ∨
    ((w.tables.shmObjects j).pages i = 0 ∧ w.machine.vm.freePages = 0 ∧
      fillShmPage pid fd i w = some (.error Status.noMemory.code, w)) := by
  have hfit := h.tables.pages j hused
  have hget := radShmGetPage_of hfd hused hi hfit
  have hset := radShmSetPage_of hfd hused hi hfit
  rw [Syscall.fillShmPage]
  rw [bind_of_ok (read_apply w), hget]
  by_cases hpage : (w.tables.shmObjects j).pages i = 0
  · rw [if_pos hpage]
    dsimp only
    rw [newShmPage]
    refine .inr ?_
    obtain ⟨hzero, halloc⟩ | ⟨physical, machine, halloc, ht, hfree⟩ := h.allocShmPage
    · refine .inr ⟨hpage, hzero, ?_⟩
      rw [bind_of_error halloc]
    · have hrun : (onTables fun s => radShmSetPage s pid fd i physical : Sys κ Status)
          { w with machine } = some (.ok .ok,
            { w with tables := withPage w.tables j i physical, machine }) := by
        unfold onTables
        dsimp only
        rw [hset]
      have htables : Ordered (withPage w.tables j i physical) := h.tables.setPages j _
      refine .inl ⟨hpage, physical, machine, ?_, ⟨htables, ht.memory, h.shown⟩, hfree⟩
      rw [bind_of_ok halloc, bind_of_ok hrun, if_neg (not_not.2 rfl), pure_apply]
  · rw [if_neg hpage]
    exact .inl ⟨hpage, rfl⟩

/-- How many of the first `n` pages of an object are not set. -/
def unset (r : ShmRecord) (n : Nat) : Nat := (List.range n).countP fun i => r.pages i = 0

/-- The loop of `x86_sys_shm_open` went over the pages below `n`. -/
structure Filled (w : World κ) (j n : Nat) (t : World κ) : Prop where
  orderly : Orderly t
  fds : t.tables.fds = w.tables.fds
  used : (t.tables.shmObjects j).used = (w.tables.shmObjects j).used
  pageCount : (t.tables.shmObjects j).pageCount = (w.tables.shmObjects j).pageCount
  pages : ∀ i, n ≤ i → (t.tables.shmObjects j).pages i = (w.tables.shmObjects j).pages i
  freePages : t.machine.vm.freePages + unset (w.tables.shmObjects j) n = w.machine.vm.freePages

theorem unset_succ (r : ShmRecord) (n : Nat) :
    unset r (n + 1) = unset r n + if r.pages n = 0 then 1 else 0 := by
  simp [unset, List.range_succ, List.countP_cons]

theorem unset_mono (r : ShmRecord) {m : Nat} (h : m ≤ n) : unset r m ≤ unset r n :=
  (List.range_sublist.2 h).countP_le

theorem Filled.step [DecidableEq κ] {v : World κ} (h : Filled w j n v)
    (hfd : shmFromFd w.tables pid fd = some j) (hused : (w.tables.shmObjects j).used = true)
    (hn : n < (w.tables.shmObjects j).pageCount) :
    (∃ t, fillShmPage pid fd n v = some (.ok (), t) ∧ Filled w j (n + 1) t) ∨
      fillShmPage pid fd n v = some (.error Status.noMemory.code, v) ∧
        w.machine.vm.freePages < unset (w.tables.shmObjects j) (n + 1) := by
  have hpages := h.pages n (Nat.le_refl n)
  have hcount := unset_succ (w.tables.shmObjects j) n
  have hfree := h.freePages
  obtain ⟨hset, run⟩ | ⟨hzero, page, machine, run, ht, htake⟩ | ⟨hzero, hnone, run⟩ :=
    h.orderly.fillShmPage ((shmFromFd_congr h.fds).trans hfd) (h.used.trans hused)
      (h.pageCount ▸ hn)
  · rw [hpages] at hset
    rw [if_neg hset] at hcount
    exact .inl ⟨v, run, { h with
      pages := fun i hi => h.pages i (by omega)
      freePages := by omega }⟩
  · rw [hpages] at hzero
    rw [if_pos hzero] at hcount
    refine .inl ⟨_, run, ht, h.fds, ?_, ?_, fun i hi => ?_, ?_⟩
    · simpa [withPage] using h.used
    · simpa [withPage] using h.pageCount
    · have hne : i ≠ n := by omega
      simpa [withPage, hne] using h.pages i (by omega)
    · dsimp only
      omega
  · rw [hpages] at hzero
    rw [if_pos hzero] at hcount
    exact .inr ⟨run, by omega⟩

/-- All pages of the object are set in the end, unless more of them were not set than are free. -/
theorem Orderly.fillShmPages [DecidableEq κ] (h : Orderly w)
    (hfd : shmFromFd w.tables pid fd = some j) (hused : (w.tables.shmObjects j).used = true) :
    (∃ t, (List.range (w.tables.shmObjects j).pageCount).forM (Syscall.fillShmPage pid fd) w =
        some (.ok ⟨⟩, t) ∧ Filled w j (w.tables.shmObjects j).pageCount t) ∨
      ∃ e t, (List.range (w.tables.shmObjects j).pageCount).forM (Syscall.fillShmPage pid fd) w =
        some (.error e, t) ∧ e = Status.noMemory.code ∧ Orderly t ∧ t.tables.fds = w.tables.fds ∧
        w.machine.vm.freePages <
          unset (w.tables.shmObjects j) (w.tables.shmObjects j).pageCount := by
  have hspec := forM_spec (f := Syscall.fillShmPage pid fd)
    (l := List.range (w.tables.shmObjects j).pageCount)
    (I := fun done t => Filled w j done.length t)
    (E := fun e t => e = Status.noMemory.code ∧ Orderly t ∧ t.tables.fds = w.tables.fds ∧
      w.machine.vm.freePages < unset (w.tables.shmObjects j) (w.tables.shmObjects j).pageCount)
    ?_ ⟨h, rfl, rfl, rfl, fun _ _ => rfl, by simp [unset]⟩
  · simpa using hspec
  · intro done n rest hrange v hv
    have hnth := congrArg (·[done.length]?) hrange
    obtain ⟨rfl, hlt⟩ : n = done.length ∧ n < (w.tables.shmObjects j).pageCount := by
      grind
    obtain ⟨t, run, ht⟩ | ⟨run, hless⟩ := hv.step hfd hused (by omega)
    · exact .inl ⟨t, run, by simpa using ht⟩
    · exact .inr ⟨_, v, run, rfl, hv.orderly, hv.fds, hless.trans_le (unset_mono _ (by omega))⟩

/-! ## Calls keep worlds in order -/

namespace Orderly

theorem keeps_onlyIf (c : Prop) [Decidable c] {x : Sys κ Unit} (hx : Prog.Keeps Orderly x) :
    Prog.Keeps Orderly (onlyIf c x) :=
  .ite (fun _ => hx) fun _ => keeps_pure ()

theorem keeps_perform {α : Type} {f : KernelState → α × KernelState} (c : Call) (hc : Traffic c)
    (hf : ∀ s, (f s).2 = (perform s c).2) : Prog.Keeps Orderly (onTables f : Sys κ α) :=
  keeps_onTables fun s hs => hf s ▸ hs.perform c hc

theorem keeps_store (k : κ) (dst : Nat) (src : List UInt8) : Prog.Keeps Orderly (store k dst src) :=
  (keeps_copyToUser k dst src).bind fun _ => keeps_ensure _ _

theorem keeps_copyPipe (k : κ) (pipefd : Nat) (readFd writeFd : Int) :
    Prog.Keeps Orderly (copyPipe k pipefd readFd writeFd) :=
  (keeps_copyToUser _ _ _).bind fun _ => (keeps_ensure _ _).bind fun _ => keeps_pure _

theorem keeps_fcntlBoth (pid : Nat) (readFd writeFd : Int) (command : FcntlCommand) :
    Prog.Keeps Orderly (fcntlBoth pid readFd writeFd command : Sys κ Unit) :=
  (keeps_perform (.fcntl pid readFd command) trivial fun _ => rfl).bind fun _ =>
    (keeps_perform (.fcntl pid writeFd command) trivial fun _ => rfl).bind fun _ => keeps_pure _

theorem keeps_radPipeCreate (pid : Nat) :
    Prog.Keeps Orderly (onTables fun s => radPipeCreate s pid : Sys κ _) :=
  keeps_perform (.pipe pid) trivial fun _ => rfl

theorem keeps_sysPipe (pid : Nat) (k : κ) (pipefd : Nat) :
    Prog.Keeps Orderly (sysPipe pid k pipefd) := by
  refine (keeps_radPipeCreate pid).bind fun out => ?_
  exact .ite (fun _ => keeps_fail _) fun _ => keeps_copyPipe _ _ _ _

theorem keeps_sysPipe2 (pid : Nat) (k : κ) (pipefd flags : Nat) :
    Prog.Keeps Orderly (sysPipe2 pid k pipefd flags) := by
  refine (keeps_radPipeCreate pid).bind fun out => ?_
  refine .ite (fun _ => keeps_fail _) fun _ => ?_
  exact (keeps_onlyIf _ (keeps_fcntlBoth _ _ _ _)).bind fun _ =>
    (keeps_onlyIf _ (keeps_fcntlBoth _ _ _ _)).bind fun _ => keeps_copyPipe _ _ _ _

theorem keeps_acceptLength (k : κ) (linux : Bool) (length : Nat) :
    Prog.Keeps Orderly (acceptLength k linux length) :=
  .ite (fun _ => keeps_copyFromUser _ _ _) fun _ => keeps_pure _

theorem keeps_giveAddress (k : κ) (linux : Bool) (address length : Nat) (peer : SockAddr)
    (given : Nat) : Prog.Keeps Orderly (giveAddress k linux address length peer given) :=
  (keeps_onlyIf _ (keeps_store _ _ _)).bind fun _ => keeps_onlyIf _ (keeps_store _ _ _)

section
variable (pid)

theorem keeps_sysAccept (k : κ) (linux : Bool) (fd : Int) (address length : Nat) :
    Prog.Keeps Orderly (sysAccept pid k linux fd address length) := by
  refine keeps_read.bind fun w => ?_
  refine (keeps_ensure _ _).bind fun _ => (keeps_ensure _ _).bind fun _ => ?_
  refine (keeps_acceptLength _ _ _).bind fun given => ?_
  cases given with
  | error _ => exact keeps_fail _
  | ok given =>
    have haccept : Prog.Keeps Orderly (onTables fun s => radSocketAccept s pid fd : Sys κ _) :=
      keeps_perform (.accept pid fd) trivial fun _ => rfl
    refine haccept.bind fun out => ?_
    refine .ite (fun _ => keeps_fail _) fun _ => ?_
    exact (keeps_giveAddress _ _ _ _ _ _).bind fun _ => keeps_pure _

theorem keeps_readChunk (fd : Int) (want : Nat) (answer : ReadAnswer want) :
    Prog.Keeps Orderly (readChunk pid fd want answer : Sys κ _) :=
  fun _ hw => ⟨_, _, rfl, hw.tables.radFdRead _ _ _ _, hw.memory, hw.shown⟩

theorem keeps_readFrom (k : κ) (fd : Int) (buffer size : Nat)
    (answers : Nat → ∀ want, ReadAnswer want) (total : Nat) :
    Prog.Keeps Orderly (readFrom pid k fd buffer size answers total) := by
  induction hleft : size - total using Nat.strong_induction_on generalizing total with
  | h left ih =>
    rw [readFrom]
    refine .ite (fun hlt => ?_) fun _ => keeps_pure _
    refine (keeps_readChunk _ _ _ _).bind fun out => ?_
    refine .ite (fun _ => keeps_fail _) fun _ => .ite (fun _ => keeps_pure _) fun _ => ?_
    refine (keeps_store _ _ _).bind fun _ => .ite (fun _ => keeps_pure _) fun hfull => ?_
    exact ih _ (by omega) _ rfl

theorem keeps_sysRead (k : κ) (arg0 buffer size : Nat)
    (answers : Nat → ∀ want, ReadAnswer want) :
    Prog.Keeps Orderly (sysRead pid k arg0 buffer size answers) :=
  keeps_read.bind fun _ => (keeps_ensure _ _).bind fun _ => keeps_readFrom _ _ _ _ _ _ _

theorem keeps_deliver (fd : Int) (chunk : List UInt8)
    (answer : WriteAnswer chunk.length) : Prog.Keeps Orderly (deliver pid fd chunk answer : Sys κ _) :=
  fun _ hw => ⟨_, _, rfl, hw.tables.radFdWrite _ _ _ _, hw.memory, hw.shown⟩

end

theorem keeps_serialWrite (text : List UInt8) : Prog.Keeps Orderly (serialWrite text : Sys κ _) :=
  fun _ hw => ⟨_, _, rfl, hw.tables, hw.memory, hw.shown⟩

end Orderly

/-- No marker is hidden, so a chunk goes to the descriptor. -/
theorem Orderly.writeChunk_eq (h : Orderly w) (beyond : UInt8) (arg0 : Nat) (chunk : List UInt8)
    (answer : WriteAnswer chunk.length) :
    writeChunk beyond pid arg0 chunk answer w =
      (onlyIf (markerText <:+: chunk.takeWhile (· ≠ 0)) (serialWrite chunk) >>= fun _ =>
        deliver pid (int32 arg0) chunk answer) w := by
  rw [writeChunk, bind_of_ok (read_apply w)]
  simp only [h.shown, Bool.false_eq_true, false_and, and_false, if_false, isRadMarkerOnly_eq, onlyIf]
  rw [bind_of_ok (pure_apply _ _)]

namespace Orderly

theorem keeps_writeChunk (beyond : UInt8) (pid arg0 : Nat) (chunk : List UInt8)
    (answer : WriteAnswer chunk.length) :
    Prog.Keeps Orderly (writeChunk beyond pid arg0 chunk answer : Sys κ _) := by
  intro w hw
  rw [hw.writeChunk_eq]
  exact ((keeps_onlyIf _ (keeps_serialWrite _)).bind fun _ => keeps_deliver _ _ _ _) w hw

section
variable (beyond : UInt8) (pid : Nat) (k : κ) (arg0 buffer size : Nat)
  (answers : Nat → ∀ want, WriteAnswer want)
include beyond arg0 buffer size answers

theorem keeps_writeFrom (total : Nat) :
    Prog.Keeps Orderly (writeFrom beyond pid k arg0 buffer size answers total) := by
  induction hleft : size - total using Nat.strong_induction_on generalizing total with
  | h left ih =>
    rw [writeFrom]
    refine .ite (fun hlt => ?_) fun _ => keeps_pure _
    have hwant : 0 < chunkSize (size - total) := by
      rw [chunkSize]
      split <;> omega
    refine (keeps_copyFromUser _ _ _).bind fun out => ?_
    cases out with
    | error _ => exact keeps_fail _
    | ok chunk =>
      refine (keeps_writeChunk _ _ _ _ _).bind fun wrote => .ite (fun _ => keeps_fail _) fun _ => ?_
      refine .ite (fun _ => keeps_pure _) fun hfull => ?_
      exact ih _ (by omega) _ rfl

theorem keeps_sysWrite :
    Prog.Keeps Orderly (sysWrite beyond pid k arg0 buffer size answers) :=
  keeps_read.bind fun _ => (keeps_ensure _ _).bind fun _ => keeps_writeFrom _ _ _ _ _ _ _ _

end

theorem keeps_move (beyond : UInt8) (pid : Nat) (k : κ) (move : Move) :
    Prog.Keeps Orderly (move.run beyond pid k) := by
  cases move with
  | read arg0 buffer size answers => exact keeps_sysRead _ _ _ _ _ _
  | write arg0 buffer size answers => exact keeps_sysWrite _ _ _ _ _ _ _

end Orderly

end RadKernel.Syscall
