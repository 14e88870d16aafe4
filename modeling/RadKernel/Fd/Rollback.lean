import RadKernel.Fd.Frame

/-!
# Calls that fail for want of a descriptor

Records that are not in use are zeroed in every state. So a call that takes a free record,
fills it in and zeroes it again when no descriptor can be installed leaves the tables as they
were. `rad_pipe_create`, `rad_socket_create` and `rad_shm_open` do so, the other calls do not.
-/

namespace RadKernel.Fd

open Kernel Function

variable {s t : KernelState} {fds : Nat → FdRecord} {i j o p fd : Nat}

/-- Records that are not in use are zeroed. -/
structure Cleared (s : KernelState) : Prop where
  fds : ∀ i, (s.fds i).used = false → s.fds i = {}
  pipes : ∀ i, (s.pipes i).used = false → s.pipes i = {}
  sockets : ∀ i, (s.sockets i).used = false → s.sockets i = {}

/-! ## Cleared records stay cleared -/

theorem dropPipeRef_used (pipe : PipeRecord) (w : Bool) :
    (dropPipeRef pipe w).used = pipe.used := by
  unfold dropPipeRef
  cases w <;> (dsimp only; split <;> rfl)

namespace Cleared

section
variable (h : Cleared s)
include h

theorem setFd {r : FdRecord} (hr : r.used = false → r = {}) : Cleared (setFd s i r) := by
  refine ⟨fun j hj => ?_, h.pipes, h.sockets⟩
  by_cases hji : j = i
  · subst hji
    simpa using hr (by simpa using hj)
  · simpa [hji] using h.fds j (by simpa [hji] using hj)

theorem setPipe {r : PipeRecord} (hr : r.used = false → r = {}) : Cleared (setPipe s i r) := by
  refine ⟨h.fds, fun j hj => ?_, h.sockets⟩
  by_cases hji : j = i
  · subst hji
    simpa [Fd.setPipe] using hr (by simpa [Fd.setPipe] using hj)
  · simpa [Fd.setPipe, hji] using h.pipes j (by simpa [Fd.setPipe, hji] using hj)

theorem setSocket {r : SocketRecord} (hr : r.used = false → r = {}) :
    Cleared (setSocket s i r) := by
  refine ⟨h.fds, h.pipes, fun j hj => ?_⟩
  by_cases hji : j = i
  · subst hji
    simpa [Fd.setSocket] using hr (by simpa [Fd.setSocket] using hj)
  · simpa [Fd.setSocket, hji] using h.sockets j (by simpa [Fd.setSocket, hji] using hj)

theorem closePipeEnd (w : Bool) : Cleared (closePipeEnd s i w) := by
  unfold Fd.closePipeEnd
  split
  · refine h.setPipe ?_
    intro hu
    split at hu
    · rename_i hboth
      exact if_pos hboth
    · -- an unused pipe counts no reference, so it is zeroed once more
      rename_i hboth
      rw [dropPipeRef_used] at hu
      rw [h.pipes i hu] at hboth
      cases w <;> simp [dropPipeRef] at hboth
  · exact h

theorem closeObject (x : FdObject) : Cleared (closeObject s x) :=
  closeObject_rule (fun _ _ h => ⟨h.fds, h.pipes, h.sockets⟩) (fun _ _ w h => h.closePipeEnd w)
    (closeSocket_rule (fun _ _ h => h.setSocket fun _ => rfl)
      fun _ _ hused h => h.setSocket fun hu => by simp [hused] at hu) x h

theorem closeFdRecord : Cleared (closeFdRecord s fd) := by
  unfold Fd.closeFdRecord
  dsimp only
  split
  · exact h
  · rename_i hu
    split
    · refine h.setFd fun hfree => absurd (show (s.fds fd).used = false from hfree) ?_
      simpa using hu
    · exact (h.closeObject _).setFd fun _ => rfl

theorem promote (hp : (s.fds p).used = true) : Cleared { s with fds := promote s.fds fd p } := by
  refine ⟨fun j hj => ?_, h.pipes, h.sockets⟩
  simp only [Fd.promote] at hj ⊢
  by_cases hjfd : j = fd
  · simp [hjfd]
  · simp only [hjfd, if_false] at hj ⊢
    by_cases hjp : j = p
    · simp [hjp, hp] at hj
    · simp only [hjp, if_false] at hj ⊢
      split at hj
      · rename_i hmem
        simp [hmem.2.1] at hj
      · rename_i hmem
        rw [if_neg hmem]
        exact h.fds j hj

theorem closeFdIndex : Cleared (closeFdIndex s fd) := by
  unfold Fd.closeFdIndex
  split
  · exact h
  · split
    · rename_i q _
      refine Cleared.setFd ?_ fun _ => rfl
      split
      · rename_i hq
        exact h.setFd fun hu => by simp [hq.1] at hu
      · exact h
    · split
      · split
        · rename_i p hp
          have hused := List.find?_some hp
          simp only [ne_eq, Bool.decide_and, Bool.and_eq_true, decide_eq_true_eq] at hused
          exact h.promote hused.2.1
        · exact h.closeFdRecord
      · exact h.closeFdRecord

end

theorem survives : SurvivesRecords Cleared where
  close _ _ h := h.closeFdIndex
  put _ _ _ hr h := h.setFd fun hu => by simp [hr] at hu
  opened _ _ h := ⟨h.fds, h.pipes, h.sockets⟩
  socket _ _ _ hr h := h.setSocket hr
  processes _ _ h := ⟨h.fds, h.pipes, h.sockets⟩
  objects _ _ _ _ h := ⟨h.fds, h.pipes, h.sockets⟩

theorem radPipeCreate (h : Cleared s) (pid : Nat) : Cleared (radPipeCreate s pid).2 := by
  cases hk : (List.range maxPipes).find? fun i => !(s.pipes i).used with
  | none =>
    simp only [Fd.radPipeCreate, hk]
    exact h
  | some k =>
    exact survives.radPipeCreate hk (h.setPipe (by simp)) fun _ h => h.setPipe fun _ => rfl

end Cleared

/-- The records of sockets that other calls leave unused are zeroed. -/
def Traffic : Call → Prop
  | .sockets table => ∀ i, (table i).used = false → table i = {}
  | _ => True

variable {c : Call} {source : FdRecord} {requested n childPid caller : Int} {r : Int × KernelState}
  {pid k : Nat}

theorem perform_cleared (h : Cleared s) (hc : Traffic c) : Cleared (perform s c).2 :=
  Cleared.survives.perform h c (fun pid hpipe => by subst hpipe; exact h.radPipeCreate pid)
    fun table htable => by subst htable; exact ⟨h.fds, h.pipes, hc⟩

theorem Cleared.openStdioFd (h : Cleared s) (n : Int) : Cleared (openStdioFd s n) :=
  Cleared.survives.install (Cleared.survives.opened s (s.opened + 1) h) _ _ _

theorem cleared_boot (console : Bool) (processes : Nat → ProcessRecord) :
    Cleared (boot console processes) := by
  have hempty : Cleared { processes := processes } := ⟨by simp, by simp, by simp⟩
  unfold boot
  split
  · exact ((hempty.openStdioFd 0).openStdioFd 1).openStdioFd 2
  · exact hempty

/-! ## What a failed call leaves behind -/

/-- Two states with the same descriptors, reference counts, pipes, sockets and handles. -/
structure SameDescriptors (s t : KernelState) : Prop where
  fds : t.fds = s.fds
  pipes : t.pipes = s.pipes
  sockets : t.sockets = s.sockets
  opened : t.opened = s.opened
  closed : t.closed = s.closed

theorem SameDescriptors.refl (s : KernelState) : SameDescriptors s s := ⟨rfl, rfl, rfl, rfl, rfl⟩

/-- Without a number asked for, a record is installed under a free number or nothing happens. -/
theorem Installed.of_neg (h : Installed s source requested r) (hreq : requested < 0) :
    r = (Status.noMemory.code, s) ∨ ∃ (n : Int) (slot : Nat), 0 ≤ n ∧
      findFdSlot s.fds n source.ownerPid false = none ∧ freeSlot s.fds = some slot ∧
      r = (n, setFd s slot (placed source n slot)) := by
  have hsearch : findFdSlot s.fds requested source.ownerPid false = none := by
    simp [findFdSlot, hreq]
  cases h with
  | new n slot hnone hn _ hslot => exact .inr ⟨n, slot, hn, hnone, hslot, rfl⟩
  | replaced e slot he _ => simp [hsearch] at he
  | full _ => exact .inl rfl
  | stuck e he _ => simp [hsearch] at he

/-- A descriptor just installed is the one its number leads to. -/
theorem findFdSlot_placed (source : FdRecord) (hn : 0 ≤ n)
    (hnone : findFdSlot s.fds n source.ownerPid false = none) (hslot : freeSlot s.fds = some i) :
    findFdSlot (setFd s i (placed source n i)).fds n source.ownerPid true = some i := by
  obtain ⟨hlt, -⟩ := freeSlot_some hslot
  have hnames : Names ((setFd s i (placed source n i)).fds i) n source.ownerPid := by
    simp [Names, placed]
  cases hfind : findFdSlot (setFd s i (placed source n i)).fds n source.ownerPid true with
  | none => exact absurd hnames (findFdSlot_none hfind hn hlt)
  | some k =>
    obtain ⟨-, hk, hown | ⟨-, -, hall⟩⟩ := findFdSlot_some hfind
    · by_contra hne
      have hki : k ≠ i := fun e => hne (by rw [e])
      simp only [setFd_fds, update_of_ne hki] at hown
      exact findFdSlot_none hnone hn hk hown
    · exact absurd hnames (hall i hlt)

theorem setPipe_closePipeEnd (s : KernelState) (k : Nat) (pipe : PipeRecord) (w : Bool) :
    setPipe (closePipeEnd (setPipe s k pipe) k w) k {} = setPipe s k {} := by
  unfold closePipeEnd
  split <;> simp [setPipe]

variable {flags : Nat}

/-- The end of a pipe that was just installed in a zeroed slot is closed again. -/
theorem radFdClose_placed {w : Bool} (hn : 0 ≤ n)
    (hcleared : ∀ i, (s.fds i).used = false → s.fds i = {})
    (hnone : findFdSlot s.fds n pid false = none) (hslot : freeSlot s.fds = some i) :
    (radFdClose (setFd s i (placed (newRecord { kind := .pipe, pipeIndex := k, pipeWriteEnd := w }
      flags pid) n i)) pid n).2 = closePipeEnd s k w := by
  obtain ⟨hlt, hfree⟩ := freeSlot_some hslot
  have hfind : findFdSlot (setFd s i (placed (newRecord
      { kind := .pipe, pipeIndex := k, pipeWriteEnd := w } flags pid) n i)).fds n pid true = some i :=
    findFdSlot_placed (newRecord _ flags pid) hn hnone hslot
  unfold radFdClose
  rw [hfind]
  dsimp only
  unfold closeFdIndex
  rw [if_neg (by simp [placed]; omega), if_neg (by simp [placed, newRecord])]
  unfold closeFdRecord
  have hobject : closeObject (setFd s i (placed (newRecord
      { kind := .pipe, pipeIndex := k, pipeWriteEnd := w } flags pid) n i))
      { kind := .pipe, pipeIndex := k, pipeWriteEnd := w } = setFd (closePipeEnd s k w) i
      (placed (newRecord { kind := .pipe, pipeIndex := k, pipeWriteEnd := w } flags pid) n i) := by
    simp only [closeObject, closeHandle, if_true, reduceCtorEq, if_false]
    unfold closePipeEnd
    split <;> rfl
  have hrestore : update s.fds i {} = s.fds := by
    rw [← hcleared i hfree, update_eq_self]
  simp only [setFd_fds, update_self]
  show setFd (closeObject _ { kind := .pipe, pipeIndex := k, pipeWriteEnd := w }) i {} = _
  rw [hobject]
  unfold closePipeEnd
  split <;> simp [setFd, setPipe, hrestore]

theorem noMemory_neg : Status.noMemory.code < 0 := by decide

theorem radPipeCreate_failed (h : Cleared s) (hfail : (radPipeCreate s pid).1.1 < 0) :
    (radPipeCreate s pid).2 = s := by
  unfold radPipeCreate at hfail ⊢
  split
  · rfl
  · rename_i k hk
    rw [hk] at hfail
    have hfree : (s.pipes k).used = false := by simpa using List.find?_some hk
    have hrestore : setPipe s k {} = s := by
      unfold setPipe
      rw [← h.pipes k hfree, update_eq_self]
    dsimp only at hfail ⊢
    generalize hs1 : setPipe s k { used := true, readRefs := 1, writeRefs := 1 } = s1 at hfail ⊢
    have hs1fds : s1.fds = s.fds := by
      rw [← hs1]
      rfl
    have hread := (installFdRecord_installed s1 pid (-1)
      (newRecord { kind := .pipe, pipeIndex := k, pipeWriteEnd := false } vfsRead pid)
      (by simp [newRecord])).of_neg (by decide)
    change installPipeEnd s1 pid k false = _ ∨ ∃ n slot, _ ∧ _ ∧ _ ∧
      installPipeEnd s1 pid k false = _ at hread
    obtain hread | ⟨n, slot, hn, hnone, hslot, hread⟩ := hread
    · rw [hread]
      rw [if_pos noMemory_neg, ← hs1]
      simpa [setPipe] using hrestore
    · rw [hread] at hfail ⊢
      rw [if_neg (by omega)] at hfail ⊢
      generalize hs2 : setFd s1 slot _ = s2 at hfail ⊢
      have hwrite := (installFdRecord_installed s2 pid (-1)
      (newRecord { kind := .pipe, pipeIndex := k, pipeWriteEnd := true } vfsWrite pid)
        (by simp [newRecord])).of_neg (by decide)
      change installPipeEnd s2 pid k true = _ ∨ ∃ n slot, _ ∧ _ ∧ _ ∧
        installPipeEnd s2 pid k true = _ at hwrite
      obtain hwrite | ⟨m, slot', hm, -, -, hwrite⟩ := hwrite
      · rw [hwrite, if_pos noMemory_neg, ← hs2,
          radFdClose_placed hn (hs1fds ▸ h.fds) hnone hslot, ← hs1, setPipe_closePipeEnd, hrestore]
      · rw [hwrite] at hfail
        rw [if_neg (by omega)] at hfail
        exact absurd (show Status.ok.code < 0 from hfail) (by decide)

theorem radSocketCreate_failed {domain type protocol : Int} (h : Cleared s)
    (hfail : (radSocketCreate s pid domain type protocol).1 < 0) :
    (radSocketCreate s pid domain type protocol).2 = s := by
  unfold radSocketCreate at hfail ⊢
  split
  · rfl
  · rename_i hdomain
    rw [if_neg hdomain] at hfail
    split
    · rfl
    · rename_i protocol' hprotocol
      rw [hprotocol] at hfail
      split
      · rfl
      · rename_i k hk
        rw [hk] at hfail
        dsimp only at hfail ⊢
        have hfree : (s.sockets k).used = false := by simpa using List.find?_some hk
        have hrestore : update s.sockets k {} = s.sockets := by
          rw [← h.sockets k hfree, update_eq_self]
        generalize hsource : newRecord { kind := .socket, socketIndex := k } _ _ = source at hfail ⊢
        have hpid : 0 ≤ source.ownerPid := by simp [← hsource, newRecord]
        generalize hrecord : setSocket s k _ = s1 at hfail ⊢
        obtain hinst | ⟨n, slot, hn, -, -, hinst⟩ := (installFdRecord_installed s1
          pid (-1) source hpid).of_neg (by decide)
        · rw [hinst, if_pos noMemory_neg, ← hrecord]
          simp [setSocket, hrestore]
        · rw [hinst] at hfail
          rw [if_neg (by omega)] at hfail
          exact absurd (show n < 0 from hfail) (by omega)

theorem installShmFd_failed (hfail : (installShmFd s pid k flags).1 < 0) :
    (installShmFd s pid k flags).2 = s := by
  unfold installShmFd at hfail ⊢
  split
  · rfl
  · rename_i hk
    rw [if_neg hk] at hfail
    obtain hinst | ⟨n, slot, hn, -, -, hinst⟩ := (installFdRecord_installed s pid (-1)
      (newRecord { kind := .shm, shmIndex := k } flags pid) (by simp [newRecord])).of_neg (by decide)
    · rw [hinst]
    · rw [hinst] at hfail
      exact absurd (show n < 0 from hfail) (by omega)

theorem radShmOpen_failed {byteSize : Nat} {name : List Char}
    (hfail : (radShmOpen s pid name byteSize flags).1 < 0) :
    SameDescriptors s (radShmOpen s pid name byteSize flags).2 := by
  unfold radShmOpen at hfail ⊢
  dsimp only at hfail ⊢
  split
  · exact .refl s
  · rename_i hargs
    rw [if_neg hargs] at hfail
    split
    · rename_i k hk
      rw [hk] at hfail
      rw [installShmFd_failed hfail]
      exact .refl s
    · rename_i hname
      rw [hname] at hfail
      split
      · exact .refl s
      · rename_i k hk
        rw [hk] at hfail
        rw [installShmFd_failed hfail]
        exact ⟨rfl, rfl, rfl, rfl, rfl⟩

/-- A reference counted for nothing shows. -/
theorem countRef_ne (s : KernelState) (o : Nat) : (countRef s o).fds ≠ s.fds := by
  intro h
  have hrefs := congrArg (fun fds => (fds o).refs) h
  simp only [countRef, setFd_fds, update_self] at hrefs
  omega

/-- A closed slot is free or has lost its name, whatever the table looks like. -/
theorem closeFdIndex_closed (s : KernelState) (hlt : fd < maxPosixFds)
    (hu : (s.fds fd).used = true) :
    ((closeFdIndex s fd).fds fd).used = false ∨ ((closeFdIndex s fd).fds fd).localFd = -1 := by
  have hrecord : ((closeFdRecord s fd).fds fd).used = false ∨
      ((closeFdRecord s fd).fds fd).localFd = -1 := by
    unfold closeFdRecord
    rw [if_neg (by simp [hu])]
    split
    · right
      simp
    · left
      simp
  unfold closeFdIndex
  rw [if_neg (by simp [hu]; omega)]
  split
  · left
    simp
  · split
    · split
      · left
        simp [promote]
      · exact hrecord
    · exact hrecord

/-- Closing a slot does not free another. -/
theorem closeFdIndex_used_of_ne (s : KernelState) (hj : j ≠ fd) :
    ((closeFdIndex s fd).fds j).used = (s.fds j).used := by
  have hrecord : ((closeFdRecord s fd).fds j).used = (s.fds j).used := by
    unfold closeFdRecord
    dsimp only
    split
    · rfl
    · split <;> simp [hj]
  unfold closeFdIndex
  split
  · rfl
  · split
    · rename_i q _
      simp only [setFd_fds, update_of_ne hj]
      split
      · by_cases hjq : j = q
        · subst hjq
          simp
        · simp [hjq]
      · rfl
    · split
      · split
        · rename_i p _
          simp only [promote, hj, if_false]
          split
          · rfl
          · split <;> rfl
        · exact hrecord
      · exact hrecord

/-! ## Counting slots -/

def usedSlots (fds : Nat → FdRecord) : Finset Nat :=
  (Finset.range maxPosixFds).filter fun i => (fds i).used = true

theorem mem_usedSlots : i ∈ usedSlots fds ↔ i < maxPosixFds ∧ (fds i).used = true := by
  simp [usedSlots]

theorem usedSlots_of_kept {fds' : Nat → FdRecord} (h : ∀ i, Kept (fds i) (fds' i)) :
    usedSlots fds' = usedSlots fds := by
  ext i
  rw [mem_usedSlots, mem_usedSlots, (h i).used]

theorem card_usedSlots_setFd {r : FdRecord} (hslot : freeSlot s.fds = some i)
    (hr : r.used = true) : (usedSlots (setFd s i r).fds).card = (usedSlots s.fds).card + 1 := by
  obtain ⟨hlt, hfree⟩ := freeSlot_some hslot
  have hnot : i ∉ usedSlots s.fds := by simp [mem_usedSlots, hfree]
  rw [← Finset.card_insert_of_notMem hnot]
  congr 1
  ext j
  by_cases hj : j = i
  · subst hj
    simp [mem_usedSlots, hr, hlt]
  · simp [mem_usedSlots, hj]

/-- A slot is freed at most. -/
theorem card_usedSlots_close (s : KernelState) (fd : Nat) :
    (usedSlots s.fds).card ≤ (usedSlots (closeFdIndex s fd).fds).card + 1 := by
  have hsub : usedSlots s.fds ⊆ insert fd (usedSlots (closeFdIndex s fd).fds) := by
    intro j hj
    by_cases hne : j = fd
    · simp [hne]
    · rw [mem_usedSlots] at hj
      refine Finset.mem_insert_of_mem (mem_usedSlots.2 ⟨hj.1, ?_⟩)
      rw [closeFdIndex_used_of_ne s hne, hj.2]
  exact (Finset.card_le_card hsub).trans (Finset.card_insert_le _ _)

theorem card_usedSlots_full (h : freeSlot fds = none) : (usedSlots fds).card = maxPosixFds := by
  have hall : usedSlots fds = Finset.range maxPosixFds := by
    ext i
    rw [mem_usedSlots, Finset.mem_range]
    exact ⟨fun hi => hi.1, fun hi => ⟨hi, freeSlot_none h hi⟩⟩
  rw [hall, Finset.card_range]

theorem card_usedSlots_le (fds : Nat → FdRecord) : (usedSlots fds).card ≤ maxPosixFds := by
  have := Finset.card_filter_le (Finset.range maxPosixFds) fun i => (fds i).used = true
  rwa [Finset.card_range] at this

theorem Installed.card_usedSlots
    (h : Installed s source requested r) : (usedSlots s.fds).card ≤ (usedSlots r.2.fds).card := by
  cases h with
  | new n slot _ _ _ hslot =>
    rw [card_usedSlots_setFd hslot rfl]
    omega
  | replaced e slot _ hslot =>
    rw [card_usedSlots_setFd hslot rfl]
    exact card_usedSlots_close s e
  | full _ => exact le_rfl
  | stuck e _ hslot =>
    rw [card_usedSlots_full hslot]
    exact card_usedSlots_le s.fds

theorem copyFd_card_usedSlots (caller : Int) (hpid : 0 ≤ childPid) (s : KernelState) (n o : Nat) :
    (usedSlots s.fds).card ≤ (usedSlots (copyFd s caller childPid n o).2.fds).card := by
  rw [← usedSlots_of_kept (countRef_kept s o)]
  exact (installFdRecord_installed _ _ _ { s.fds n with
    ownerPid := childPid, ownerFd := o, refs := 1 } hpid).card_usedSlots

theorem cloneFdsFrom_card_usedSlots (parentPid caller : Int) (hpid : 0 ≤ childPid)
    (fuel n : Nat) (s : KernelState) : (usedSlots s.fds).card ≤
      (usedSlots (cloneFdsFrom parentPid childPid caller fuel n s).2.fds).card := by
  induction fuel generalizing n s with
  | zero => exact le_rfl
  | succ fuel ih =>
    rw [cloneFdsFrom]
    split
    · exact ih (n + 1) s
    · split
      · exact ih (n + 1) s
      · rename_i o _
        have hcopy := copyFd_card_usedSlots caller hpid s n o
        dsimp only
        split
        · exact hcopy
        · exact hcopy.trans (ih (n + 1) _)

/-- Copying to a child without descriptors changes the table as soon as anything is copied:
the first copy takes a slot or leaves a counted reference. -/
theorem cloneFdsFrom_changed {parentPid : Int} (hpid : 0 ≤ childPid)
    (hchild : ∀ i, (s.fds i).used = true → (s.fds i).ownerPid ≠ childPid) (fuel n : Nat)
    (hfail : (cloneFdsFrom parentPid childPid caller fuel n s).1 < 0) :
    (cloneFdsFrom parentPid childPid caller fuel n s).2.fds ≠ s.fds := by
  induction fuel generalizing n with
  | zero => exact absurd (show Status.ok.code < 0 from hfail) (by decide)
  | succ fuel ih =>
    rw [cloneFdsFrom] at hfail ⊢
    by_cases hskip : (!(s.fds n).used) = true ∨ (s.fds n).ownerPid ≠ parentPid
    · rw [if_pos hskip] at hfail ⊢
      exact ih (n + 1) hfail
    · rw [if_neg hskip] at hfail ⊢
      cases howner : fdOwnerIndex s.fds n with
      | none =>
        simp only [howner] at hfail ⊢
        exact ih (n + 1) hfail
      | some o =>
        simp only [howner] at hfail ⊢
        have hsearch : findFdSlot (countRef s o).fds (s.fds n).localFd childPid false = none := by
          rw [← findFdSlot_of_kept (countRef_kept s o)]
          cases hfind : findFdSlot s.fds (s.fds n).localFd childPid false with
          | none => rfl
          | some k =>
            obtain ⟨-, -, hnames⟩ := findFdSlot_own hfind
            exact absurd hnames.2.2 (hchild k hnames.1)
        have hinst : Installed (countRef s o) { s.fds n with
            ownerPid := childPid, ownerFd := o, refs := 1 } (s.fds n).localFd
            (copyFd s caller childPid n o) := installFdRecord_installed _ _ _ _ hpid
        generalize copyFd s caller childPid n o = r at hinst hfail ⊢
        cases hinst with
        | new m slot _ hm _ hslot =>
          rw [if_neg (by omega)]
          intro heq
          have hcount := cloneFdsFrom_card_usedSlots parentPid caller
            hpid fuel (n + 1) (setFd (countRef s o) slot (placed { s.fds n with
              ownerPid := childPid, ownerFd := o, refs := 1 } m slot))
          rw [heq, card_usedSlots_setFd hslot rfl, usedSlots_of_kept (countRef_kept s o)] at hcount
          omega
        | replaced e slot he _ => simp [hsearch] at he
        | full _ =>
          exact countRef_ne s o
        | stuck e he _ => simp [hsearch] at he

/-! ## The calls that make descriptors -/

/-- The call got as far as installing a descriptor and failed there: what it works on was
found or made, and the result is negative. -/
def Full (s : KernelState) : Call → Prop
  | .open pid path flags backend => backend = .ok ∧ (perform s (.open pid path flags backend)).1 < 0
  | .dup pid fd => resolve s.fds fd pid ≠ none ∧ (perform s (.dup pid fd)).1 < 0
  | .dup2 pid oldFd newFd => 0 ≤ newFd ∧ oldFd ≠ newFd ∧ resolve s.fds oldFd pid ≠ none ∧
      (perform s (.dup2 pid oldFd newFd)).1 < 0
  | .pipe pid => (∃ i < maxPipes, (s.pipes i).used = false) ∧ (perform s (.pipe pid)).1 < 0
  | .socket pid domain type protocol => domain = afInet ∧ socketProtocol type protocol ≠ none ∧
      (∃ i < maxUdpSockets, (s.sockets i).used = false) ∧
      (perform s (.socket pid domain type protocol)).1 < 0
  | .accept pid fd => (∃ l, socketFromFd s pid fd = some l ∧ (s.sockets l).type = sockStream ∧
      (s.sockets l).tcpState = .listen ∧ 0 < (s.sockets l).pendingCount ∧
      (s.sockets l).pendingAccepts 0 < maxUdpSockets ∧
      (s.sockets ((s.sockets l).pendingAccepts 0)).used = true) ∧ (perform s (.accept pid fd)).1 < 0
  | .shmOpen pid name byteSize flags =>
      ((findShmByName s name).isSome ∨ ∃ i < maxShmObjects, (s.shmObjects i).used = false) ∧
      (perform s (.shmOpen pid name byteSize flags)).1 < 0
  | .clone caller parentPid childPid => 0 < parentPid ∧ 0 < childPid ∧ parentPid ≠ childPid ∧
      (perform s (.clone caller parentPid childPid)).1 < 0
  | _ => False

/-- The calls that undo what they did when no descriptor can be installed. -/
def RollsBack : Call → Prop
  | .pipe _ => True
  | .socket _ _ _ _ => True
  | .shmOpen _ _ _ _ => True
  | _ => False

/-- Descriptors are cloned for a process that has none. -/
def NewChild (s : KernelState) : Call → Prop
  | .clone _ _ childPid => ∀ i, (s.fds i).used = true → (s.fds i).ownerPid ≠ childPid
  | _ => True

theorem perform_same (h : Cleared s) (hc : RollsBack c) (hfail : (perform s c).1 < 0) :
    SameDescriptors s (perform s c).2 := by
  cases c with
  | pipe pid =>
    rw [show (perform s (.pipe pid)).2 = s from radPipeCreate_failed h hfail]
    exact .refl s
  | socket pid domain type protocol =>
    rw [show (perform s (.socket pid domain type protocol)).2 = s from
      radSocketCreate_failed h hfail]
    exact .refl s
  | shmOpen pid name byteSize flags => exact radShmOpen_failed hfail
  | _ => exact hc.elim

theorem radFdOpen_changed {path : List Char} (hfail : (radFdOpen s pid path flags .ok).1 < 0) :
    (radFdOpen s pid path flags .ok).2.opened ≠ s.opened := by
  unfold radFdOpen at hfail ⊢
  dsimp only at hfail ⊢
  generalize hsource : newRecord _ flags (pid : Int) = source at hfail ⊢
  have hpid : 0 ≤ source.ownerPid := by simp [← hsource, newRecord]
  obtain hinst | ⟨n, slot, hn, -, -, hinst⟩ := (installFdRecord_installed
    { s with opened := s.opened + 1 } pid (-1) _ hpid).of_neg (by decide)
  · rw [hinst]
    simp
  · rw [hinst] at hfail
    exact absurd (show n < 0 from hfail) (by omega)

/-- A duplicate that could not be installed leaves its reference counted, or the descriptor
it was to replace without its name. -/
theorem install_shared_changed (hpid : 0 ≤ source.ownerPid)
    (hfail : (installFdRecord (countRef s o) caller source requested).1 < 0) :
    (installFdRecord (countRef s o) caller source requested).2.fds ≠ s.fds := by
  have hinst := installFdRecord_installed (countRef s o) caller requested _ hpid
  generalize installFdRecord (countRef s o) caller source requested = r at hinst hfail ⊢
  cases hinst with
  | new n slot _ hn _ _ => exact absurd (show n < 0 from hfail) (by omega)
  | replaced e slot he _ =>
    obtain ⟨hn, -, -⟩ := findFdSlot_own he
    exact absurd (show requested < 0 from hfail) (by omega)
  | full _ => exact countRef_ne s o
  | stuck e he hslot =>
    obtain ⟨hn, hlt, hused, hloc, -⟩ := findFdSlot_own he
    intro heq
    have hlocal : (s.fds e).localFd = requested := by
      rw [countRef_kept s o e] at hloc
      exact hloc
    rcases closeFdIndex_closed (countRef s o) hlt hused with hfree | hlost
    · rw [freeSlot_none hslot hlt] at hfree
      simp at hfree
    · rw [heq] at hlost
      omega

theorem radSocketAccept_changed {l : Nat}
    (hl : socketFromFd s pid n = some l) (htype : (s.sockets l).type = sockStream)
    (hstate : (s.sockets l).tcpState = .listen) (hcount : 0 < (s.sockets l).pendingCount)
    (haccepted : (s.sockets l).pendingAccepts 0 < maxUdpSockets ∧
      (s.sockets ((s.sockets l).pendingAccepts 0)).used = true)
    (hfail : (radSocketAccept s pid n).1.1 < 0) : (radSocketAccept s pid n).2.sockets ≠ s.sockets := by
  unfold radSocketAccept at hfail ⊢
  rw [hl] at hfail ⊢
  dsimp only at hfail ⊢
  rw [if_neg (by simp [htype, hstate]), if_neg (by omega),
    if_neg (by simp [haccepted.2]; omega)] at hfail ⊢
  generalize hs1 : setSocket s l _ = s1 at hfail ⊢
  generalize hsource : newRecord { kind := .socket, socketIndex := _ } _ (pid : Int) = source
    at hfail ⊢
  have hpid : 0 ≤ source.ownerPid := by simp [← hsource, newRecord]
  obtain hinst | ⟨m, slot, hm, -, -, hinst⟩ := (installFdRecord_installed s1
    pid (-1) _ hpid).of_neg (by decide)
  · rw [hinst, ← hs1]
    intro heq
    have hpending := congrArg (fun sockets => (sockets l).pendingCount) heq
    simp only [setSocket, update_self] at hpending
    omega
  · rw [hinst] at hfail
    exact absurd (show m < 0 from hfail) (by omega)

theorem perform_changed (hc : ¬ RollsBack c) (hfull : Full s c) (hchild : NewChild s c) :
    ¬ SameDescriptors s (perform s c).2 := by
  intro hsame
  cases c with
  | «open» pid path flags backend =>
    obtain ⟨rfl, hfail⟩ := hfull
    exact radFdOpen_changed hfail hsame.opened
  | dup pid fd =>
    obtain ⟨hres, hfail⟩ := hfull
    obtain ⟨⟨slot, o⟩, hres⟩ := Option.ne_none_iff_exists'.1 hres
    have hfds := hsame.fds
    simp only [perform, radFdDup, hres] at hfail hfds
    exact install_shared_changed (by simp) hfail hfds
  | dup2 pid oldFd newFd =>
    obtain ⟨hneg, hne, hres, hfail⟩ := hfull
    obtain ⟨⟨slot, o⟩, hres⟩ := Option.ne_none_iff_exists'.1 hres
    have hfds := hsame.fds
    have hneg' : ¬ newFd < 0 := by omega
    simp only [perform, radFdDup2, hneg', hne, hres, if_false] at hfail hfds
    exact install_shared_changed (by simp) hfail hfds
  | accept pid fd =>
    obtain ⟨⟨l, hl, htype, hstate, hcount, haccepted⟩, hfail⟩ := hfull
    exact radSocketAccept_changed hl htype hstate hcount haccepted hfail hsame.sockets
  | clone caller parentPid childPid =>
    obtain ⟨hparent, hchildPid, hne, hfail⟩ := hfull
    have hfds := hsame.fds
    have hargs : ¬ (parentPid ≤ 0 ∨ childPid ≤ 0 ∨ parentPid = childPid) := by omega
    simp only [perform, radProcessCloneFds, hargs, if_false] at hfail hfds
    exact cloneFdsFrom_changed (by omega) hchild _ _ hfail hfds
  | pipe pid => exact hc trivial
  | socket pid domain type protocol => exact hc trivial
  | shmOpen pid name byteSize flags => exact hc trivial
  | _ => exact hfull.elim

end RadKernel.Fd
