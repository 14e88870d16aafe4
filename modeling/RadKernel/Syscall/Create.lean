import RadKernel.Syscall.Worlds

/-!
# Calls that create descriptors

`PIPE`, `PIPE2`, `ACCEPT` and `SHM_OPEN` make or take an object, install its descriptors and copy
the result to the program afterwards. When a late step fails nothing is undone.
-/

namespace RadKernel.Syscall

open Kernel Fd Prog

variable {s t : KernelState} {fds : Nat → FdRecord} {pid : Nat} {fd : Int} {i j : Nat}

/-! ## Room for descriptors -/

theorem findFdSlot_eq_none {n p : Int} (hn : 0 ≤ n) :
    findFdSlot fds n p false = none ↔ ∀ j < maxPosixFds, ¬ Names (fds j) n p := by
  refine ⟨fun h j hj => findFdSlot_none h hn hj, fun h => ?_⟩
  cases hfind : findFdSlot fds n p false with
  | none => rfl
  | some j =>
    obtain ⟨-, hj, hnames⟩ := findFdSlot_own hfind
    exact absurd hnames (h j hj)

/-- A number that the process does not use. -/
def Unnamed (fds : Nat → FdRecord) (pid : Int) (n : Nat) : Prop :=
  3 ≤ n ∧ n < maxPosixFds ∧ findFdSlot fds n pid false = none

theorem freeNumber_ne_none {p : Int} : freeNumber fds p ≠ none ↔ ∃ n, Unnamed fds p n := by
  refine ⟨fun h => ?_, fun ⟨n, hlow, hhigh, hnone⟩ h => ?_⟩
  · obtain ⟨n, hn⟩ := Option.ne_none_iff_exists'.1 h
    exact ⟨n, freeNumber_some hn⟩
  · have hall := List.find?_eq_none.1 h n (List.mem_range'_1.2 ⟨hlow, by omega⟩)
    simp [hnone] at hall

theorem freeSlot_ne_none : freeSlot fds ≠ none ↔ ∃ i < maxPosixFds, (fds i).used = false := by
  refine ⟨fun h => ?_, fun ⟨i, hi, hfree⟩ h => ?_⟩
  · obtain ⟨i, hi⟩ := Option.ne_none_iff_exists'.1 h
    exact ⟨i, freeSlot_some hi⟩
  · simp [freeSlot_none h hi] at hfree

/-- A number and a slot for one more descriptor. -/
theorem room_neg {p : Int} : Room fds p (-1) ↔
    (∃ n, Unnamed fds p n) ∧ ∃ i < maxPosixFds, (fds i).used = false := by
  have hnone : findFdSlot fds (-1) p false = none := by simp [findFdSlot]
  simp only [Room, hnone, freeNumber_ne_none, freeSlot_ne_none, ne_eq, not_true_eq_false, or_false]
  have hlt : (-1 : Int) < maxPosixFds := by decide
  simp [hlt]

theorem installFdRecord_cases_neg (s : KernelState) (caller : Int) (source : FdRecord)
    (hpid : 0 ≤ source.ownerPid) :
    (Room s.fds source.ownerPid (-1) ∧ ∃ (n : Nat) (slot : Nat), Unnamed s.fds source.ownerPid n ∧
      freeSlot s.fds = some slot ∧
      installFdRecord s caller source (-1) = ((n : Int), setFd s slot (placed source n slot))) ∨
    (¬Room s.fds source.ownerPid (-1) ∧
      installFdRecord s caller source (-1) = (Status.noMemory.code, s)) := by
  rw [room_neg, ← freeNumber_ne_none, ← freeSlot_ne_none]
  rw [installFdRecord, if_pos hpid, if_pos (by decide)]
  cases hnumber : freeNumber s.fds source.ownerPid with
  | none => exact .inr ⟨by simp, rfl⟩
  | some n =>
    cases hslot : freeSlot s.fds with
    | none => exact .inr ⟨by simp, placeFdRecord_none hslot⟩
    | some slot =>
      exact .inl ⟨by simp, n, slot, freeNumber_some hnumber, rfl, placeFdRecord_some hslot⟩

/-- A descriptor takes its number and its slot. -/
theorem unnamed_setFd {source : FdRecord} {n m : Nat} (hfree : (s.fds i).used = false)
    (hlt : i < maxPosixFds) :
    Unnamed (setFd s i (placed source n i)).fds source.ownerPid m ↔
      Unnamed s.fds source.ownerPid m ∧ m ≠ n := by
  have hother : ∀ j, j ≠ i → (setFd s i (placed source n i)).fds j = s.fds j := fun j hj => by
    simp [hj]
  have hself : Names ((setFd s i (placed source n i)).fds i) m source.ownerPid ↔ m = n := by
    simp only [Names, placed, setFd_fds, Function.update_self, true_and, and_true]
    omega
  have hbefore : ¬ Names (s.fds i) m source.ownerPid := fun hnames => by simp [hnames.1] at hfree
  simp only [Unnamed, findFdSlot_eq_none (Int.natCast_nonneg m), and_assoc, and_congr_right_iff]
  intro _ _
  refine ⟨fun h => ⟨fun j hj => ?_, fun heq => h i hlt (hself.2 heq)⟩, fun h j hj => ?_⟩
  · by_cases hji : j = i
    · rwa [hji]
    · rw [← hother j hji]
      exact h j hj
  · by_cases hji : j = i
    · rw [hji]
      exact fun hnames => h.2 (hself.1 hnames)
    · rw [hother j hji]
      exact h.1 j hj

theorem room_setFd {source : FdRecord} {n : Nat} (hslot : freeSlot s.fds = some i) :
    Room (setFd s i (placed source n i)).fds source.ownerPid (-1) ↔
      (∃ m, Unnamed s.fds source.ownerPid m ∧ m ≠ n) ∧
        ∃ j < maxPosixFds, j ≠ i ∧ (s.fds j).used = false := by
  obtain ⟨hlt, hfree⟩ := freeSlot_some hslot
  simp only [room_neg, unnamed_setFd hfree hlt]
  refine and_congr_right fun _ => exists_congr fun j => and_congr_right fun _ => ?_
  by_cases hj : j = i
  · simp [hj, placed]
  · simp [hj]

/-! ## Pipes -/

/-- A pipe, two slots and two numbers for its ends. -/
structure PipeRoom (s : KernelState) (pid : Nat) : Prop where
  pipe : ∃ i < maxPipes, (s.pipes i).used = false
  slots : ∃ i < maxPosixFds, ∃ j < maxPosixFds, i ≠ j ∧ (s.fds i).used = false ∧
    (s.fds j).used = false
  numbers : ∃ m n, m ≠ n ∧ Unnamed s.fds pid m ∧ Unnamed s.fds pid n

theorem pipeRoom_iff (n : Nat) (source : FdRecord) (hpid : source.ownerPid = pid)
    (hn : Unnamed s.fds pid n) (hslot : freeSlot s.fds = some i)
    (hpipe : ∃ i < maxPipes, (s.pipes i).used = false) :
    PipeRoom s pid ↔ Room (setFd s i (placed source n i)).fds pid (-1) := by
  obtain ⟨hlt, hfree⟩ := freeSlot_some hslot
  rw [← hpid, room_setFd hslot, hpid]
  refine ⟨fun ⟨_, ⟨a, ha, b, hb, hab, hfa, hfb⟩, m, m', hm, hnum, hnum'⟩ => ⟨?_, ?_⟩, ?_⟩
  · by_cases hmn : m = n
    · exact ⟨m', hnum', fun heq => hm (hmn.trans heq.symm)⟩
    · exact ⟨m, hnum, hmn⟩
  · by_cases hai : a = i
    · exact ⟨b, hb, fun heq => hab (hai.trans heq.symm), hfb⟩
    · exact ⟨a, ha, hai, hfa⟩
  · rintro ⟨⟨m, hm, hne⟩, j, hj, hji, hfj⟩
    exact ⟨hpipe, ⟨i, hlt, j, hj, Ne.symm hji, hfree, hfj⟩, n, m, Ne.symm hne, hn, hm⟩

theorem radPipeCreate_cases (s : KernelState) (pid : Nat) :
    (PipeRoom s pid ∧ ∃ k readFd writeFd t,
      radPipeCreate s pid = ((Status.ok.code, readFd, writeFd), t) ∧
        (s.pipes k).used = false ∧ (t.pipes k).used = true) ∨
    (¬PipeRoom s pid ∧ (radPipeCreate s pid).1.1 < 0) := by
  unfold radPipeCreate
  cases hfind : (List.range maxPipes).find? fun i => !(s.pipes i).used with
  | none =>
    refine .inr ⟨fun hroom => ?_, noMemory_neg⟩
    obtain ⟨k, hk, hfree⟩ := hroom.pipe
    have hall := List.find?_eq_none.1 hfind k (List.mem_range.2 hk)
    simp [hfree] at hall
  | some k =>
    have hfree : (s.pipes k).used = false := by simpa using List.find?_some hfind
    have hpipe : ∃ i < maxPipes, (s.pipes i).used = false :=
      ⟨k, List.mem_range.1 (List.mem_of_find?_eq_some hfind), hfree⟩
    dsimp only
    generalize hs1 : setPipe s k { used := true, readRefs := 1, writeRefs := 1 } = s1
    have hfds : s1.fds = s.fds := by rw [← hs1]; rfl
    have hused : (s1.pipes k).used = true := by rw [← hs1]; simp [setPipe]
    obtain ⟨-, n, slot, hn, hslot, hread⟩ | ⟨hfull, hread⟩ := installFdRecord_cases_neg s1 pid
      (newRecord { kind := .pipe, pipeIndex := k, pipeWriteEnd := false } vfsRead pid)
      (by simp [newRecord])
    · rw [show installPipeEnd s1 pid k false = _ from hread]
      have hroom := pipeRoom_iff n
        (newRecord { kind := .pipe, pipeIndex := k, pipeWriteEnd := false } vfsRead pid)
        rfl (hfds ▸ hn) (hfds ▸ hslot) hpipe
      rw [setFd_fds, ← hfds, ← setFd_fds s1] at hroom
      have hpipes : ∀ r, (setFd s1 slot r).pipes = s1.pipes := fun _ => rfl
      generalize hs2 : setFd s1 slot _ = s2 at hroom ⊢
      have hused2 : (s2.pipes k).used = true := by rw [← hs2, hpipes, hused]
      obtain ⟨hroom2, m, slot2, -, -, hwrite⟩ | ⟨hfull, hwrite⟩ := installFdRecord_cases_neg s2 pid
        (newRecord { kind := .pipe, pipeIndex := k, pipeWriteEnd := true } vfsWrite pid)
        (by simp [newRecord])
      · rw [show installPipeEnd s2 pid k true = _ from hwrite]
        exact .inl ⟨hroom.2 hroom2, k, _, _, _, rfl, hfree, hused2⟩
      · rw [show installPipeEnd s2 pid k true = _ from hwrite]
        exact .inr ⟨fun h => hfull (hroom.1 h), noMemory_neg⟩
    · rw [show installPipeEnd s1 pid k false = _ from hread]
      refine .inr ⟨fun h => hfull ?_, noMemory_neg⟩
      obtain ⟨a, ha, -, -, -, hfa, -⟩ := h.slots
      obtain ⟨m, -, -, hm, -⟩ := h.numbers
      rw [hfds]
      exact room_neg.2 ⟨⟨m, hm⟩, a, ha, hfa⟩

/-! ## Calls that fail -/

/-- The caller's descriptors, the pipes, the sockets with their queues and the objects. -/
structure SameTables (s t : KernelState) : Prop where
  fds : t.fds = s.fds
  pipes : t.pipes = s.pipes
  sockets : t.sockets = s.sockets
  shmObjects : t.shmObjects = s.shmObjects

theorem SameTables.refl (s : KernelState) : SameTables s s := ⟨rfl, rfl, rfl, rfl⟩

variable {κ : Type} [Fintype κ] {w v : World κ} {k : κ}

/-- When the call returns a negative value, the tables are as before. -/
def Atomic (x : Sys κ Int) (w : World κ) : Prop :=
  ∀ r t, x w = some (r, t) → value r < 0 → SameTables w.tables t.tables

omit [Fintype κ] in
theorem atomic_of_run {x : Sys κ Int} {r : Except Int Int} (run : x w = some (r, v)) :
    Atomic x w ↔ (value r < 0 → SameTables w.tables v.tables) := by
  refine ⟨fun h => h r v run, fun h r' v' run' => ?_⟩
  obtain ⟨rfl, rfl⟩ := Prod.mk.inj (Option.some.inj (run.symm.trans run'))
  exact h

theorem invalidArgument_neg : Status.invalidArgument.code < 0 := by decide

theorem notFound_neg : Status.notFound.code < 0 := by decide

/-- The copy of the descriptors changes no table, and fails when the program cannot write there. -/
theorem Orderly.copyPipe (h : Orderly v) (k : κ) (pipefd : Nat) (readFd writeFd : Int) :
    ∃ r t, copyPipe k pipefd readFd writeFd v = some (r, t) ∧ t.tables = v.tables ∧
      (value r < 0 ↔ v.machine.vm.validateUserRange k pipefd 8 true = false) := by
  obtain ⟨status, vm, run, -, -, hstatus⟩ :=
    h.copyToUser k pipefd (int32Bytes readFd ++ int32Bytes writeFd)
  rw [show (int32Bytes readFd ++ int32Bytes writeFd).length = 8 by simp [int32Bytes]] at hstatus
  rw [Syscall.copyPipe, bind_of_ok run]
  by_cases hok : status = .ok
  · subst hok
    have hvalid := hstatus.1 rfl
    exact ⟨_, _, rfl, rfl, by simp [hvalid, value, Status.code]⟩
  · have hvalid : v.machine.vm.validateUserRange k pipefd 8 true = false := by
      simpa using fun hvalid => hok (hstatus.2 hvalid)
    refine ⟨.error status.code, v.setVm vm, ?_, rfl, ?_⟩
    · rw [ensure, if_neg hok]
      rfl
    · rw [hvalid]
      cases status <;> simp_all [value, Status.code]

theorem radFdFcntl_pipes (s : KernelState) (pid fd : Int) (command : FcntlCommand) :
    (radFdFcntl s pid fd command).2.pipes = s.pipes := by
  unfold radFdFcntl
  split
  · rfl
  · split
    · rfl
    · rfl
    · split <;> rfl
    · split <;> rfl
    · rfl

omit [Fintype κ] in
theorem onlyIf_cases (c : Prop) [Decidable c] {x : Sys κ Unit} (hx : c → x v = some (.ok (), w)) :
    ∃ t, onlyIf c x v = some (.ok (), t) ∧ (t = w ∨ t = v) := by
  rw [onlyIf]
  split
  · next hc => exact ⟨w, hx hc, .inl rfl⟩
  · exact ⟨v, rfl, .inr rfl⟩

/-- Setting flags changes neither pipes nor the memory. -/
theorem Orderly.fcntlBoth (h : Orderly v) (c : Prop) [Decidable c] (pid : Nat)
    (readFd writeFd : Int) (command : FcntlCommand) : ∃ t,
      onlyIf c (fcntlBoth pid readFd writeFd command) v = some (.ok (), t) ∧ Orderly t ∧
        t.tables.pipes = v.tables.pipes ∧ t.machine = v.machine := by
  obtain ⟨r, t, hrun, ht⟩ := keeps_fcntlBoth pid readFd writeFd command v h
  have hboth : Syscall.fcntlBoth pid readFd writeFd command v = some (.ok (), { v with
      tables := (radFdFcntl (radFdFcntl v.tables pid readFd command).2 pid writeFd command).2 }) := rfl
  obtain ⟨rfl, rfl⟩ := Prod.mk.inj (Option.some.inj (hboth.symm.trans hrun))
  obtain ⟨t, hcond, rfl | rfl⟩ := onlyIf_cases c fun _ => hboth
  · exact ⟨_, hcond, ht, by simp only [radFdFcntl_pipes], rfl⟩
  · exact ⟨_, hcond, h, rfl, rfl⟩

/-- A pipe was made, and then the copy. -/
theorem Orderly.atomic_pipe (hv : Orderly v) {x : Sys κ Int} (readFd writeFd : Int) {pipefd : Nat}
    (hroom : PipeRoom w.tables pid) (hfree : (w.tables.pipes i).used = false)
    (hused : (v.tables.pipes i).used = true)
    (hvm : v.machine = w.machine) (run : x w = Syscall.copyPipe k pipefd readFd writeFd v) :
    Atomic x w ↔
      (PipeRoom w.tables pid → w.machine.vm.validateUserRange k pipefd 8 true = true) := by
  obtain ⟨r, t, hcopy, htables, hvalue⟩ := hv.copyPipe k pipefd readFd writeFd
  rw [atomic_of_run (run.trans hcopy), hvalue, hvm]
  have hchanged : ¬SameTables w.tables t.tables := fun hsame => by
    rw [← hsame.pipes, htables, hused] at hfree
    cases hfree
  simp only [hchanged, hroom, imp_false, Bool.not_eq_false, true_imp_iff]

/-- Without room the call makes nothing. -/
theorem Orderly.atomic_of_full (hw : Orderly w) {x : Sys κ Int} {P : Prop}
    (hfull : ¬PipeRoom w.tables pid) (hneg : (radPipeCreate w.tables pid).1.1 < 0)
    (run : x w = some (.error (radPipeCreate w.tables pid).1.1,
      { w with tables := (radPipeCreate w.tables pid).2 })) :
    Atomic x w ↔ (PipeRoom w.tables pid → P) := by
  rw [atomic_of_run run]
  refine iff_of_true (fun _ => ?_) fun hroom => absurd hroom hfull
  rw [radPipeCreate_failed hw.tables.cleared hneg]
  exact .refl _

/-- A call that makes a pipe, then changes no pipe and no memory before the copy. -/
theorem Orderly.atomic_made (h : Orderly w) {pipefd : Nat} (next : Int → Int → Sys κ Int)
    (hnext : ∀ v readFd writeFd, Orderly v → ∃ v', Orderly v' ∧
      v'.tables.pipes = v.tables.pipes ∧ v'.machine = v.machine ∧
        next readFd writeFd v = Syscall.copyPipe k pipefd readFd writeFd v') :
    Atomic (onTables (fun s => radPipeCreate s pid) >>= fun out =>
        if out.1 ≠ Status.ok.code then Prog.fail out.1 else next out.2.1 out.2.2) w ↔
      (PipeRoom w.tables pid → w.machine.vm.validateUserRange k pipefd 8 true = true) := by
  have hmake : (onTables fun s => radPipeCreate s pid : Sys κ _) w =
      some (.ok (radPipeCreate w.tables pid).1, { w with tables := (radPipeCreate w.tables pid).2 }) :=
    rfl
  obtain ⟨hroom, i, readFd, writeFd, t, hcreate, hfree, hused⟩ | ⟨hfull, hneg⟩ :=
    radPipeCreate_cases w.tables pid
  · rw [hcreate] at hmake
    obtain ⟨r, v, hkeep, hv⟩ := keeps_radPipeCreate pid w h
    rw [hmake] at hkeep
    obtain ⟨-, rfl⟩ := Prod.mk.inj (Option.some.inj hkeep)
    obtain ⟨v', hv', hpipes, hmachine, run⟩ := hnext _ readFd writeFd hv
    refine hv'.atomic_pipe readFd writeFd hroom hfree (by rwa [hpipes]) hmachine ?_
    rw [bind_of_ok hmake]
    exact (congrFun (if_neg (not_not.2 rfl)) _).trans run
  · refine h.atomic_of_full hfull hneg ?_
    have hne : (radPipeCreate w.tables pid).1.1 ≠ Status.ok.code := fun heq => by
      rw [heq] at hneg
      exact absurd hneg (by decide)
    exact congrFun (if_pos hne) _

theorem Orderly.sysPipe (h : Orderly w) (pid : Nat) (k : κ) (pipefd : Nat) :
    Atomic (sysPipe pid k pipefd) w ↔
      (PipeRoom w.tables pid → w.machine.vm.validateUserRange k pipefd 8 true = true) :=
  h.atomic_made _ fun v _ _ hv => ⟨v, hv, rfl, rfl, rfl⟩

theorem Orderly.sysPipe2 (h : Orderly w) (pid : Nat) (k : κ) (pipefd flags : Nat) :
    Atomic (sysPipe2 pid k pipefd flags) w ↔
      (PipeRoom w.tables pid → w.machine.vm.validateUserRange k pipefd 8 true = true) := by
  refine h.atomic_made (fun readFd writeFd => do
    onlyIf (flags &&& fdCloexec ≠ 0) (Syscall.fcntlBoth pid readFd writeFd (.setFd fdCloexec))
    onlyIf (flags &&& fdNonblock ≠ 0) (Syscall.fcntlBoth pid readFd writeFd (.setFl fdNonblock))
    Syscall.copyPipe k pipefd readFd writeFd) fun v readFd writeFd hv => ?_
  obtain ⟨v₁, run₁, hv₁, hpipes₁, hmachine₁⟩ := hv.fcntlBoth (flags &&& fdCloexec ≠ 0) pid readFd
    writeFd (.setFd fdCloexec)
  obtain ⟨v₂, run₂, hv₂, hpipes₂, hmachine₂⟩ := hv₁.fcntlBoth (flags &&& fdNonblock ≠ 0) pid readFd
    writeFd (.setFl fdNonblock)
  refine ⟨v₂, hv₂, hpipes₂.trans hpipes₁, hmachine₂.trans hmachine₁, ?_⟩
  rw [bind_of_ok run₁, bind_of_ok run₂]

/-! ## Connections -/

/-- The descriptor is a listener, and a connection waits in its queue. -/
def Waiting (s : KernelState) (pid : Nat) (fd : Int) : Prop :=
  ∃ l, socketFromFd s pid fd = some l ∧ (s.sockets l).type = sockStream ∧
    (s.sockets l).tcpState = .listen ∧ 0 < (s.sockets l).pendingCount ∧
    (s.sockets l).pendingAccepts 0 < maxUdpSockets ∧
    (s.sockets ((s.sockets l).pendingAccepts 0)).used = true

theorem radSocketAccept_of_not (h : ¬Waiting s pid fd) :
    (radSocketAccept s pid fd).1.1 < 0 ∧ (radSocketAccept s pid fd).2 = s := by
  unfold radSocketAccept
  split
  · exact ⟨notFound_neg, rfl⟩
  · next l hl =>
    dsimp only
    split
    · exact ⟨invalidArgument_neg, rfl⟩
    · next htype =>
      split
      · exact ⟨notFound_neg, rfl⟩
      · next hcount =>
        split
        · exact ⟨notFound_neg, rfl⟩
        · next hpending =>
          refine absurd ⟨l, hl, ?_, ?_, by omega, ?_, ?_⟩ h
          · by_contra hne
            exact htype (.inl hne)
          · by_contra hne
            exact htype (.inr hne)
          · omega
          · simpa using fun hfree => hpending (.inr hfree)

/-- A connection that waits leaves the queue, and gets a descriptor if there is room. -/
theorem radSocketAccept_of (h : Waiting s pid fd) :
    (radSocketAccept s pid fd).2.sockets ≠ s.sockets ∧
      (0 ≤ (radSocketAccept s pid fd).1.1 ↔ Room s.fds pid (-1)) := by
  obtain ⟨l, hl, htype, hstate, hcount, hlt, hused⟩ := h
  unfold radSocketAccept
  rw [hl]
  dsimp only
  rw [if_neg (by simp [htype, hstate]), if_neg (by omega), if_neg (by simp [hused]; omega)]
  generalize hs1 : setSocket s l _ = s1
  have hfds : s1.fds = s.fds := by rw [← hs1]; rfl
  have hless : s1.sockets ≠ s.sockets := fun heq => by
    have hpending := congrArg (fun sockets => (sockets l).pendingCount) heq
    simp only [← hs1, setSocket, Function.update_self] at hpending
    omega
  obtain ⟨hroom, n, slot, -, -, run⟩ | ⟨hfull, run⟩ := installFdRecord_cases_neg s1 pid
    (newRecord { kind := .socket, socketIndex := (s.sockets l).pendingAccepts 0 }
      (vfsRead ||| vfsWrite) pid) (by simp [newRecord])
  · rw [run, ← hfds]
    exact ⟨hless, iff_of_true (Int.natCast_nonneg n) hroom⟩
  · rw [run, ← hfds]
    exact ⟨hless, iff_of_false (not_le.2 noMemory_neg) hfull⟩

/-- A copy that is made on a condition: the call goes on when the program can write there. -/
theorem Orderly.store_cases (h : Orderly v) (c : Prop) [Decidable c] (k : κ) (dst : Nat)
    (src : List UInt8) :
    ((c → v.machine.vm.validateUserRange k dst src.length true = true) ∧ ∃ t,
      onlyIf c (store k dst src) v = some (.ok (), t) ∧ Orderly t ∧ t.tables = v.tables ∧
        ∀ k va n, t.machine.vm.validateUserRange k va n true =
          v.machine.vm.validateUserRange k va n true) ∨
    (¬(c → v.machine.vm.validateUserRange k dst src.length true = true) ∧ ∃ t,
      onlyIf c (store k dst src) v = some (.error Status.invalidArgument.code, t) ∧
        t.tables = v.tables) := by
  by_cases hc : c
  · rw [onlyIf, if_pos hc, store]
    obtain ⟨status, vm, run, ht, hwalk, hstatus⟩ := h.copyToUser k dst src
    rw [bind_of_ok run]
    by_cases hok : status = .ok
    · refine .inl ⟨fun _ => hstatus.1 hok, _, by rw [ensure, if_pos hok]; rfl, ht, rfl, ?_⟩
      exact fun k va n => validateUserRange_congr h.memory ht.memory hwalk k va n true
    · refine .inr ⟨fun hvalid => hok (hstatus.2 (hvalid hc)), v.setVm vm, ?_, rfl⟩
      rw [ensure, if_neg hok, fail_apply]
  · rw [onlyIf, if_neg hc]
    exact .inl ⟨fun hc' => absurd hc' hc, v, rfl, h, rfl, fun _ _ _ => rfl⟩

/-- The ranges are those of the program, as far as the call looks before it takes a connection. -/
def AcceptReadable (vm : Vm.VmState κ) (k : κ) (linux : Bool) (address length : Nat) : Prop :=
  (address ≠ 0 → vm.validateUserRange k address sockAddrSize false = true) ∧
    (length ≠ 0 → vm.validateUserRange k length (lengthSize linux) false = true)

omit [Fintype κ] in
theorem ensure_of {c : Prop} [Decidable c] (hc : c) (status : Status) :
    ensure c status w = some (.ok (), w) := by
  rw [ensure, if_pos hc, pure_apply]

omit [Fintype κ] in
theorem ensure_of_not {c : Prop} [Decidable c] (hc : ¬c) (status : Status) :
    ensure c status w = some (.error status.code, w) := by
  rw [ensure, if_neg hc, fail_apply]

theorem Orderly.acceptLength (h : Orderly w) {linux : Bool} {length : Nat}
    (hlength : length ≠ 0 → w.machine.vm.validateUserRange k length (lengthSize linux) false = true) :
    ∃ given, acceptLength k linux length w = some (.ok (.ok given), w) := by
  rw [Syscall.acceptLength]
  split
  · next hc =>
    have hvalid := hlength hc.2
    rw [lengthSize, if_neg (by simpa using hc.1)] at hvalid
    obtain ⟨-, bytes, -, -, run⟩ | ⟨hinvalid, -⟩ :=
      copyFromUser_cases k length 8 h.memory
    · exact ⟨bytes, by rw [copyFromUser, run]; rfl⟩
    · rw [hvalid] at hinvalid
      cases hinvalid
  · exact ⟨_, rfl⟩

theorem length_sockAddrBytes (a : SockAddr) : (sockAddrBytes a).length = sockAddrSize := by
  simp [sockAddrBytes, sockAddrSize]

/-- Both copies are made, or one of them fails. -/
theorem Orderly.giveAddress (h : Orderly v) (k : κ) (linux : Bool) (address length : Nat)
    (peer : SockAddr) (given : Nat) :
    (((address ≠ 0 → v.machine.vm.validateUserRange k address sockAddrSize true = true) ∧
      (length ≠ 0 → v.machine.vm.validateUserRange k length (lengthSize linux) true = true)) ∧
      ∃ t, giveAddress k linux address length peer given v = some (.ok (), t)) ∨
    (¬((address ≠ 0 → v.machine.vm.validateUserRange k address sockAddrSize true = true) ∧
      (length ≠ 0 → v.machine.vm.validateUserRange k length (lengthSize linux) true = true)) ∧
      ∃ t, giveAddress k linux address length peer given v =
        some (.error Status.invalidArgument.code, t) ∧ t.tables = v.tables) := by
  rw [Syscall.giveAddress]
  obtain ⟨haddress, t, run, ht, htables, hvalid⟩ | ⟨haddress, t, run, htables⟩ :=
    h.store_cases (address ≠ 0) k address
      (sockAddrBytes (if address ≠ 0 ∧ length ≠ 0 ∧ sockAddrSize ≤ given then peer else {}))
  · rw [length_sockAddrBytes] at haddress
    rw [bind_of_ok run]
    obtain ⟨hlength, u, run', -⟩ | ⟨hlength, u, run', htables'⟩ :=
      ht.store_cases (length ≠ 0) k length (Words.encode (lengthSize linux)
        (if address ≠ 0 ∧ length ≠ 0 ∧ sockAddrSize ≤ given then sockAddrSize else given))
    · rw [Words.length_encode, hvalid] at hlength
      exact .inl ⟨⟨haddress, hlength⟩, u, run'⟩
    · rw [Words.length_encode, hvalid] at hlength
      exact .inr ⟨fun hboth => hlength hboth.2, u, run', htables'.trans htables⟩
  · rw [length_sockAddrBytes] at haddress
    rw [bind_of_error run]
    exact .inr ⟨fun hboth => haddress hboth.1, t, rfl, htables⟩

theorem Orderly.sysAccept (h : Orderly w) (pid : Nat) (k : κ) (linux : Bool) (fd : Int)
    (address length : Nat) :
    Atomic (sysAccept pid k linux fd address length) w ↔
      (AcceptReadable w.machine.vm k linux address length → Waiting w.tables pid fd →
        Room w.tables.fds pid (-1) ∧
        (address ≠ 0 → w.machine.vm.validateUserRange k address sockAddrSize true = true) ∧
        (length ≠ 0 → w.machine.vm.validateUserRange k length (lengthSize linux) true = true)) := by
  have hread : (Prog.read : Sys κ (World κ)) w = some (.ok w, w) := rfl
  by_cases haddress : address ≠ 0 → w.machine.vm.validateUserRange k address sockAddrSize false = true
  swap
  · have run : Syscall.sysAccept pid k linux fd address length w =
        some (.error Status.invalidArgument.code, w) := by
      rw [Syscall.sysAccept, bind_of_ok hread, bind_of_error (ensure_of_not haddress _)]
    rw [atomic_of_run run]
    exact iff_of_true (fun _ => .refl _) fun hreadable => absurd hreadable.1 haddress
  by_cases hlength : length ≠ 0 →
      w.machine.vm.validateUserRange k length (lengthSize linux) false = true
  swap
  · have run : Syscall.sysAccept pid k linux fd address length w =
        some (.error Status.invalidArgument.code, w) := by
      rw [Syscall.sysAccept, bind_of_ok hread, bind_of_ok (ensure_of haddress _),
        bind_of_error (ensure_of_not hlength _)]
    rw [atomic_of_run run]
    exact iff_of_true (fun _ => .refl _) fun hreadable => absurd hreadable.2 hlength
  obtain ⟨given, hgiven⟩ := h.acceptLength hlength
  generalize hout : radSocketAccept w.tables pid fd = out
  obtain ⟨⟨accepted, peer⟩, tables⟩ := out
  have haccept : (onTables fun s => radSocketAccept s pid fd : Sys κ _) w =
      some (.ok (accepted, peer), { w with tables }) := by
    rw [onTables, hout]
  have hrun : Syscall.sysAccept pid k linux fd address length w =
      (if accepted < 0 then Prog.fail accepted
      else Syscall.giveAddress k linux address length peer (Words.decode given) >>= fun _ =>
        pure accepted : Sys κ Int) { w with tables } := by
    rw [Syscall.sysAccept, bind_of_ok hread, bind_of_ok (ensure_of haddress _),
      bind_of_ok (ensure_of hlength _), bind_of_ok hgiven]
    exact bind_of_ok haccept
  have hreadable : AcceptReadable w.machine.vm k linux address length := ⟨haddress, hlength⟩
  simp only [hreadable, true_imp_iff]
  by_cases hwait : Waiting w.tables pid fd
  · obtain ⟨hchanged, hroom⟩ := radSocketAccept_of hwait
    rw [hout] at hchanged hroom
    have hnot : ∀ v : World κ, v.tables = tables → ¬SameTables w.tables v.tables := by
      rintro v rfl hsame
      exact hchanged hsame.sockets
    simp only [hwait, true_imp_iff, ← hroom]
    by_cases hneg : accepted < 0
    · rw [if_pos hneg] at hrun
      rw [atomic_of_run hrun]
      refine iff_of_false (fun hatomic => ?_) fun hpos => absurd hpos.1 (not_le.2 hneg)
      exact hnot { w with tables } rfl (hatomic hneg)
    · rw [if_neg hneg] at hrun
      have hpos : 0 ≤ accepted := not_lt.1 hneg
      have hv : Orderly { w with tables } := by
        have haccepted := h.tables.perform (.accept pid fd) trivial
        have htables : (perform w.tables (.accept pid fd)).2 = tables := by
          simp only [perform, hout]
        exact ⟨htables ▸ haccepted, h.memory, h.shown⟩
      obtain ⟨hboth, t, run⟩ | ⟨hboth, t, run, htables⟩ :=
        hv.giveAddress k linux address length peer (Words.decode given)
      · rw [bind_of_ok run] at hrun
        rw [atomic_of_run hrun]
        refine iff_of_true (fun hvalue => ?_) ⟨hpos, hboth⟩
        exact absurd hvalue hneg
      · rw [bind_of_error run] at hrun
        rw [atomic_of_run hrun]
        refine iff_of_false (fun hatomic => ?_) fun hall => hboth hall.2
        exact hnot t htables (hatomic invalidArgument_neg)
  · obtain ⟨hneg, hsame⟩ := radSocketAccept_of_not hwait
    rw [hout] at hneg hsame
    rw [if_pos hneg] at hrun
    rw [atomic_of_run hrun]
    refine iff_of_true (fun _ => ?_) fun hw => absurd hw hwait
    exact hsame ▸ .refl _

/-! ## Objects -/

/-- The descriptor of an object leads to it. -/
theorem shmFromFd_placed {n slot flags : Nat} (hn : Unnamed s.fds pid n)
    (hslot : freeSlot s.fds = some slot) (hi : i < maxShmObjects) :
    shmFromFd (setFd s slot (placed (newRecord { kind := .shm, shmIndex := i } flags pid) n slot))
      pid n = some i := by
  obtain ⟨hlt, -⟩ := freeSlot_some hslot
  have hfind : findFdSlot (setFd s slot (placed (newRecord { kind := .shm, shmIndex := i } flags pid)
      n slot)).fds n pid true = some slot :=
    findFdSlot_placed (newRecord _ flags pid) (Int.natCast_nonneg n) hn.2.2 hslot
  have howner : ownerSlot (placed (newRecord { kind := .shm, shmIndex := i } flags pid) n slot) =
      some slot := by
    rw [ownerSlot_eq_some]
    exact ⟨by simp [placed, newRecord], hlt⟩
  have hindex : fdOwnerIndex (setFd s slot (placed (newRecord { kind := .shm, shmIndex := i } flags
      pid) n slot)).fds slot = some slot := by
    rw [fdOwnerIndex, setFd_fds, Function.update_self, howner]
    simp [placed, hlt]
  rw [shmFromFd, lookupFdRecord, resolve, hfind, Option.bind_some, hindex]
  simp [placed, newRecord, hi]

theorem installShmFd_cases (flags : Nat) (hi : i < maxShmObjects)
    (hused : (s.shmObjects i).used = true) :
    (Room s.fds pid (-1) ∧ ∃ (n : Nat) (t : KernelState),
      installShmFd s pid i flags = ((n : Int), t) ∧ t.fds ≠ s.fds ∧
        t.shmObjects = s.shmObjects ∧ shmFromFd t pid n = some i) ∨
    (¬Room s.fds pid (-1) ∧ installShmFd s pid i flags = (Status.noMemory.code, s)) := by
  have hrun : installShmFd s pid i flags =
      installFdRecord s pid (newRecord { kind := .shm, shmIndex := i } flags pid) (-1) := by
    rw [installShmFd, if_neg (by simp [hused]; omega)]
  rw [hrun]
  obtain ⟨hroom, n, slot, hn, hslot, run⟩ | hfull := installFdRecord_cases_neg s pid
    (newRecord { kind := .shm, shmIndex := i } flags pid) (by simp [newRecord])
  · refine .inl ⟨hroom, n, _, run, fun heq => ?_, rfl, shmFromFd_placed hn hslot hi⟩
    obtain ⟨-, hfree⟩ := freeSlot_some hslot
    rw [← heq] at hfree
    simp [placed] at hfree
  · exact .inr hfull

/-- The object that an open finds. -/
def oldShmSlot (s : KernelState) (name : List Char) (byteSize : Nat) : Option Nat :=
  let pageCount := (byteSize + 4095) % 2 ^ 64 / 4096
  if name = [] ∨ byteSize = 0 ∨ 64 ≤ name.length ∨ pageCount = 0 ∨ 16 < pageCount then none
  else findShmByName s name

def ShmOpened (s : KernelState) (pid : Nat) (t : KernelState) (fd : Int) (i n : Nat) : Prop :=
  0 ≤ fd ∧ t.fds ≠ s.fds ∧ shmFromFd t pid fd = some i ∧ (t.shmObjects i).used = true ∧
    unset (t.shmObjects i) (t.shmObjects i).pageCount = n

theorem radShmOpen_cases (s : KernelState) (pid : Nat) (name : List Char) (byteSize flags : Nat) :
    (∃ i, newShmSlot s name byteSize = some i ∧ oldShmSlot s name byteSize = none ∧
      ((Room s.fds pid (-1) ∧ ShmOpened s pid (radShmOpen s pid name byteSize flags).2
        (radShmOpen s pid name byteSize flags).1 i ((byteSize + 4095) % 2 ^ 64 / 4096)) ∨
      (¬Room s.fds pid (-1) ∧ (radShmOpen s pid name byteSize flags).1 < 0 ∧
        ¬SameTables s (radShmOpen s pid name byteSize flags).2))) ∨
    (∃ i, newShmSlot s name byteSize = none ∧ oldShmSlot s name byteSize = some i ∧
      ((Room s.fds pid (-1) ∧ ShmOpened s pid (radShmOpen s pid name byteSize flags).2
        (radShmOpen s pid name byteSize flags).1 i
        (unset (s.shmObjects i) (s.shmObjects i).pageCount)) ∨
      (¬Room s.fds pid (-1) ∧ (radShmOpen s pid name byteSize flags).1 < 0 ∧
        (radShmOpen s pid name byteSize flags).2 = s))) ∨
    (newShmSlot s name byteSize = none ∧ oldShmSlot s name byteSize = none ∧
      (radShmOpen s pid name byteSize flags).1 < 0 ∧
      (radShmOpen s pid name byteSize flags).2 = s) := by
  by_cases hbad : name = [] ∨ byteSize = 0 ∨ 64 ≤ name.length ∨
      (byteSize + 4095) % 2 ^ 64 / 4096 = 0 ∨ 16 < (byteSize + 4095) % 2 ^ 64 / 4096
  · refine .inr (.inr ?_)
    simp only [newShmSlot, oldShmSlot, radShmOpen, if_pos hbad]
    exact ⟨trivial, trivial, invalidArgument_neg, trivial⟩
  simp only [newShmSlot, oldShmSlot, radShmOpen, if_neg hbad]
  cases hname : findShmByName s name with
  | some i =>
    refine .inr (.inl ⟨i, rfl, rfl, ?_⟩)
    dsimp only
    rw [findShmByName, if_neg (fun h => hbad (.inl h))] at hname
    have hlt := List.mem_range.1 (List.mem_of_find?_eq_some hname)
    have hused : (s.shmObjects i).used = true := by
      have := List.find?_some hname
      simp only [Bool.decide_and, Bool.and_eq_true, decide_eq_true_eq] at this
      simpa using this.1
    obtain ⟨hroom, n, t, run, hfds, hobjects, hfd⟩ | ⟨hfull, run⟩ :=
      installShmFd_cases flags hlt hused
    · rw [run]
      refine .inl ⟨hroom, Int.natCast_nonneg n, hfds, hfd, ?_, ?_⟩
      · rw [hobjects, hused]
      · rw [hobjects]
    · rw [run]
      exact .inr ⟨hfull, noMemory_neg, rfl⟩
  | none =>
    cases hfind : (List.range maxShmObjects).find? fun i => !(s.shmObjects i).used with
    | none => exact .inr (.inr ⟨rfl, rfl, noMemory_neg, rfl⟩)
    | some i =>
      refine .inl ⟨i, rfl, rfl, ?_⟩
      dsimp only
      have hlt := List.mem_range.1 (List.mem_of_find?_eq_some hfind)
      have hfree : (s.shmObjects i).used = false := by simpa using List.find?_some hfind
      generalize hs1 : ({ s with shmObjects := _ } : KernelState) = s1
      have hrecord : s1.shmObjects i = { name := name, byteSize := byteSize, pageCount :=
          (byteSize + 4095) % 2 ^ 64 / 4096, linked := true, used := true } := by
        rw [← hs1]
        simp
      have hfds1 : s1.fds = s.fds := by rw [← hs1]
      have hnew : ¬SameTables s s1 := fun hsame => by
        rw [← hsame.shmObjects, hrecord] at hfree
        cases hfree
      obtain ⟨hroom, n, t, run, hfds, hobjects, hfd⟩ | ⟨hfull, run⟩ :=
        installShmFd_cases flags hlt (by rw [hrecord])
      · rw [run]
        refine .inl ⟨hfds1 ▸ hroom, Int.natCast_nonneg n, hfds1 ▸ hfds, hfd, ?_, ?_⟩
        · rw [hobjects, hrecord]
        · rw [hobjects, hrecord]
          simp [unset]
      · rw [run]
        exact .inr ⟨hfds1 ▸ hfull, noMemory_neg, hnew⟩

/-- A new object gets a descriptor and all its pages, one that is found gets the pages it lacks. -/
structure ShmAffords (s : KernelState) (freePages pid : Nat) (name : List Char) (byteSize : Nat) :
    Prop where
  made : ∀ i, newShmSlot s name byteSize = some i →
    Room s.fds pid (-1) ∧ (byteSize + 4095) % 2 ^ 64 / 4096 ≤ freePages
  found : ∀ i, oldShmSlot s name byteSize = some i → Room s.fds pid (-1) →
    unset (s.shmObjects i) (s.shmObjects i).pageCount ≤ freePages

/-- The pages of an object that was opened. -/
theorem Orderly.fillShm [DecidableEq κ] (hv : Orderly v)
    (hopened : ShmOpened s pid v.tables fd i j) :
    ∃ r t, fillShm pid fd v = some (r, t) ∧ Orderly t ∧
      ((value r < 0 → SameTables s t.tables) ↔ j ≤ v.machine.vm.freePages) := by
  obtain ⟨hpos, hchanged, hfd, hused, rfl⟩ := hopened
  have hread : (Prog.read : Sys κ (World κ)) v = some (.ok v, v) := rfl
  have hinfo : radShmGetInfo v.tables pid fd = .ok (shmInfo (v.tables.shmObjects i)) := by
    rw [radShmGetInfo, hfd]
    simp [hused]
  rw [Syscall.fillShm, bind_of_ok hread, hinfo]
  dsimp only [shmInfo]
  obtain ⟨t, run, ht⟩ | ⟨e, t, run, rfl, ht, hfds, hless⟩ := hv.fillShmPages hfd hused
  · rw [bind_of_ok run, pure_apply]
    have hfree := ht.freePages
    exact ⟨_, t, rfl, ht.orderly, iff_of_true (fun hneg => absurd hneg (not_lt.2 hpos)) (by omega)⟩
  · rw [bind_of_error run]
    refine ⟨_, t, rfl, ht, iff_of_false (fun hatomic => ?_) (by omega)⟩
    exact hchanged (hfds.symm.trans (hatomic noMemory_neg).fds)

theorem Orderly.sysShmOpen [DecidableEq κ] (h : Orderly w) (pid : Nat) (k : κ)
    (name byteSize flags : Nat) : ∃ r t, sysShmOpen pid k name byteSize flags w = some (r, t) ∧
      Orderly t ∧ ((value r < 0 → SameTables w.tables t.tables) ↔
        ∀ bytes, w.machine.vm.copyStringFromUser k name shmNameMax = some (.ok bytes) →
          ShmAffords w.tables w.machine.vm.freePages pid (shmName bytes) byteSize) := by
  obtain ⟨out, hcopy⟩ := copyStringFromUser_returns h.memory k name shmNameMax
  have hread : copyStringFromUser k name shmNameMax w = some (.ok out, w) := by
    rw [copyStringFromUser, hcopy]
    rfl
  rw [hcopy, Syscall.sysShmOpen, bind_of_ok hread]
  cases out with
  | error status => exact ⟨_, w, rfl, h, iff_of_true (fun _ => .refl _) fun bytes hbytes => by cases hbytes⟩
  | ok bytes =>
    simp only [Option.some.injEq, Except.ok.injEq, forall_eq']
    have hcases := radShmOpen_cases w.tables pid (shmName bytes) byteSize (flags % 2 ^ 32)
    have hordered := h.tables.perform (.shmOpen pid (shmName bytes) byteSize (flags % 2 ^ 32)) trivial
    rw [perform] at hordered
    generalize hout : radShmOpen w.tables pid (shmName bytes) byteSize (flags % 2 ^ 32) = out
      at hcases hordered
    obtain ⟨fd, tables⟩ := out
    have hv : Orderly { w with tables } := ⟨hordered, h.memory, h.shown⟩
    have hopen : (onTables fun s => radShmOpen s pid (shmName bytes) byteSize (flags % 2 ^ 32) :
        Sys κ Int) w = some (.ok fd, { w with tables }) := by
      rw [onTables, hout]
    rw [bind_of_ok hopen]
    obtain ⟨i, hnew, hold, hcase⟩ | ⟨i, hnew, hold, hcase⟩ | ⟨hnew, hold, hneg, rfl⟩ := hcases
    · obtain ⟨hroom, hopened⟩ | ⟨hfull, hneg, hchanged⟩ := hcase
      · obtain ⟨r, t, run, ht, hiff⟩ := hv.fillShm hopened
        rw [if_neg (not_lt.2 hopened.1)]
        refine ⟨r, t, run, ht, hiff.trans ⟨fun hfree => ⟨fun _ _ => ⟨hroom, hfree⟩, ?_⟩, ?_⟩⟩
        · simp [hold]
        · exact fun haffords => (haffords.made i hnew).2
      · rw [if_pos hneg]
        refine ⟨_, _, rfl, hv, iff_of_false (fun hatomic => hchanged (hatomic hneg)) ?_⟩
        exact fun haffords => hfull (haffords.made i hnew).1
    · obtain ⟨hroom, hopened⟩ | ⟨hfull, hneg, rfl⟩ := hcase
      · obtain ⟨r, t, run, ht, hiff⟩ := hv.fillShm hopened
        rw [if_neg (not_lt.2 hopened.1)]
        refine ⟨r, t, run, ht, hiff.trans ⟨fun hfree => ⟨?_, fun j hj _ => ?_⟩, ?_⟩⟩
        · simp [hnew]
        · obtain rfl := Option.some.inj (hold.symm.trans hj)
          exact hfree
        · exact fun haffords => haffords.found i hold hroom
      · rw [if_pos hneg]
        refine ⟨_, _, rfl, hv, iff_of_true (fun _ => .refl _) ⟨?_, fun _ _ hroom => ?_⟩⟩
        · simp [hnew]
        · exact absurd hroom hfull
    · rw [if_pos hneg]
      refine ⟨_, _, rfl, hv, iff_of_true (fun _ => .refl _) ⟨?_, ?_⟩⟩
      · simp [hnew]
      · simp [hold]

/-! ## Every world -/

/-- What can happen. -/
inductive Action (κ : Type) where
  | call (c : Call)
  | memory (event : Vm.Event κ)
  | create (pid : Nat) (k : κ) (call : Create)
  | move (pid : Nat) (k : κ) (call : Move)

/-- The world after a call that returns. -/
def World.after (w : World κ) (x : Sys κ Int) : World κ := ((x w).map Prod.snd).getD w

/-- `beyond` is the byte behind the literal of the markers. -/
def World.step [DecidableEq κ] (ranges : List Vm.KernelMmioRange) (beyond : UInt8) (w : World κ) :
    Action κ → World κ
  | .call c => { w with tables := (perform w.tables c).2 }
  | .memory event => { w with machine := w.machine.step ranges event }
  | .create pid k call => w.after (call.run pid k)
  | .move pid k call => w.after (call.run beyond pid k)

/-- The other calls on sockets clear the records that they free, and the memory keeps to its
bounds. -/
def World.Allowed (w : World κ) : Action κ → Prop
  | .call c => Traffic c
  | .memory event => w.machine.Tame event
  | _ => True

def World.Boots (w : World κ) : Prop :=
  (∃ console processes, w.tables = boot console processes) ∧ Vm.Boots w.machine ∧ w.hidden = false

/-- The worlds that calls lead to, in any order. -/
abbrev World.Reached [DecidableEq κ] (ranges : List Vm.KernelMmioRange) (beyond : UInt8) :
    World κ → Prop :=
  Run (Obeys (World.step ranges beyond) World.Allowed) World.Boots

omit [Fintype κ] in
theorem World.Boots.reached [DecidableEq κ] {ranges : List Vm.KernelMmioRange} {beyond : UInt8}
    (h : w.Boots) : w.Reached ranges beyond := .start h

theorem Orderly.after {x : Sys κ Int} (hx : ∃ r t, x w = some (r, t) ∧ Orderly t) :
    Orderly (w.after x) := by
  obtain ⟨r, t, run, ht⟩ := hx
  rwa [World.after, run]

theorem Orderly.step [DecidableEq κ] {ranges : List Vm.KernelMmioRange} {beyond : UInt8}
    (h : Orderly w) (action : Action κ) (hallowed : w.Allowed action) :
    Orderly (w.step ranges beyond action) := by
  cases action with
  | call c => exact ⟨h.tables.perform c hallowed, h.memory, h.shown⟩
  | memory event => exact ⟨h.tables, h.memory.step event hallowed.records, h.shown⟩
  | create pid k call =>
    refine .after ?_
    cases call with
    | pipe pipefd => exact keeps_sysPipe pid k pipefd w h
    | pipe2 pipefd flags => exact keeps_sysPipe2 pid k pipefd flags w h
    | accept linux fd address length => exact keeps_sysAccept pid k linux fd address length w h
    | shmOpen name byteSize flags =>
      obtain ⟨r, t, run, ht, -⟩ := h.sysShmOpen pid k name byteSize flags
      exact ⟨r, t, run, ht⟩
  | move pid k call => exact .after (keeps_move beyond pid k call w h)

theorem orderly_of_reached [DecidableEq κ] {ranges : List Vm.KernelMmioRange} {beyond : UInt8}
    (h : w.Reached ranges beyond) : Orderly w := by
  refine h.invariant (fun w hw => ?_) fun w action t hw hstep => ?_
  · obtain ⟨⟨console, processes, htables⟩, hmemory, hshown⟩ := hw
    exact ⟨htables ▸ Ordered.boot console processes, hmemory.agrees.sound, hshown⟩
  · obtain ⟨hallowed, rfl⟩ := hstep
    exact hw.step action hallowed

/-- A call that gets as far as changing a table can do the rest. -/
def Finishes (w : World κ) (pid : Nat) (k : κ) : Create → Prop
  | .pipe pipefd | .pipe2 pipefd _ =>
    PipeRoom w.tables pid → w.machine.vm.validateUserRange k pipefd 8 true = true
  | .accept linux fd address length =>
    AcceptReadable w.machine.vm k linux address length → Waiting w.tables pid fd →
      Room w.tables.fds pid (-1) ∧
      (address ≠ 0 → w.machine.vm.validateUserRange k address sockAddrSize true = true) ∧
      (length ≠ 0 → w.machine.vm.validateUserRange k length (lengthSize linux) true = true)
  | .shmOpen name byteSize _ =>
    ∀ bytes, w.machine.vm.copyStringFromUser k name shmNameMax = some (.ok bytes) →
      ShmAffords w.tables w.machine.vm.freePages pid (shmName bytes) byteSize

/-- A call that creates descriptors returns. If it fails it leaves the tables as they were, just
when it would finish after the first change. -/
theorem creates_atomic [DecidableEq κ] {ranges : List Vm.KernelMmioRange} {beyond : UInt8}
    (h : w.Reached ranges beyond) (pid : Nat) (k : κ) (call : Create) :
    (∃ r t, call.run pid k w = some (r, t)) ∧
      (Atomic (call.run pid k) w ↔ Finishes w pid k call) := by
  have hw := orderly_of_reached h
  cases call with
  | pipe pipefd =>
    obtain ⟨r, t, run, -⟩ := Orderly.keeps_sysPipe pid k pipefd w hw
    exact ⟨⟨r, t, run⟩, hw.sysPipe pid k pipefd⟩
  | pipe2 pipefd flags =>
    obtain ⟨r, t, run, -⟩ := Orderly.keeps_sysPipe2 pid k pipefd flags w hw
    exact ⟨⟨r, t, run⟩, hw.sysPipe2 pid k pipefd flags⟩
  | accept linux fd address length =>
    obtain ⟨r, t, run, -⟩ := Orderly.keeps_sysAccept pid k linux fd address length w hw
    exact ⟨⟨r, t, run⟩, hw.sysAccept pid k linux fd address length⟩
  | shmOpen name byteSize flags =>
    obtain ⟨r, t, run, -, hiff⟩ := hw.sysShmOpen pid k name byteSize flags
    exact ⟨⟨r, t, run⟩, (atomic_of_run run).trans hiff⟩

/-- A kernel without a console, before any program was started. -/
def bootWorld : World Bool where
  tables := boot false fun _ => {}
  machine := Vm.boot

theorem reached_boot : bootWorld.Reached [] 0 :=
  World.Boots.reached ⟨⟨false, fun _ => {}, rfl⟩, Vm.boots_boot, rfl⟩

/-- No connection waits, so nothing changes. -/
theorem creates_atomic_boot : Atomic ((Create.accept false 3 0 0).run 1 false) bootWorld := by
  refine (creates_atomic reached_boot 1 false _).2.2 fun _ hwait => ?_
  obtain ⟨l, hl, -⟩ := hwait
  cases (show socketFromFd bootWorld.tables 1 3 = none by decide).symm.trans hl

/-- A pipe whose descriptors cannot be copied out stays. -/
theorem not_atomic_pipe : bootWorld.Reached [] 0 ∧
    ¬Atomic ((Create.pipe 0).run 1 false) bootWorld := by
  have hw := orderly_of_reached reached_boot
  refine ⟨reached_boot, fun hatomic => ?_⟩
  have hroom : PipeRoom bootWorld.tables 1 :=
    ⟨⟨0, by decide, rfl⟩, ⟨0, by decide, 1, by decide, by decide, rfl, rfl⟩,
      ⟨3, 4, by decide, ⟨by decide, by decide, by decide⟩, by decide, by decide, by decide⟩⟩
  have hvalid := (hw.sysPipe 1 false 0).1 hatomic hroom
  cases hvalid

end RadKernel.Syscall
