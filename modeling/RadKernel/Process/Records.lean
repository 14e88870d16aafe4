import RadKernel.Process.Parents

/-!
# The process table after a call

What `Effect` says about a call, in the form the other tables that refer to process records use.
-/

namespace RadKernel.Process

open Kernel Fd

variable {s t : KernelState} {caller : Int} {i : Nat}

/-- Every record stands for the process it stood for. -/
structure SameRecords (s t : KernelState) : Prop where
  record : ∀ i, SameProcess (s.processes i) (t.processes i)
  nextPid : InRange s.nextPid → InRange t.nextPid

namespace SameRecords

theorem refl (s : KernelState) : SameRecords s s := ⟨fun _ => .refl _, id⟩

theorem trans {u : KernelState} (h : SameRecords s t) (h' : SameRecords t u) : SameRecords s u where
  record i :=
    ⟨(h'.record i).used.trans (h.record i).used, (h'.record i).pid.trans (h.record i).pid,
      (h'.record i).parentPid.trans (h.record i).parentPid⟩
  nextPid hs := h'.nextPid (h.nextPid hs)

theorem distinct (h : SameRecords s t) (hs : Distinct s) : Distinct t := by
  intro i hi j hj
  rw [(h.record i).used, (h.record j).used, (h.record i).pid, (h.record j).pid]
  exact hs i hi j hj

theorem findProcess (h : SameRecords s t) (pid : Int) : findProcess t pid = findProcess s pid := by
  unfold Fd.findProcess
  simp only [(h.record _).used, (h.record _).pid]

theorem of_effect {call : Call} {result : Int × Int} (h : Effect s t caller call result)
    (hcreate : ∀ parentPid path, call ≠ .create parentPid path) (hwait : ∀ pid, call ≠ .waitpid pid)
    (hnext : t.nextPid = s.nextPid) : SameRecords s t := by
  refine ⟨?_, fun hs => hnext ▸ hs⟩
  cases h with
  | kept same _ => exact same
  | born parentPid path _ _ isCreate => exact absurd isCreate (hcreate parentPid path)
  | reaped pid _ isWaitpid => exact absurd isWaitpid (hwait pid)

theorem exit (s : KernelState) (caller status : Int) :
    SameRecords s (radProcessExit s caller status) :=
  have h := exit_effect s caller status (0, 0)
  of_effect h.1 (fun _ _ hc => by cases hc) (fun _ hc => by cases hc) h.2

theorem kill (s : KernelState) (caller pid signal : Int) :
    SameRecords s (radProcessKill s caller pid signal).2 :=
  have h := kill_effect s caller pid signal (0, 0)
  of_effect h.1 (fun _ _ hc => by cases hc) (fun _ hc => by cases hc) h.2

theorem markExec (s : KernelState) (pid : Int) (path : List Char) :
    SameRecords s (radProcessMarkExec s pid path).2 :=
  have h := @markExec_effect s 0 (.markExec pid path) pid path (0, 0) fun hleaves => hleaves
  of_effect h.1 (fun _ _ hc => by cases hc) (fun _ hc => by cases hc) h.2

end SameRecords

/-- A record that was not in use stands for a process with a pid of its own. -/
structure Created (s t : KernelState) (i : Nat) (n : Int) : Prop where
  lt : i < maxProcesses
  free : (s.processes i).used = false
  other : ∀ j, j ≠ i → t.processes j = s.processes j
  used : (t.processes i).used = true
  pid : (t.processes i).pid = n
  fresh : ∀ j < maxProcesses, (s.processes j).used → (s.processes j).pid ≠ n

variable {pid : Int}

theorem Created.distinct (h : Created s t i pid) (hs : Distinct s) : Distinct t := by
  intro j hj k hk huj huk hpid
  by_cases hji : j = i <;> by_cases hki : k = i
  · rw [hji, hki]
  · rw [hji, h.pid, h.other k hki] at hpid
    rw [h.other k hki] at huk
    exact absurd hpid.symm (h.fresh k hk huk)
  · rw [hki, h.pid, h.other j hji] at hpid
    rw [h.other j hji] at huj
    exact absurd hpid (h.fresh j hj huj)
  · rw [h.other j hji] at huj hpid
    rw [h.other k hki] at huk hpid
    exact hs j hj k hk huj huk hpid

theorem Created.findProcess (h : Created s t i pid) (hs : Distinct s) :
    Fd.findProcess t pid = some i := by
  cases hfind : Fd.findProcess t pid with
  | none => exact absurd h.pid (findProcess_none hfind h.lt h.used)
  | some j =>
    obtain ⟨hj, hused, hpid⟩ := findProcess_some hfind
    exact congrArg some (h.distinct hs j hj i h.lt hused h.used (hpid.trans h.pid.symm))

/-- The counter passes the end of the range before it would come to zero. -/
theorem choosePid_ne_zero (h : InRange s.nextPid) : choosePid s ≠ 0 := by
  have hstart : InRange (if s.nextPid < 2 then 2 else s.nextPid) ∧
      2 ≤ if s.nextPid < 2 then 2 else s.nextPid := by
    unfold InRange at h ⊢
    split_ifs <;> omega
  obtain ⟨k, hk, heq, -⟩ := skipTaken_free hstart.1
  obtain ⟨⟨hlow, hhigh⟩, htwo⟩ := hstart
  unfold choosePid
  dsimp only
  rw [heq]
  revert hlow hhigh htwo
  generalize (if s.nextPid < 2 then 2 else s.nextPid) = n
  intro hlow hhigh htwo
  unfold maxProcesses at hk
  rw [int32_eq]
  split_ifs <;> omega

/-- A call of `rad_process_create` leaves the table, or takes a record; it answers with the pid, unless
that is negative and looks like an error. -/
theorem radProcessCreate_records (caller parentPid : Int) (path : List Char)
    (h : InRange s.nextPid) :
    InRange (radProcessCreate s caller parentPid path).2.nextPid ∧
      ((∃ i pid, Created s (radProcessCreate s caller parentPid path).2 i pid ∧ pid ≠ 0 ∧
          (radProcessCreate s caller parentPid path).1 = pid) ∨
        (radProcessCreate s caller parentPid path).1 < 0 ∧
          (radProcessCreate s caller parentPid path).2.processes = s.processes) := by
  refine ⟨(create_effect parentPid path h).2, ?_⟩
  have hpidFree := (choosePid_spec h).1
  have hinvalid : Status.invalidArgument.code < 0 := by decide
  have hmemory : Status.noMemory.code < 0 := by decide
  unfold radProcessCreate
  split_ifs with hpath hinit
  · exact .inr ⟨hinvalid, rfl⟩
  · cases hfree : freeProcess s with
    | none => exact .inr ⟨hmemory, rfl⟩
    | some i =>
      obtain ⟨hi, hunused⟩ := freeProcess_some hfree
      have hnone : findProcess s 1 = none := by simpa using hinit.2
      exact .inl ⟨i, 1, ⟨hi, by simpa using hunused, fun j hj => by simp [setProcess, hj],
        by simp [setProcess, initProcess], by simp [setProcess, initProcess],
        fun j hj hused => findProcess_none hnone hj hused⟩, by decide, rfl⟩
  · cases hfree : freeProcess s with
    | none => exact .inr ⟨hmemory, rfl⟩
    | some i =>
      obtain ⟨hi, hunused⟩ := freeProcess_some hfree
      obtain ⟨hpid, -, -, hused⟩ :=
        newProcess_fields s (choosePid s) (chooseParent s caller parentPid path) path
      exact .inl ⟨i, choosePid s, ⟨hi, by simpa using hunused, fun j hj => by simp [setProcess, hj],
        by simpa [setProcess] using hused, by simpa [setProcess] using hpid,
        fun j hj hused => findProcess_none hpidFree hj hused⟩, choosePid_ne_zero h, rfl⟩

/-- A wait takes the record that `nextReaped` finds. -/
theorem radProcessWaitpid_records (h : nextReaped s caller pid = some i) :
    i < maxProcesses ∧ (s.processes i).used = true ∧
      (radProcessWaitpid s caller pid).2.processes = Function.update s.processes i {} ∧
      (radProcessWaitpid s caller pid).2.nextPid = s.nextPid := by
  have hmem := List.mem_range.1 (List.mem_of_find?_eq_some h)
  have hp := List.find?_some h
  simp only [decide_eq_true_eq] at hp
  refine ⟨hmem, hp.1.1, ?_⟩
  unfold nextReaped at h
  unfold radProcessWaitpid
  dsimp only
  rw [h]
  obtain ⟨htable, hnext⟩ := SameTable.closeProcessFds s (s.processes i).pid false
  dsimp only
  exact ⟨by rw [htable], hnext⟩

end RadKernel.Process
