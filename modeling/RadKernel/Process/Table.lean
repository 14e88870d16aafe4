import Mathlib.Data.Fintype.Card
import RadKernel.Fd.Frame
import RadKernel.Process.Model

/-!
# What the process calls do to the process table

A call leaves the table alone, changes state and exit code of records in use, puts a record
with a new pid into a free slot, or clears one record. `perform_effect` says which, for every
call; later proofs use it in place of the calls.
-/

namespace RadKernel.Process

open Kernel Fd Function

variable {s t : KernelState} {caller pid : Int} {i j : Nat}

/-! ## Descriptors leave the table alone -/

/-- Nothing changed about the processes. -/
def SameTable (s t : KernelState) : Prop := t.processes = s.processes ∧ t.nextPid = s.nextPid

namespace SameTable

theorem refl (s : KernelState) : SameTable s s := ⟨rfl, rfl⟩

theorem trans {u : KernelState} (h : SameTable s t) (h' : SameTable t u) : SameTable s u :=
  ⟨h'.1.trans h.1, h'.2.trans h.2⟩

theorem ignores (s : KernelState) : Ignores (SameTable s) where
  table _ _ h := h
  handles _ _ h := h
  pipe t k w h := by
    unfold closePipeEnd
    split <;> exact h
  socket := closeSocket_rule (fun _ _ h => h) fun _ _ _ h => h

theorem closeProcessFds (s : KernelState) (pid : Int) (exec : Bool) :
    SameTable s (closeProcessFds s pid exec) :=
  (ignores s).survives.closeProcessFds (refl s) pid exec

end SameTable

/-! ## Looking records up -/

theorem findProcess_some (h : findProcess s pid = some i) :
    i < maxProcesses ∧ (s.processes i).used ∧ (s.processes i).pid = pid := by
  have hmem := List.mem_of_find?_eq_some h
  have hp := List.find?_some h
  simp only [List.mem_range] at hmem
  simp only [decide_eq_true_eq] at hp
  exact ⟨hmem, hp⟩

theorem findProcess_none (h : findProcess s pid = none) (hi : i < maxProcesses)
    (hused : (s.processes i).used) : (s.processes i).pid ≠ pid := by
  intro hpid
  have := List.find?_eq_none.1 h i (List.mem_range.2 hi)
  simp [hused, hpid] at this

theorem freeProcess_some (h : freeProcess s = some i) :
    i < maxProcesses ∧ ¬(s.processes i).used := by
  have hmem := List.mem_of_find?_eq_some h
  have hp := List.find?_some h
  exact ⟨List.mem_range.1 hmem, by simpa using hp⟩

/-! ## The next pid -/

/-- `next_pid` is an `int32_t`. -/
def InRange (n : Int) : Prop := -2147483648 ≤ n ∧ n < 2147483648

theorem int32_eq (n : Int) :
    int32 n = if n % 4294967296 < 2147483648 then n % 4294967296
      else n % 4294967296 - 4294967296 := by
  simp [int32, Int.bmod]

theorem int32_inRange (n : Int) : InRange (int32 n) := by
  rw [InRange, int32_eq]
  split_ifs <;> omega

variable {n : Int} {result : Int × Int}

theorem int32_of_inRange (h : InRange n) : int32 n = n := by
  unfold InRange at h
  rw [int32_eq]
  split_ifs <;> omega

theorem int32_succ (n : Int) (k : Nat) : int32 (int32 (n + 1) + k) = int32 (n + (k + 1 : Nat)) := by
  unfold int32
  rw [Int.bmod_add_bmod]
  congr 1
  omega

theorem int32_injOn {k : Nat} (hj : j ≤ maxProcesses) (hk : k ≤ maxProcesses)
    (h : int32 (n + j) = int32 (n + k)) : j = k := by
  rw [int32_eq, int32_eq] at h
  unfold maxProcesses at hj hk
  split_ifs at h <;> omega

/-- The loop stops at one of the pids it passes, all earlier ones are taken, and so is the
last unless the loop stopped early. -/
theorem skipTaken_spec (rounds : Nat) (hpid : InRange pid) :
    ∃ k ≤ rounds, skipTaken s rounds pid = int32 (pid + k) ∧
      (∀ j < k, (findProcess s (int32 (pid + j))).isSome) ∧
      (k = rounds ∨ findProcess s (int32 (pid + k)) = none) := by
  induction rounds generalizing pid with
  | zero =>
    refine ⟨0, le_rfl, ?_, by simp, .inl rfl⟩
    simp [skipTaken, int32_of_inRange hpid]
  | succ rounds ih =>
    unfold skipTaken
    split_ifs with htaken
    · obtain ⟨k, hk, heq, htakens, hstop⟩ := ih (int32_inRange (pid + 1))
      simp only [int32_succ] at heq htakens hstop
      refine ⟨k + 1, by omega, heq, ?_, ?_⟩
      · intro j hj
        cases j with
        | zero => simpa [int32_of_inRange hpid] using htaken
        | succ j => exact htakens j (by omega)
      · exact hstop.imp (by omega) id
    · refine ⟨0, by omega, by simp [int32_of_inRange hpid], by simp, .inr ?_⟩
      simpa [int32_of_inRange hpid] using htaken

/-- There are more pids to pass than records, so the loop ends at one that is free. -/
theorem skipTaken_free (hpid : InRange pid) :
    ∃ k ≤ maxProcesses, skipTaken s maxProcesses pid = int32 (pid + k) ∧
      findProcess s (int32 (pid + k)) = none := by
  obtain ⟨k, hk, heq, htaken, hstop⟩ := skipTaken_spec maxProcesses hpid
  refine ⟨k, hk, heq, ?_⟩
  by_contra hlast
  have hall : ∀ j : Fin (maxProcesses + 1), ∃ i : Fin maxProcesses,
      (s.processes i).pid = int32 (pid + (j : Nat)) := by
    intro j
    have hj : (findProcess s (int32 (pid + (j : Nat)))).isSome := by
      obtain rfl : k = maxProcesses := hstop.resolve_right hlast
      by_cases hlt : (j : Nat) < maxProcesses
      · exact htaken j hlt
      · have hjk : (j : Nat) = maxProcesses := by have := j.isLt; omega
        rw [hjk]
        exact Option.isSome_iff_ne_none.2 hlast
    obtain ⟨i, hi⟩ := Option.isSome_iff_exists.1 hj
    obtain ⟨hlt, -, hp⟩ := findProcess_some hi
    exact ⟨⟨i, hlt⟩, hp⟩
  choose f hf using hall
  have hinj : Function.Injective f := by
    intro a b hab
    have h : int32 (pid + (a : Nat)) = int32 (pid + (b : Nat)) := by rw [← hf a, ← hf b, hab]
    exact Fin.ext (int32_injOn (by omega) (by omega) h)
  have := Fintype.card_le_of_injective f hinj
  simp only [Fintype.card_fin] at this
  omega

theorem choosePid_spec (h : InRange s.nextPid) :
    findProcess s (choosePid s) = none ∧ InRange (choosePid s) := by
  have hstart : InRange (if s.nextPid < 2 then 2 else s.nextPid) ∧
      2 ≤ if s.nextPid < 2 then 2 else s.nextPid := by
    unfold InRange at h ⊢
    split_ifs <;> omega
  obtain ⟨k, hk, heq, hfree⟩ := skipTaken_free (s := s) hstart.1
  have hne : int32 ((if s.nextPid < 2 then 2 else s.nextPid) + k) ≠ 1 := by
    obtain ⟨⟨hlow, hhigh⟩, htwo⟩ := hstart
    revert hlow hhigh htwo
    generalize (if s.nextPid < 2 then 2 else s.nextPid) = n
    intro hlow hhigh htwo
    unfold maxProcesses at hk
    rw [int32_eq]
    split_ifs <;> omega
  have hpid : choosePid s = int32 ((if s.nextPid < 2 then 2 else s.nextPid) + k) := by
    simp only [choosePid, heq, if_neg hne]
  rw [hpid]
  exact ⟨hfree, int32_inRange _⟩

/-! ## Calls -/

/-- The calls that begin, change and end processes. `execve` carries what `rad_vfs_stat` said
about its path; `waitpid` is one pass over the table. -/
inductive Call where
  | create (parentPid : Int) (path : List Char)
  | exit (status : Int)
  | kill (pid signal : Int)
  | markExec (pid : Int) (path : List Char)
  | execve (path : List Char) (stat : Status × Bool)
  | waitpid (pid : Int)
  deriving DecidableEq, Repr

namespace Call

/-- The value a call returns, the exit status it stores for the caller, and the new state. -/
def perform (caller : Int) (s : KernelState) : Call → (Int × Int) × KernelState
  | create parentPid path =>
    (((radProcessCreate s caller parentPid path).1, 0), (radProcessCreate s caller parentPid path).2)
  | exit status => ((0, 0), radProcessExit s caller status)
  | kill pid signal =>
    (((radProcessKill s caller pid signal).1, 0), (radProcessKill s caller pid signal).2)
  | markExec pid path =>
    (((radProcessMarkExec s pid path).1, 0), (radProcessMarkExec s pid path).2)
  | execve path stat =>
    (((radProcessExecve s caller path stat).1, 0), (radProcessExecve s caller path stat).2)
  | waitpid pid => radProcessWaitpid s caller pid

/-- The record of the process, if there is one, is no zombie. -/
def NotZombie (s : KernelState) (pid : Int) : Prop :=
  ∀ i ∈ findProcess s pid, (s.processes i).state ≠ .zombie

/-- The call does not overwrite the record of a zombie: `rad_process_exit` is not made by one,
unless with the status it has already, and `rad_process_mark_exec` and `rad_process_execve` are
not for one. -/
def LeavesZombies (s : KernelState) (caller : Int) : Call → Prop
  | exit status => caller ≠ 0 → ∀ i ∈ findProcess s caller, (s.processes i).state = .zombie →
      (s.processes i).exitCode = posixWaitExitStatus status
  | markExec pid path => 0 < pid → path ≠ [] → NotZombie s pid
  | execve path stat => 0 < caller → path ≠ [] → stat = (.ok, false) → NotZombie s caller
  | _ => True

instance (s : KernelState) (pid : Int) : Decidable (NotZombie s pid) :=
  inferInstanceAs (Decidable (∀ i ∈ findProcess s pid, (s.processes i).state ≠ .zombie))

instance (s : KernelState) (caller : Int) : ∀ call : Call, Decidable (call.LeavesZombies s caller)
  | exit status => inferInstanceAs (Decidable (caller ≠ 0 → ∀ i ∈ findProcess s caller,
      (s.processes i).state = .zombie → (s.processes i).exitCode = posixWaitExitStatus status))
  | markExec pid path => inferInstanceAs (Decidable (0 < pid → path ≠ [] → NotZombie s pid))
  | execve path stat => inferInstanceAs (Decidable
      (0 < caller → path ≠ [] → stat = (.ok, false) → NotZombie s caller))
  | create _ _ | kill _ _ | waitpid _ => isTrue trivial

end Call

/-- The record stands for the same process. -/
structure SameProcess (r r' : ProcessRecord) : Prop where
  used : r'.used = r.used
  pid : r'.pid = r.pid
  parentPid : r'.parentPid = r.parentPid

theorem SameProcess.refl (r : ProcessRecord) : SameProcess r r := ⟨rfl, rfl, rfl⟩

/-- What a call did to the table. -/
inductive Effect (s t : KernelState) (caller : Int) (call : Call) (result : Int × Int) : Prop
  | kept (same : ∀ i, SameProcess (s.processes i) (t.processes i))
      (zombies : call.LeavesZombies s caller → ∀ i, (s.processes i).state = .zombie →
        i < maxProcesses → (s.processes i).used → t.processes i = s.processes i)
  | born (parentPid : Int) (path : List Char) (i : Nat) (r : ProcessRecord)
      (isCreate : call = .create parentPid path) (inTable : i < maxProcesses)
      (free : ¬(s.processes i).used) (table : t.processes = Function.update s.processes i r)
      (used : r.used) (running : r.state = .running)
      (fresh : ∀ j < maxProcesses, (s.processes j).used → (s.processes j).pid ≠ r.pid)
      (stored : path ≠ [] ∧ (freeProcess s).isSome)
      (parent : 1 < r.pid → (isInit path → (findProcess s 1).isSome) ∧
        r.parentPid = chooseParent s caller parentPid path)
  | reaped (pid : Int) (i : Nat) (isWaitpid : call = .waitpid pid) (inTable : i < maxProcesses)
      (used : (s.processes i).used) (zombie : (s.processes i).state = .zombie)
      (child : (s.processes i).parentPid = caller)
      (returned : result = ((s.processes i).pid, (s.processes i).exitCode))
      (table : t.processes = Function.update s.processes i {})

/-! ## The effect of each call -/

variable {call : Call}

theorem Effect.of_same (h : t.processes = s.processes) : Effect s t caller call result :=
  .kept (fun i => by rw [h]; exact .refl _) (fun _ i _ _ _ => by rw [h])

theorem Effect.of_update {r : ProcessRecord}
    (h : t.processes = update s.processes i r) (hsame : SameProcess (s.processes i) r)
    (hzombie : call.LeavesZombies s caller → (s.processes i).state = .zombie →
      r = s.processes i) : Effect s t caller call result := by
  refine .kept (fun j => ?_) (fun hleaves j hj _ _ => ?_)
  · rw [h]
    by_cases hji : j = i
    · subst hji
      simpa using hsame
    · simpa [hji] using SameProcess.refl _
  · rw [h]
    by_cases hji : j = i
    · subst hji
      simpa using hzombie hleaves hj
    · simp [hji]

theorem newProcess_fields (s : KernelState) (pid parentPid : Int) (path : List Char) :
    (newProcess s pid parentPid path).pid = pid ∧
      (newProcess s pid parentPid path).parentPid = parentPid ∧
      (newProcess s pid parentPid path).state = .running ∧
      (newProcess s pid parentPid path).used := by
  unfold newProcess
  cases findProcess s parentPid <;> simp

theorem create_effect (parentPid : Int) (path : List Char) (h : InRange s.nextPid) :
    Effect s (radProcessCreate s caller parentPid path).2 caller (.create parentPid path)
        ((radProcessCreate s caller parentPid path).1, 0) ∧
      InRange (radProcessCreate s caller parentPid path).2.nextPid := by
  obtain ⟨hpidFree, hpidRange⟩ := choosePid_spec h
  unfold radProcessCreate
  split_ifs with hpath hinit
  · exact ⟨.of_same rfl, h⟩
  · cases hfree : freeProcess s with
    | none => exact ⟨.of_same rfl, h⟩
    | some i =>
      obtain ⟨hi, hunused⟩ := freeProcess_some hfree
      refine ⟨.born parentPid path i (initProcess path) rfl hi hunused rfl rfl rfl ?_
        ⟨hpath, by simp [hfree]⟩ ?_, h⟩
      · intro j hj hused
        have hnone : findProcess s 1 = none := by simpa using hinit.2
        exact findProcess_none hnone hj hused
      · intro hpid
        simp [initProcess] at hpid
  · cases hfree : freeProcess s with
    | none => exact ⟨.of_same rfl, hpidRange⟩
    | some i =>
      obtain ⟨hi, hunused⟩ := freeProcess_some hfree
      obtain ⟨hpid, hparent, hstate, hused⟩ :=
        newProcess_fields s (choosePid s) (chooseParent s caller parentPid path) path
      refine ⟨.born parentPid path i _ rfl hi hunused rfl hused hstate ?_
        ⟨hpath, by simp [hfree]⟩ fun _ => ⟨fun hisInit => ?_, hparent⟩, int32_inRange _⟩
      · intro j hj husedj
        rw [hpid]
        exact findProcess_none hpidFree hj husedj
      · simpa [hisInit, Option.isSome_iff_ne_none] using hinit

theorem exit_effect (s : KernelState) (caller status : Int) (result : Int × Int) :
    Effect s (radProcessExit s caller status) caller (.exit status) result ∧
      (radProcessExit s caller status).nextPid = s.nextPid := by
  unfold radProcessExit
  split_ifs with hcaller
  · exact ⟨.of_same rfl, rfl⟩
  · cases hfind : findProcess s caller with
    | none => exact ⟨.of_same rfl, rfl⟩
    | some i =>
      refine ⟨.of_update rfl ⟨rfl, rfl, rfl⟩ fun hleaves hzombie => ?_, rfl⟩
      rw [← hleaves hcaller i hfind hzombie, ← hzombie]

/-- The loop turns records that are no zombies into zombies and touches nothing else. -/
theorem killFrom_spec (group pid signal : Int) (records : List Nat) (delivered : Bool)
    (s : KernelState) :
    (∀ i, SameProcess (s.processes i)
        ((killFrom group pid signal records delivered s).2.processes i) ∧
      ((s.processes i).state = .zombie →
        (killFrom group pid signal records delivered s).2.processes i = s.processes i)) ∧
      (killFrom group pid signal records delivered s).2.nextPid = s.nextPid := by
  induction records generalizing delivered s with
  | nil => exact ⟨fun i => ⟨.refl _, fun _ => rfl⟩, rfl⟩
  | cons k records ih =>
    unfold killFrom
    dsimp only
    split_ifs with htarget hzombie hgroup hgroup
    · exact ih delivered s
    · exact ih delivered s
    · exact ⟨fun i => ⟨.refl _, fun _ => rfl⟩, rfl⟩
    all_goals
      set r : ProcessRecord := { s.processes k with
        state := .zombie, exitCode := posixWaitSignalStatus signal } with hr
      have hset : ∀ i, SameProcess (s.processes i) ((setProcess s k r).processes i) ∧
          ((s.processes i).state = .zombie → (setProcess s k r).processes i = s.processes i) := by
        intro i
        by_cases hik : i = k
        · subst hik
          exact ⟨by simpa [setProcess, hr] using ⟨rfl, rfl, rfl⟩, fun h => absurd h hzombie⟩
        · simpa [setProcess, hik] using SameProcess.refl _
    · exact ⟨hset, rfl⟩
    · obtain ⟨hrest, hnext⟩ := ih true (setProcess s k r)
      refine ⟨fun i => ⟨?_, fun h => ?_⟩, hnext⟩
      · have h1 := (hset i).1
        have h2 := (hrest i).1
        exact ⟨h2.used.trans h1.used, h2.pid.trans h1.pid, h2.parentPid.trans h1.parentPid⟩
      · have h1 := (hset i).2 h
        rw [(hrest i).2 (by rw [h1]; exact h), h1]

theorem kill_effect (s : KernelState) (caller pid signal : Int) (result : Int × Int) :
    Effect s (radProcessKill s caller pid signal).2 caller (.kill pid signal) result ∧
      (radProcessKill s caller pid signal).2.nextPid = s.nextPid := by
  have hkill : ∀ group, Effect s (killFrom group pid signal (List.range maxProcesses) false s).2
      caller (.kill pid signal) result ∧
      (killFrom group pid signal (List.range maxProcesses) false s).2.nextPid = s.nextPid := by
    intro group
    obtain ⟨hrecords, hnext⟩ := killFrom_spec group pid signal (List.range maxProcesses) false s
    exact ⟨.kept (fun i => (hrecords i).1) (fun _ i h _ _ => (hrecords i).2 h), hnext⟩
  unfold radProcessKill
  split_ifs
  · exact ⟨.of_same rfl, rfl⟩
  · exact hkill _
  · exact hkill _
  · exact ⟨.of_same rfl, rfl⟩
  · exact hkill _

theorem markExec_effect {call : Call} (pid : Int) (path : List Char) (result : Int × Int)
    (hleaves : call.LeavesZombies s caller → 0 < pid → path ≠ [] → Call.NotZombie s pid) :
    Effect s (radProcessMarkExec s pid path).2 caller call result ∧
      (radProcessMarkExec s pid path).2.nextPid = s.nextPid := by
  unfold radProcessMarkExec
  split_ifs with hargs
  · exact ⟨.of_same rfl, rfl⟩
  · push Not at hargs
    cases hfind : findProcess s pid with
    | none => exact ⟨.of_same rfl, rfl⟩
    | some i =>
      obtain ⟨htable, hnext⟩ := SameTable.closeProcessFds (setProcess s i
        { s.processes i with path := path, state := .running, exitCode := 0 }) pid true
      refine ⟨.of_update htable ⟨rfl, rfl, rfl⟩ fun hc hzombie => ?_, hnext⟩
      exact absurd hzombie (hleaves hc hargs.1 hargs.2 i hfind)

theorem waitpid_effect (pid : Int) :
    Effect s (radProcessWaitpid s caller pid).2 caller (.waitpid pid)
        (radProcessWaitpid s caller pid).1 ∧
      (radProcessWaitpid s caller pid).2.nextPid = s.nextPid := by
  unfold radProcessWaitpid
  dsimp only
  split
  case h_1 i hfind =>
    have hmem := List.mem_range.1 (List.mem_of_find?_eq_some hfind)
    have hp := List.find?_some hfind
    simp only [decide_eq_true_eq] at hp
    obtain ⟨⟨hused, hparent, -⟩, hzombie⟩ := hp
    obtain ⟨htable, hnext⟩ := SameTable.closeProcessFds s (s.processes i).pid false
    dsimp only
    exact ⟨.reaped pid i rfl hmem hused hzombie hparent rfl (by rw [htable]), hnext⟩
  case h_2 => split_ifs <;> exact ⟨.of_same rfl, rfl⟩

/-- Every call has one of the effects, and `next_pid` stays an `int32_t`. -/
theorem perform_effect (caller : Int) (call : Call) (h : InRange s.nextPid) :
    Effect s (call.perform caller s).2 caller call (call.perform caller s).1 ∧
      InRange (call.perform caller s).2.nextPid := by
  have hkeep : ∀ {t : KernelState} {result : Int × Int},
      Effect s t caller call result ∧ t.nextPid = s.nextPid →
        Effect s t caller call result ∧ InRange t.nextPid := by
    intro t result ht
    exact ⟨ht.1, by rw [ht.2]; exact h⟩
  cases call with
  | create parentPid path => exact create_effect parentPid path h
  | exit status => exact hkeep (exit_effect s caller status _)
  | kill pid signal => exact hkeep (kill_effect s caller pid signal _)
  | markExec pid path => exact hkeep (markExec_effect pid path _ fun hleaves => hleaves)
  | execve path stat =>
    simp only [Call.perform]
    unfold radProcessExecve
    split_ifs with hpath hstat hdir
    · exact ⟨.of_same rfl, h⟩
    · exact ⟨.of_same rfl, h⟩
    · exact ⟨.of_same rfl, h⟩
    · refine hkeep (markExec_effect caller path _ fun hleaves hpid hne => ?_)
      obtain ⟨status, directory⟩ := stat
      exact hleaves hpid hne (by simp_all)
  | waitpid pid => exact hkeep (waitpid_effect pid)

/-! ## Pids are distinct -/

def Distinct (s : KernelState) : Prop :=
  ∀ i < maxProcesses, ∀ j < maxProcesses, (s.processes i).used → (s.processes j).used →
    (s.processes i).pid = (s.processes j).pid → i = j

theorem Distinct.step (h : Distinct s) (he : Effect s t caller call result) : Distinct t := by
  intro i hi j hj hui huj hpid
  cases he with
  | kept same _ =>
    rw [(same i).used] at hui
    rw [(same j).used] at huj
    rw [(same i).pid, (same j).pid] at hpid
    exact h i hi j hj hui huj hpid
  | born _ _ k r _ _ _ table _ _ fresh _ _ =>
    rw [table] at hui huj hpid
    by_cases hik : i = k <;> by_cases hjk : j = k
    · rw [hik, hjk]
    · rw [hik, update_self, update_of_ne hjk] at hpid
      rw [update_of_ne hjk] at huj
      exact absurd hpid.symm (fresh j hj huj)
    · rw [hjk, update_self, update_of_ne hik] at hpid
      rw [update_of_ne hik] at hui
      exact absurd hpid (fresh i hi hui)
    · rw [update_of_ne hik] at hui hpid
      rw [update_of_ne hjk] at huj hpid
      exact h i hi j hj hui huj hpid
  | reaped _ k _ _ _ _ _ _ table =>
    rw [table] at hui huj hpid
    have hik : i ≠ k := by
      rintro rfl
      simp at hui
    have hjk : j ≠ k := by
      rintro rfl
      simp at huj
    rw [update_of_ne hik] at hui hpid
    rw [update_of_ne hjk] at huj hpid
    exact h i hi j hj hui huj hpid

theorem distinct_boot (h : s.processes = bootProcesses) : Distinct s := by
  have hused : ∀ i, (s.processes i).used → i = 0 := by
    intro i hi
    rw [h, bootProcesses] at hi
    by_contra hne
    simp [hne] at hi
  intro i _ j _ hi hj _
  rw [hused i hi, hused j hj]

end RadKernel.Process
