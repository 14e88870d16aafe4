import RadKernel.Process.Life

/-!
# Parents in the table

`rad_process_create` gives a process without a parent to pid 1, but nothing is done for the
children of a process when it exits or is reaped. A record whose parent is gone matches no
caller of `rad_process_waitpid` and keeps its slot.
-/

namespace RadKernel.Process

open Kernel Fd Function

variable {s : KernelState} {caller : Int} {call : Call} {i j : Nat}

/-- Every process but the first two has a parent in the table, and if it is a zombie, that
parent's wait reaps it. -/
structure Parented (s : KernelState) : Prop where
  parent : ∀ i < maxProcesses, (s.processes i).used → 1 < (s.processes i).pid →
    ∃ j < maxProcesses, (s.processes j).used ∧ (s.processes j).pid = (s.processes i).parentPid
  reapable : ∀ i < maxProcesses, isZombie (s.processes i) → 1 < (s.processes i).pid →
    Reapable s i

/-- The first zombie child of the caller that a wait for `pid` would take. -/
def nextReaped (s : KernelState) (caller pid : Int) : Option Nat :=
  (List.range maxProcesses).find? fun i =>
    ((s.processes i).used ∧ (s.processes i).parentPid = caller ∧
      (0 < pid → (s.processes i).pid = pid)) ∧ (s.processes i).state = .zombie

/-- No other process in the table is a child of record `i`. -/
def Childless (s : KernelState) (i : Nat) : Prop :=
  ∀ j < maxProcesses, j ≠ i → (s.processes j).used → 1 < (s.processes j).pid →
    (s.processes j).parentPid ≠ (s.processes i).pid

/-- The call leaves no process without its parent: a new process is given one that is in the
table, and a process is reaped after its children. -/
def KeepsParents (s : KernelState) (caller : Int) : Call → Prop
  | .create parentPid path => path ≠ [] → (freeProcess s).isSome →
      (isInit path → (findProcess s 1).isSome) →
        (findProcess s (chooseParent s caller parentPid path)).isSome
  | .waitpid pid => ∀ i ∈ nextReaped s caller pid, Childless s i
  | _ => True

instance (s : KernelState) (i : Nat) : Decidable (Childless s i) :=
  inferInstanceAs (Decidable (∀ j < maxProcesses, j ≠ i → (s.processes j).used →
    1 < (s.processes j).pid → (s.processes j).parentPid ≠ (s.processes i).pid))

instance (s : KernelState) (caller : Int) : ∀ call : Call, Decidable (KeepsParents s caller call)
  | .create parentPid path => inferInstanceAs (Decidable (path ≠ [] → (freeProcess s).isSome →
      (isInit path → (findProcess s 1).isSome) →
        (findProcess s (chooseParent s caller parentPid path)).isSome))
  | .waitpid pid => inferInstanceAs (Decidable (∀ i ∈ nextReaped s caller pid, Childless s i))
  | .exit _ | .kill _ _ | .markExec _ _ | .execve _ _ => isTrue trivial

def callStep (s : KernelState) (e : Int × Call) : KernelState := (e.2.perform e.1 s).2

def Booted (s : KernelState) : Prop := s.processes = bootProcesses ∧ s.nextPid = 2

/-- Records in use have distinct pids and their parents. -/
structure Tree (s : KernelState) : Prop where
  nextPid : InRange s.nextPid
  distinct : Distinct s
  parent : ∀ i < maxProcesses, (s.processes i).used → 1 < (s.processes i).pid →
    ∃ j < maxProcesses, (s.processes j).used ∧ (s.processes j).pid = (s.processes i).parentPid

theorem booted_tree (h : Booted s) : Tree s := by
  obtain ⟨htable, hnext⟩ := h
  refine ⟨by rw [hnext]; unfold InRange; omega, distinct_boot htable, fun i _ hused hpid => ?_⟩
  rw [htable, bootProcesses] at hpid
  split_ifs at hpid <;> simp at hpid

/-- What `rad_process_waitpid` takes is the record `nextReaped` finds. -/
theorem nextReaped_of_reaped {pid : Int} (hused : (s.processes i).used)
    (htable : (radProcessWaitpid s caller pid).2.processes = update s.processes i {}) :
    nextReaped s caller pid = some i := by
  have hgone : ¬((radProcessWaitpid s caller pid).2.processes i).used := by
    rw [htable, update_self]
    simp
  revert hgone
  unfold radProcessWaitpid nextReaped
  dsimp only
  split
  case h_1 k hfind =>
    intro hgone
    rw [hfind]
    congr
    by_contra hne
    have hsame := (SameTable.closeProcessFds s (s.processes k).pid false).1
    dsimp only at hgone
    rw [hsame, update_of_ne (fun h => hne h.symm)] at hgone
    exact hgone hused
  case h_2 =>
    split_ifs
    · exact fun hgone => absurd hused hgone
    · exact fun hgone => absurd hused hgone

theorem Tree.step (h : Tree s) (hkeeps : KeepsParents s caller call) :
    Tree (call.perform caller s).2 := by
  obtain ⟨he, hnext⟩ := perform_effect caller call h.nextPid
  refine ⟨hnext, h.distinct.step he, fun i hi hused hpid => ?_⟩
  cases he with
  | kept same _ =>
    rw [(same i).used] at hused
    rw [(same i).pid] at hpid
    obtain ⟨j, hj, hjused, hjpid⟩ := h.parent i hi hused hpid
    exact ⟨j, hj, by rw [(same j).used]; exact hjused,
      by rw [(same j).pid, (same i).parentPid, hjpid]⟩
  | born parentPid path k r isCreate inTable free table used running fresh stored parent =>
    have hold : ∀ j < maxProcesses, (s.processes j).used →
        ((call.perform caller s).2.processes j) = s.processes j := by
      intro j _ hj
      rw [table, update_of_ne]
      rintro rfl
      exact free hj
    -- the parent is in the table before the call, for old records and for the new one
    have hparent : ∃ j < maxProcesses, (s.processes j).used ∧
        (s.processes j).pid = ((call.perform caller s).2.processes i).parentPid := by
      by_cases hik : i = k
      · subst hik
        rw [table, update_self] at hpid ⊢
        subst isCreate
        obtain ⟨hinit, hchosen⟩ := parent hpid
        obtain ⟨j, hj⟩ := Option.isSome_iff_exists.1 (hkeeps stored.1 stored.2 hinit)
        rw [hchosen]
        exact ⟨j, findProcess_some hj⟩
      · rw [table, update_of_ne hik] at hused hpid ⊢
        exact h.parent i hi hused hpid
    obtain ⟨j, hj, hjused, hjpid⟩ := hparent
    exact ⟨j, hj, by rw [hold j hj hjused]; exact hjused, by rw [hold j hj hjused, hjpid]⟩
  | reaped pid k isWaitpid inTable kused zombie child returned table =>
    subst isWaitpid
    have hik : i ≠ k := by
      rintro rfl
      rw [table] at hused
      simp at hused
    rw [table, update_of_ne hik] at hused hpid ⊢
    obtain ⟨j, hj, hjused, hjpid⟩ := h.parent i hi hused hpid
    have hchildless := hkeeps k (nextReaped_of_reaped kused table)
    have hjk : j ≠ k := by
      rintro rfl
      exact hchildless i hi hik hused hpid hjpid.symm
    exact ⟨j, hj, by rw [update_of_ne hjk]; exact hjused,
      by rw [update_of_ne hjk, hjpid]⟩

/-- In every run that reaps no process before its children and names parents in the table, every
process has its parent in the table and every zombie can be reaped. -/
theorem parented_of_run
    (h : Run (Obeys callStep fun s e => KeepsParents s e.1 e.2) Booted s) : Parented s := by
  have htree : Tree s := by
    refine h.invariant (fun s => booted_tree) ?_
    rintro s ⟨caller, call⟩ _ hs ⟨hkeeps, rfl⟩
    exact hs.step hkeeps
  exact ⟨htree.parent, fun i hi hz hpid => htree.distinct.reapable hi hz (by omega)⟩

/-- The kernel just started. -/
def bootKernel : KernelState := { processes := bootProcesses }

theorem parented_waitedFor : Parented (waitedFor.foldl callStep bootKernel) :=
  parented_of_run (.along waitedFor (.start ⟨rfl, rfl⟩) (by decide +kernel))

/-- The first process begins a shell, the shell begins a child and exits, and the first process
reaps the shell: the child's parent is gone. -/
theorem not_parented_orphan : ¬∀ s, Run (Obeys callStep fun _ _ => True) Booted s → Parented s := by
  intro h
  have hrun := h _ (.along (s := bootKernel) [(0, .create 0 "/bin/init".toList),
    (1, .create 1 "/bin/sh".toList), (2, .create 2 "/bin/ls".toList), (2, .exit 0),
    (1, .waitpid 2)] (.start ⟨rfl, rfl⟩) (by simp [Along]))
  have hparent := hrun.parent 3 (by decide) (by decide +kernel) (by decide +kernel)
  revert hparent
  decide +kernel

end RadKernel.Process
