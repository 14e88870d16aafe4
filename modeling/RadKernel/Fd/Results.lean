import RadKernel.Fd.Sound
import RadKernel.Fd.Isolation

/-!
# Results about the descriptor table

The invariant of the table over whole runs, isolation of processes and what failed calls
leave behind, with the runs on which the code falls short of them.
-/

namespace RadKernel.Fd

open Kernel

variable {s : KernelState}

instance (fds : Nat → FdRecord) (pid requested : Int) : Decidable (Room fds pid requested) :=
  inferInstanceAs (Decidable (_ ∧ _ ∧ _))

/-! ## The table over whole runs -/

/-- The descriptor table is in order: names are unique, every slot is owned by a slot that
owns itself and has the same object, owners count their slots, used slots are descriptors,
and the open handles, pipe ends and sockets are those some descriptor stands for. -/
structure InOrder (s : KernelState) : Prop where
  named_once : ∀ i j, (s.fds i).used → (s.fds j).used →
    (s.fds i).ownerPid = (s.fds j).ownerPid → (s.fds i).localFd = (s.fds j).localFd → i = j
  owned : ∀ i, (s.fds i).used → ∃ o < maxPosixFds, (s.fds i).ownerFd = (o : Nat) ∧
    (s.fds o).used ∧ (s.fds o).ownerFd = o ∧ (s.fds o).toFdObject = (s.fds i).toFdObject
  counted : ∀ o : Nat, (s.fds o).used → (s.fds o).ownerFd = o → (s.fds o).refs =
    ((Finset.range maxPosixFds).filter fun i => (s.fds i).used ∧ (s.fds i).ownerFd = o).card
  descriptor : ∀ i, (s.fds i).used → 0 ≤ (s.fds i).localFd ∧ 0 ≤ (s.fds i).ownerPid ∧
    ∃ a, Denotes (s.fds i).toFdObject a
  objects : Backed s (held s.fds)

theorem Sound.inOrder (h : Sound s ∅) : InOrder s := by
  obtain ⟨slack, ht, he, hg⟩ := h
  refine ⟨fun i j hi hj => ?_, fun i hi => ?_, fun o hu ho => ?_, fun i hi => ?_, ?_⟩
  · exact ht.unique i j hi hj (he.named i hi).1
  · obtain ⟨o, ho⟩ := ht.linked i hi
    obtain ⟨-, howner, hlt⟩ := own_eq_some.1 ho
    obtain ⟨hused, hself, -⟩ := own_eq_some.1 (ht.valid.rooted i o ho)
    exact ⟨o, hlt, howner, hused, hself, (ht.same i o ho).symm⟩
  · have hown := ht.own_self_of_ownerFd hu ho
    have hcount := ht.valid.counted o hown
    have hmembers : Sharing.members maxPosixFds (own s.fds) o =
        (Finset.range maxPosixFds).filter fun i => (s.fds i).used ∧ (s.fds i).ownerFd = o := by
      ext i
      simp [Sharing.mem_members, own_eq_some, ht.lt hu]
    rw [hmembers, he.slack_zero] at hcount
    omega
  · obtain ⟨hloc, hpid⟩ := he.named i hi
    exact ⟨hloc, hpid, hg.shape.denotes i hi⟩
  · simpa using hg.backed

/-- In every run whose calls find room for their descriptors and replace no owner of the object
they duplicate, the table is in order in every state. -/
theorem inOrder_of_run (h : Reached (fun s c => Local c ∧ Apart s c ∧ HasRoom s c) s) :
    InOrder s := by
  have hinv : Sound s ∅ ∧ Cleared s := by
    refine h.invariant (J := fun s => Sound s ∅ ∧ Cleared s) ?_ ?_
    · exact fun console processes => ⟨sound_boot console processes, cleared_boot console processes⟩
    · rintro s c ⟨hsound, hcleared⟩ ⟨hlocal, hapart, hroom⟩
      refine ⟨perform_sound hsound hcleared hlocal hapart hroom, perform_cleared hcleared ?_⟩
      cases c with
      | sockets table => exact hlocal.elim
      | _ => trivial
  exact hinv.1.inOrder

/-- Process 1 opens a file, duplicates it and closes the first descriptor. -/
def openDupClose : KernelState :=
  (perform (perform (perform (boot true fun _ => {}) (.open 1 "/a".toList vfsRead .ok)).2
    (.dup 1 3)).2 (.close 1 3)).2

theorem inOrder_openDupClose : (findFdSlot openDupClose.fds 4 1 true).isSome ∧
    InOrder openDupClose := by
  refine ⟨by decide +kernel, inOrder_of_run ?_⟩
  refine .step _ (.step _ (.step _ (.boot true fun _ => {}) ?_) ?_) ?_
  · exact ⟨trivial, trivial, fun _ => by decide +kernel⟩
  · exact ⟨trivial, trivial, .inr (by decide +kernel)⟩
  · exact ⟨trivial, trivial, trivial⟩

/-- Process 1 opens a file, duplicates it and duplicates the copy back onto the original. -/
def openDupDup2 : KernelState :=
  (perform (perform (perform (boot false fun _ => {}) (.open 1 "/a".toList vfsRead .ok)).2
    (.dup 1 3)).2 (.dup2 1 4 3)).2

/-- The owner counts two references and is the only slot it owns. -/
theorem not_inOrder_openDupDup2 : ¬ ∀ s, Reached (fun _ c => Local c) s → InOrder s := by
  intro h
  have hrun : Reached (fun _ c => Local c) openDupDup2 :=
    .step _ (.step _ (.step _ (.boot false fun _ => {}) trivial) trivial) trivial
  have hcount := (h _ hrun).counted 0 (by decide +kernel) (by decide +kernel)
  revert hcount
  decide +kernel

/-! ## Isolation -/

theorem cleared_of_run (h : Reached (fun _ c => Traffic c) s) : Cleared s :=
  h.invariant cleared_boot fun _ _ hs hc => perform_cleared hs hc

/-- A call that fails because no descriptor can be installed leaves descriptors, counts, pipes,
sockets and handles as they were if it is one that rolls back, and only then. For
`rad_process_clone_fds` the second half is about a child without descriptors. -/
theorem same_iff_rollsBack (h : Reached (fun _ c => Traffic c) s) (c : Call) (hfull : Full s c) :
    (RollsBack c → SameDescriptors s (perform s c).2) ∧
    (NewChild s c → SameDescriptors s (perform s c).2 → RollsBack c) := by
  refine ⟨fun hc => ?_, fun hchild hsame => ?_⟩
  · refine perform_same (cleared_of_run h) hc ?_
    cases c with
    | pipe pid => exact hfull.2
    | socket pid domain type protocol => exact hfull.2.2.2
    | shmOpen pid name byteSize flags => exact hfull.2
    | _ => exact hc.elim
  · by_contra hc
    exact perform_changed hc hfull hchild hsame

/-- Process 1 opened a file until it had no number left. -/
def exhausted : KernelState :=
  (fun s => (perform s (.open 1 "/a".toList vfsRead .ok)).2)^[29] (boot true fun _ => {})

theorem reached_exhausted : Reached (fun _ c => Traffic c) exhausted := by
  have hrun : ∀ n, Reached (fun _ c => Traffic c)
      ((fun s => (perform s (.open 1 "/a".toList vfsRead .ok)).2)^[n] (boot true fun _ => {})) := by
    intro n
    induction n with
    | zero => exact .boot true fun _ => {}
    | succ n ih =>
      rw [Function.iterate_succ_apply']
      exact .step _ ih trivial
  exact hrun 29

theorem same_pipe_exhausted : Full exhausted (.pipe 1) ∧
    SameDescriptors exhausted (perform exhausted (.pipe 1)).2 := by
  have hfull : Full exhausted (.pipe 1) := ⟨⟨0, by decide, by decide +kernel⟩, by decide +kernel⟩
  exact ⟨hfull, (same_iff_rollsBack reached_exhausted (.pipe 1) hfull).1 trivial⟩

/-- Duplicating a descriptor of that process fails and counts a reference. -/
theorem not_same_dup_exhausted : ¬ ∀ s, Reached (fun _ c => Traffic c) s → ∀ c, Full s c →
    SameDescriptors s (perform s c).2 := by
  intro h
  have hfull : Full exhausted (.dup 1 3) := ⟨by decide +kernel, by decide +kernel⟩
  exact perform_changed (by simp [RollsBack]) hfull trivial (h _ reached_exhausted _ hfull)

end RadKernel.Fd
