import RadKernel.Fd.Calls

/-!
# Properties that do not look at descriptors

A property that ignores the descriptor table and is kept when a pipe end or a socket is closed is
kept by every call that installs, shares or closes descriptors.
-/

namespace RadKernel.Fd

open Kernel

variable {P : KernelState → Prop} {s : KernelState} {fds : Nat → FdRecord} {i o : Nat} {pid : Int}

theorem fdOwnerIndex_used (h : fdOwnerIndex fds i = some o) : (fds o).used = true := by
  unfold fdOwnerIndex at h
  split at h
  · simp at h
  · rename_i hi
    have hu : (fds i).used = true := by
      by_contra hu
      simp [hu] at hi
    split at h
    · split at h
      · rename_i q _ hq
        obtain rfl : q = o := by simpa using h
        exact hq
      · obtain rfl : i = o := by simpa using h
        exact hu
    · obtain rfl : i = o := by simpa using h
      exact hu

theorem resolve_used {n : Int} (h : resolve fds n pid = some (i, o)) : (fds o).used = true :=
  fdOwnerIndex_used (resolve_eq_some.1 h).2

theorem socketFromFd_used {fd : Int} {l : Nat} (h : socketFromFd s pid fd = some l) :
    (s.sockets l).used = true := by
  unfold socketFromFd at h
  split at h
  · split_ifs at h with hsock
    obtain rfl := Option.some.inj h
    exact hsock.2.2
  · simp at h

/-- The property is kept when a slot is closed and when a record in use is put into a slot. -/
structure Survives (P : KernelState → Prop) : Prop where
  close : ∀ s fd, P s → P (closeFdIndex s fd)
  put : ∀ s i r, r.used = true → P s → P (setFd s i r)

namespace Survives

section
variable (h : Survives P) (hs : P s)
include h hs

theorem placeFdRecord (source : FdRecord) (pid localFd : Int) :
    P (placeFdRecord s source pid localFd).2 := by
  unfold Fd.placeFdRecord
  split
  · exact h.put _ _ _ rfl hs
  · exact hs

theorem install (caller : Int) (source : FdRecord) (requested : Int) :
    P (installFdRecord s caller source requested).2 := by
  unfold installFdRecord
  dsimp only
  split
  · split
    · exact h.placeFdRecord hs _ _ _
    · exact hs
  · split
    · exact hs
    · split
      · exact h.placeFdRecord (h.close _ _ hs) _ _ _
      · exact h.placeFdRecord hs _ _ _

theorem countRef (ho : (s.fds o).used = true) : P (countRef s o) :=
  h.put _ _ _ ho hs

theorem radFdClose (pid fd : Int) : P (radFdClose s pid fd).2 := by
  unfold Fd.radFdClose
  split
  · exact hs
  · exact h.close _ _ hs

theorem radFdDup (pid fd : Int) : P (radFdDup s pid fd).2 := by
  unfold Fd.radFdDup
  split
  · exact hs
  · next hres => exact h.install (h.countRef hs (resolve_used hres)) _ _ _

theorem closeProcessFds (pid : Int) (closeOnExecOnly : Bool) :
    P (closeProcessFds s pid closeOnExecOnly) := by
  unfold Fd.closeProcessFds
  induction maxPosixFds with
  | zero => exact hs
  | succ n ih =>
    unfold closeProcessFdsTo
    dsimp only
    split
    · exact ih
    · split
      · exact ih
      · exact h.close _ _ ih

theorem cloneFdsFrom (parentPid childPid caller : Int)
    (fuel n : Nat) : P (cloneFdsFrom parentPid childPid caller fuel n s).2 := by
  induction fuel generalizing n s with
  | zero => exact hs
  | succ fuel ih =>
    unfold Fd.cloneFdsFrom
    split
    · exact ih hs _
    · split
      · exact ih hs _
      · next o ho =>
        have hcopy : P (copyFd s caller childPid n o).2 :=
          h.install (h.countRef hs (fdOwnerIndex_used ho)) _ _ _
        dsimp only
        split
        · exact hcopy
        · exact ih hcopy _

end

/-- A new pipe is cleared again when one of its ends finds no place. -/
theorem radPipeCreate (h : Survives P) {k : Nat}
    (hk : (List.range maxPipes).find? (fun i => !(s.pipes i).used) = some k)
    (hnew : P (setPipe s k { used := true, readRefs := 1, writeRefs := 1 }))
    (hclear : ∀ t, P t → P (setPipe t k {})) : P (radPipeCreate s pid).2 := by
  have hread := h.install hnew pid (newRecord { kind := .pipe, pipeIndex := k } vfsRead pid) (-1)
  simp only [Fd.radPipeCreate, hk]
  split
  · exact hclear _ hread
  · split
    · exact hclear _ (h.radFdClose (h.install hread _ _ _) _ _)
    · exact h.install hread _ _ _

end Survives

/-- The property is also kept when records other than pipes are made or change. -/
structure SurvivesRecords (P : KernelState → Prop) : Prop extends Survives P where
  opened : ∀ s opened, P s → P { s with opened := opened }
  socket : ∀ s i r, (r.used = false → r = {}) → P s → P (setSocket s i r)
  processes : ∀ s processes, P s → P { s with processes := processes }
  objects : ∀ s i r, (r.used = true → r.pageCount ≤ 16) → P s →
    P { s with shmObjects := Function.update s.shmObjects i r }

namespace SurvivesRecords

section
variable (h : SurvivesRecords P) (hs : P s)
include h hs

theorem radSocketCreate (pid domain type protocol : Int) :
    P (radSocketCreate s pid domain type protocol).2 := by
  unfold Fd.radSocketCreate
  split
  · exact hs
  · split
    · exact hs
    · split
      · exact hs
      · next p _ _ i _ =>
        have hnew : ∀ caller source, P (installFdRecord
            (setSocket s i (newSocket domain type p)) caller source (-1)).2 := fun _ _ =>
          h.install (h.socket _ _ _ (by simp [newSocket]) hs) _ _ _
        dsimp only
        split
        · exact h.socket _ _ _ (fun _ => rfl) (hnew _ _)
        · exact hnew _ _

theorem radSocketAccept (pid fd : Int) : P (radSocketAccept s pid fd).2 := by
  unfold Fd.radSocketAccept
  split
  · exact hs
  · next l hl =>
    dsimp only
    split_ifs
    · exact hs
    · exact hs
    · exact hs
    · exact h.install (h.socket _ _ _ (by simp [socketFromFd_used hl]) hs) _ _ _

theorem radShmOpen (pid : Int) (name : List Char)
    (byteSize flags : Nat) : P (radShmOpen s pid name byteSize flags).2 := by
  have hinstall : ∀ {t : KernelState} (i : Nat), P t → P (installShmFd t pid i flags).2 := by
    intro t i ht
    unfold installShmFd
    split
    · exact ht
    · exact h.install ht _ _ _
  unfold Fd.radShmOpen
  dsimp only
  split
  · exact hs
  · next hargs =>
    have hpages : (byteSize + 4095) % 2 ^ 64 / 4096 ≤ 16 := by omega
    split
    · exact hinstall _ hs
    · split
      · exact hs
      · exact hinstall _ (h.objects _ _ _ (fun _ => hpages) hs)

theorem radFdFcntl (pid fd : Int) (command : FcntlCommand) : P (radFdFcntl s pid fd command).2 := by
  unfold Fd.radFdFcntl
  split
  · exact hs
  · next hslot =>
    split
    · exact hs
    · exact h.put _ _ _ (findFdSlot_used hslot) hs
    · split <;> exact hs
    · split
      · next ho => exact h.put _ _ _ (fdOwnerIndex_used ho) hs
      · exact hs
    · exact hs

theorem radFdDup2 (pid oldFd newFd : Int) : P (radFdDup2 s pid oldFd newFd).2 := by
  unfold Fd.radFdDup2
  split_ifs
  · exact hs
  · exact hs
  · split
    · exact hs
    · next hres => exact h.install (h.countRef hs (resolve_used hres)) _ _ _

/-- Every call keeps the property, when `rad_pipe_create` and the calls on sockets do. -/
theorem perform (c : Call) (hpipe : ∀ pid, c = .pipe pid → P (radPipeCreate s pid).2)
    (hsockets : ∀ table, c = .sockets table → P { s with sockets := table }) :
    P (perform s c).2 := by
  cases c with
  | «open» pid path flags backend =>
    simp only [Fd.perform, radFdOpen]
    split
    · exact hs
    · exact h.install (h.opened _ _ hs) _ _ _
  | close pid fd => exact h.radFdClose hs _ _
  | dup pid fd => exact h.radFdDup hs _ _
  | dup2 pid oldFd newFd => exact h.radFdDup2 hs _ _ _
  | fcntl pid fd command => exact h.radFdFcntl hs _ _ _
  | pipe pid => exact hpipe pid rfl
  | socket pid domain type protocol => exact h.radSocketCreate hs _ _ _ _
  | accept pid fd => exact h.radSocketAccept hs _ _
  | shmOpen pid name byteSize flags => exact h.radShmOpen hs _ _ _ _
  | shmUnlink name =>
    simp only [Fd.perform, radShmUnlink]
    split
    · exact hs
    · exact h.objects _ _ _ (by simp) hs
  | clone caller parentPid childPid =>
    simp only [Fd.perform, radProcessCloneFds]
    split
    · exact hs
    · exact h.cloneFdsFrom hs _ _ _ _ _
  | exec pid path =>
    simp only [Fd.perform, radProcessMarkExec]
    split
    · exact hs
    · split
      · exact hs
      · next i _ =>
        dsimp only
        generalize Function.update s.processes i _ = table
        exact h.closeProcessFds (h.processes _ table hs) pid true
  | wait caller pid =>
    simp only [Fd.perform, radProcessWaitpid]
    split
    · exact h.processes _ _ (h.closeProcessFds hs _ _)
    · split <;> exact hs
  | processes table => exact h.processes _ _ hs
  | sockets table => exact hsockets table rfl

end

end SurvivesRecords

/-- The property ignores descriptors. -/
structure Ignores (P : KernelState → Prop) : Prop where
  table : ∀ s fds, P s → P { s with fds := fds }
  handles : ∀ s closed, P s → P { s with closed := closed }
  pipe : ∀ s k w, P s → P (closePipeEnd s k w)
  socket : ∀ s k, P s → P (closeSocket s k)

namespace Ignores

section
variable (h : Ignores P)
include h

theorem setFd (hs : P s) (i : Nat) (r : FdRecord) : P (setFd s i r) :=
  h.table _ _ hs

theorem closeObject (hs : P s) (o : FdObject) : P (closeObject s o) :=
  closeObject_rule h.handles h.pipe h.socket o hs

theorem closeFdRecord (hs : P s) (fd : Nat) : P (closeFdRecord s fd) := by
  unfold Fd.closeFdRecord
  dsimp only
  split
  · exact hs
  · split
    · exact h.setFd hs _ _
    · exact h.setFd (h.closeObject hs _) _ _

theorem closeFdIndex (hs : P s) (fd : Nat) : P (closeFdIndex s fd) := by
  unfold Fd.closeFdIndex
  split
  · exact hs
  · split
    · dsimp only
      split
      · exact h.setFd (h.setFd hs _ _) _ _
      · exact h.setFd hs _ _
    · split
      · split
        · exact h.table _ _ hs
        · exact h.closeFdRecord hs _
      · exact h.closeFdRecord hs _

theorem survives : Survives P where
  close _ _ hs := h.closeFdIndex hs _
  put _ _ _ _ hs := h.setFd hs _ _

theorem install (hs : P s) (caller : Int) (source : FdRecord) (requested : Int) :
    P (installFdRecord s caller source requested).2 :=
  h.survives.install hs caller source requested

end

end Ignores

/-- The property is also kept when records other than pipes are made or change. -/
structure IgnoresRecords (P : KernelState → Prop) : Prop extends Ignores P where
  opened : ∀ s opened, P s → P { s with opened := opened }
  sockets : ∀ s sockets, P s → P { s with sockets := sockets }
  processes : ∀ s processes, P s → P { s with processes := processes }
  objects : ∀ s i r, (r.used = true → r.pageCount ≤ 16) → P s →
    P { s with shmObjects := Function.update s.shmObjects i r }

namespace IgnoresRecords

theorem survives (h : IgnoresRecords P) : SurvivesRecords P where
  toSurvives := h.toIgnores.survives
  opened := h.opened
  socket _ _ _ _ hs := h.sockets _ _ hs
  processes := h.processes
  objects := h.objects

/-- Every call keeps the property, when `rad_pipe_create` does. -/
theorem perform (h : IgnoresRecords P) (hs : P s) (c : Call)
    (hpipe : ∀ pid, c = .pipe pid → P (radPipeCreate s pid).2) : P (perform s c).2 :=
  h.survives.perform hs c hpipe fun _ _ => h.sockets _ _ hs

end IgnoresRecords

end RadKernel.Fd
