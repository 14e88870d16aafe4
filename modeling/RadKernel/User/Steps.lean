import RadKernel.User.Invariant

/-!
# The steps of user_process_task

Every piece of `user_process_task` before its last one, and the system calls `exit` and `execve`,
change only what belongs to the task: its slot, its record and its core.
-/

namespace RadKernel.User

open Kernel Fd Process Function

variable {s s' s'' : Machine} {c t u : Nat}

/-! ## Parts of a step -/

namespace Machine

theorem activate_eq (s : Machine) (c u : Nat) :
    s.activate c u = s.setSpace c ((s.users u).space.or (s.cores c).space) := by
  unfold activate
  cases (s.users u).space with
  | none =>
    have hsame : update s.cores c (s.cores c) = s.cores := update_eq_self ..
    simp only [setSpace, setCore, Option.none_or, hsame]
  | some x => rfl

section
variable (s u)

theorem destroySpace_eq :
    ∃ log, s.destroySpace u = { s.setUser u { s.users u with space := none } with log } := by
  unfold destroySpace
  cases hspace : (s.users u).space with
  | none =>
    have hsame : update s.users u { s.users u with space := none } = s.users := by
      rw [← hspace]
      exact update_eq_self ..
    exact ⟨s.log, by simp only [setUser, hsame]⟩
  | some x => exact ⟨_, rfl⟩

@[simp] theorem destroySpace_users :
    (s.destroySpace u).users = update s.users u { s.users u with space := none } := by
  obtain ⟨log, hlog⟩ := s.destroySpace_eq u
  rw [hlog]
  rfl

@[simp] theorem destroySpace_tasks : (s.destroySpace u).tasks = s.tasks := by
  obtain ⟨log, hlog⟩ := s.destroySpace_eq u
  rw [hlog]
  rfl

@[simp] theorem destroySpace_cores : (s.destroySpace u).cores = s.cores := by
  obtain ⟨log, hlog⟩ := s.destroySpace_eq u
  rw [hlog]
  rfl

end

theorem destroySpace_safe (hs : ∀ e ∈ s.log, e.Safe)
    (hspace : ∀ x, (s.users u).space = some x → ∀ c < maxCores, (s.cores c).space ≠ some x) :
    ∀ e ∈ (s.destroySpace u).log, e.Safe := by
  unfold destroySpace
  cases hx : (s.users u).space with
  | none => exact hs
  | some x =>
    intro e he
    rcases List.mem_cons.1 he with rfl | he
    · exact hspace x hx
    · exact hs e he

theorem setCurrentPid_eq (h : (s.cores c).task = some t) (pid : Int) :
    s.setCurrentPid c pid =
      (s.setCore c { s.cores c with pid := max pid 0 }).setTask t
        { s.tasks t with processPid := max pid 0 } := by
  have hmax : (if 0 ≤ pid then pid else 0) = max pid 0 := by
    split_ifs <;> omega
  unfold setCurrentPid
  rw [hmax]
  simp only [setCore, update_self, h]

section Setters

variable (s) (process : UserProcess) (core : Core) (task : Task) (point : Point) (space : Option Nat)

@[simp] theorem setUser_users :
    (s.setUser u process).users = update s.users u process := rfl
@[simp] theorem setUser_tasks : (s.setUser u process).tasks = s.tasks := rfl
@[simp] theorem setUser_cores : (s.setUser u process).cores = s.cores := rfl
@[simp] theorem setUser_log : (s.setUser u process).log = s.log := rfl
@[simp] theorem setCore_users : (s.setCore c core).users = s.users := rfl
@[simp] theorem setCore_tasks : (s.setCore c core).tasks = s.tasks := rfl
@[simp] theorem setCore_cores : (s.setCore c core).cores = update s.cores c core := rfl
@[simp] theorem setCore_log : (s.setCore c core).log = s.log := rfl
@[simp] theorem setTask_users : (s.setTask t task).users = s.users := rfl
@[simp] theorem setTask_tasks : (s.setTask t task).tasks = update s.tasks t task := rfl
@[simp] theorem setTask_cores : (s.setTask t task).cores = s.cores := rfl
@[simp] theorem setTask_log : (s.setTask t task).log = s.log := rfl
@[simp] theorem setPoint_users : (s.setPoint t point).users = s.users := rfl
@[simp] theorem setPoint_tasks :
    (s.setPoint t point).tasks = update s.tasks t { s.tasks t with point } := rfl
@[simp] theorem setPoint_cores : (s.setPoint t point).cores = s.cores := rfl
@[simp] theorem setPoint_log : (s.setPoint t point).log = s.log := rfl
@[simp] theorem setSpace_users : (s.setSpace c space).users = s.users := rfl
@[simp] theorem setSpace_tasks : (s.setSpace c space).tasks = s.tasks := rfl
@[simp] theorem setSpace_cores :
    (s.setSpace c space).cores = update s.cores c { s.cores c with space } := rfl
@[simp] theorem setSpace_log : (s.setSpace c space).log = s.log := rfl
@[simp] theorem setSpace_spaceCount : (s.setSpace c space).spaceCount = s.spaceCount := rfl
@[simp] theorem setPoint_spaceCount : (s.setPoint t point).spaceCount = s.spaceCount := rfl
@[simp] theorem note_users (event : Event) : (s.note event).users = s.users := rfl
@[simp] theorem note_tasks (event : Event) : (s.note event).tasks = s.tasks := rfl
@[simp] theorem note_cores (event : Event) : (s.note event).cores = s.cores := rfl
@[simp] theorem note_spaceCount (event : Event) : (s.note event).spaceCount = s.spaceCount := rfl

end Setters

end Machine

namespace Stays

theorem trans (h : Stays s s' c t) (h' : Stays s' s'' c t) : Stays s s'' c t where
  records := h.records.trans h'.records
  attached := h'.attached.trans h.attached
  taskCount := h'.taskCount.trans h.taskCount
  spaceCount := h.spaceCount.trans h'.spaceCount
  otherUsers u hu := (h'.otherUsers u (h.user ▸ hu)).trans (h.otherUsers u hu)
  otherTasks t' ht := (h'.otherTasks t' ht).trans (h.otherTasks t' ht)
  otherCores c' hc := (h'.otherCores c' hc).trans (h.otherCores c' hc)
  user := h'.user.trans h.user
  running := h'.running.trans h.running
  finished := h'.finished.trans h.finished
  used := (h.user ▸ h'.used).trans h.used
  pid := (h.user ▸ h'.pid).trans h.pid
  task := (h.user ▸ h'.task).trans h.task
  core := h'.core.trans h.core

theorem setTask {task : Task} (huser : task.user = (s.tasks t).user)
    (hrunning : task.running = (s.tasks t).running) (hfinished : task.finished = (s.tasks t).finished) :
    Stays s (s.setTask t task) c t where
  records := .refl _
  attached := rfl
  taskCount := rfl
  spaceCount := le_rfl
  otherUsers _ _ := rfl
  otherTasks _ ht := update_of_ne ht ..
  otherCores _ _ := rfl
  user := by simpa using huser
  running := by simpa using hrunning
  finished := by simpa using hfinished
  used := rfl
  pid := rfl
  task := rfl
  core := rfl

theorem setPoint (point : Point) : Stays s (s.setPoint t point) c t := setTask rfl rfl rfl

theorem setCore {core : Core} (htask : core.task = (s.cores c).task) :
    Stays s (s.setCore c core) c t where
  records := .refl _
  attached := rfl
  taskCount := rfl
  spaceCount := le_rfl
  otherUsers _ _ := rfl
  otherTasks _ _ := rfl
  otherCores _ hc := update_of_ne hc ..
  user := rfl
  running := rfl
  finished := rfl
  used := rfl
  pid := rfl
  task := rfl
  core := by simpa using htask

theorem setSpace (space : Option Nat) : Stays s (s.setSpace c space) c t := setCore rfl

theorem setUser {process : UserProcess} (hu : u = (s.tasks t).user)
    (hused : process.used = (s.users u).used) (hpid : process.pid = (s.users u).pid)
    (htask : process.task = (s.users u).task) : Stays s (s.setUser u process) c t where
  records := .refl _
  attached := rfl
  taskCount := rfl
  spaceCount := le_rfl
  otherUsers _ hne := update_of_ne (hu ▸ hne) ..
  otherTasks _ _ := rfl
  otherCores _ _ := rfl
  user := rfl
  running := rfl
  finished := rfl
  used := by
    subst hu
    simpa using hused
  pid := by
    subst hu
    simpa using hpid
  task := by
    subst hu
    simpa using htask
  core := rfl

/-- What is not compared can be anything. -/
theorem rest {kernel : KernelState} {spaceCount : Nat} {log : List Event}
    (hkernel : SameRecords s.kernel kernel) (hcount : s.spaceCount ≤ spaceCount) :
    Stays s { s with kernel, spaceCount, log } c t :=
  ⟨hkernel, rfl, rfl, hcount, fun _ _ => rfl, fun _ _ => rfl, fun _ _ => rfl, rfl, rfl, rfl, rfl, rfl,
    rfl, rfl⟩

theorem activate (u : Nat) : Stays s (s.activate c u) c t := by
  rw [s.activate_eq]
  exact setSpace _

theorem destroySpace (hu : u = (s.tasks t).user) : Stays s (s.destroySpace u) c t := by
  obtain ⟨log, hlog⟩ := s.destroySpace_eq u
  rw [hlog]
  have huser : Stays s (s.setUser u { s.users u with space := none }) c t := setUser hu rfl rfl rfl
  exact huser.trans (rest (.refl _) le_rfl)

theorem setCurrentPid (h : (s.cores c).task = some t) (pid : Int) :
    Stays s (s.setCurrentPid c pid) c t := by
  rw [Machine.setCurrentPid_eq h]
  have hcore : Stays s (s.setCore c { s.cores c with pid := max pid 0 }) c t := setCore rfl
  exact hcore.trans (setTask rfl rfl rfl)

end Stays

/-! ## The pieces -/

namespace Inv

variable {pid : Int} {point : Point}

section
variable (h : Inv s) (hc : c < maxCores) (ht : (s.cores c).task = some t)
include h hc ht

section
variable (hpid : pid = 0 ∨ pid = (s.users (s.tasks t).user).pid)
include hpid

theorem writes_safe : Event.Safe (.stateSet t (s.writes pid)) := by
  rcases hpid with rfl | rfl
  · exact .inl h.writes_zero
  · exact .inr (h.writes_owner (h.ownerOnCore hc ht))

/-- The process of the core is found, unless its pid was lost. -/
theorem findOwn : s.findUserProcess pid = none ∨ s.findUserProcess pid = some (s.tasks t).user := by
  have hon := h.onCore c hc t ht
  rcases hpid with rfl | rfl
  · exact .inl h.findUserProcess_zero
  · exact .inr (h.findUserProcess hon.holds.lt hon.holds.used)

end

theorem setCurrentPid (hpoint : (s.tasks t).point = .start) :
    Inv (s.setCurrentPid c (s.users (s.tasks t).user).pid) := by
  have ho := h.ownerOnCore hc ht
  have hstays := @Stays.setCurrentPid s c t ht (s.users (s.tasks t).user).pid
  rw [Machine.setCurrentPid_eq ht] at hstays ⊢
  refine h.own hc ht ⟨hstays, ?_, ?_, ?_, ?_, ?_, ?_, ?_, ?_, ?_, ?_, ?_⟩
  · simp [hpoint]
  · simpa using ho.context
  · simp [hpoint]
  · intro _
    simpa using ho.loaded (.inl hpoint)
  · simp [hpoint]
  · simp
  · simp
  · simp [hpoint]
  · simp [Point.Away, hpoint]
  · simp [hpoint]
  · simpa using h.safe

theorem enterLoop (hspace : (s.users (s.tasks t).user).space.isSome = true)
    (hpid : (s.cores c).pid = 0 ∨ (s.cores c).pid = (s.users (s.tasks t).user).pid) :
    Inv (s.enterLoop c t) := by
  obtain ⟨x, hx⟩ := Option.isSome_iff_exists.1 hspace
  unfold Machine.enterLoop
  dsimp only
  rw [Machine.activate_eq]
  set process : UserProcess := { s.users (s.tasks t).user with
    execPending := false, contextPid := (s.users (s.tasks t).user).pid } with hprocess
  have huser : Stays s (s.setUser (s.tasks t).user process) c t := Stays.setUser rfl rfl rfl rfl
  refine h.own hc ht ⟨(huser.trans (.setSpace _)).trans (.setPoint _), ?_, ?_, ?_, ?_, ?_, ?_, ?_, ?_,
    ?_, ?_, ?_⟩
  · simp
  · simp [hprocess]
  · simp [hprocess]
  · intro _
    simp [hprocess, hspace]
  · simp
  · simp [hprocess]
  · simp [hprocess, hx]
  · simpa using hpid
  · simp [Point.Away]
  · simp [hprocess, hx]
  · simpa using h.safe

theorem returned
    (hpoint : (s.tasks t).point = .returned) : Inv ((s.setSpace c none).setPoint t .back) := by
  have hon := h.onCore c hc t ht
  have ho := h.ownerOnCore hc ht
  refine h.own hc ht ⟨(Stays.setSpace none).trans (.setPoint _), ?_, ?_, ?_, ?_, ?_, ?_, ?_, ?_, ?_, ?_, ?_⟩
  · simp
  · simpa using ho.context
  · simp
  · simp [NeedsSpace]
  · simp
  · simp
  · simp
  · simpa [hpoint] using hon.pid
  · simp
  · simp
  · simpa using h.safe

theorem destroySpace (hpoint : (s.tasks t).point.Away) (hlive : point ≠ .done)
    (huser : ¬(point = .user ∨ point = .returned)) (hneeds : ∀ p, ¬NeedsSpace point p) :
    Inv ((s.destroySpace (s.tasks t).user).setPoint t point) := by
  have hon := h.onCore c hc t ht
  have ho := h.ownerOnCore hc ht
  have hsafe : ∀ e ∈ (s.destroySpace (s.tasks t).user).log, e.Safe := by
    refine Machine.destroySpace_safe h.safe fun x hx c' hc' => ?_
    by_cases hcc : c' = c
    · exact hcc ▸ hon.away hpoint x hx
    · exact hon.apart x hx c' hc' hcc
  have hstart : (s.tasks t).point ≠ .start := by
    rcases hpoint with hp | hp | hp <;> simp [hp]
  have hclearing : (s.tasks t).point ≠ .clearing := by
    rcases hpoint with hp | hp | hp <;> simp [hp]
  refine h.own hc ht ⟨(Stays.destroySpace rfl).trans (.setPoint _), ?_, ?_, ?_, ?_, ?_, ?_, ?_, ?_, ?_,
    ?_, ?_⟩
  · simpa using hlive
  · simpa using ho.context
  · simp [huser]
  · simp [hneeds]
  · simp
  · simp
  · simp
  · intro _ _
    simpa using hon.pid hstart hclearing
  · simp
  · simp [huser]
  · simpa using hsafe

/-- The task goes on, and nothing else happens. -/
theorem setPoint (hpoint : (s.tasks t).point.Away) (haway : point.Away)
    (hneeds : ¬NeedsSpace point (s.users (s.tasks t).user)) : Inv (s.setPoint t point) := by
  have hon := h.onCore c hc t ht
  have ho := h.ownerOnCore hc ht
  have hstart : (s.tasks t).point ≠ .start := by
    rcases hpoint with hp | hp | hp <;> simp [hp]
  have hclearing : (s.tasks t).point ≠ .clearing := by
    rcases hpoint with hp | hp | hp <;> simp [hp]
  have huser : ¬(point = .user ∨ point = .returned) := by
    rcases haway with hp | hp | hp <;> simp [hp]
  refine h.own hc ht ⟨.setPoint _, ?_, ?_, ?_, ?_, ?_, ?_, ?_, ?_, ?_, ?_, ?_⟩
  · rcases haway with hp | hp | hp <;> simp [hp]
  · simpa using ho.context
  · simp [huser]
  · simp [hneeds]
  · rcases haway with hp | hp | hp <;> simp [hp]
  · simp
  · simp
  · intro _ _
    simpa using hon.pid hstart hclearing
  · intro _
    simpa using hon.away hpoint
  · simp [huser]
  · simpa using h.safe

/-- A process that could not be loaded is going to exit. -/
theorem reloadFailed (hpoint : (s.tasks t).point = .reloading) (space : Option Nat)
    (hspace : space = (s.cores c).space ∨ space = none) :
    Inv (((s.setSpace c space).setUser (s.tasks t).user { s.users (s.tasks t).user with
      exitCode := 127, exiting := true, execPending := false }).setPoint t .looping) := by
  have hon := h.onCore c hc t ht
  have ho := h.ownerOnCore hc ht
  have huser : Stays s ((s.setSpace c space).setUser (s.tasks t).user
      { s.users (s.tasks t).user with exitCode := 127, exiting := true, execPending := false }) c t :=
    (Stays.setSpace space).trans (.setUser rfl rfl rfl rfl)
  refine h.own hc ht ⟨huser.trans (.setPoint _), ?_, ?_, ?_, ?_, ?_, ?_, ?_, ?_, ?_, ?_, ?_⟩
  · simp
  · simpa using ho.context
  · simp
  · simp [NeedsSpace]
  · simp
  · simp
  · simpa using hspace.imp id .inl
  · simpa [hpoint] using hon.pid
  · simp [ho.gone hpoint]
  · simp
  · simpa using h.safe

/-- A program is loaded into a new address space. -/
theorem reloaded (hpoint : (s.tasks t).point = .reloading) (path : List Char) :
    Inv ((s.reload c t path .loaded).setPoint t .looping) := by
  have hon := h.onCore c hc t ht
  have hsafe := h.writes_safe hc ht (.inr rfl)
  have huser : Stays s ((s.setSpace c none).setUser (s.tasks t).user
      { s.users (s.tasks t).user with space := some s.spaceCount, contextPid := 0 }) c t :=
    (Stays.setSpace none).trans (.setUser rfl rfl rfl rfl)
  have hrest : Stays s (s.reload c t path .loaded) c t :=
    huser.trans (.rest (.markExec _ _ _) (Nat.le_succ _))
  refine h.own hc ht ⟨hrest.trans (.setPoint _), ?_, ?_, ?_, ?_, ?_, ?_, ?_, ?_, ?_, ?_, ?_⟩
  all_goals simp only [Machine.reload]
  · simp
  · simp
  · simp
  · simp
  · simp
  · simp
  · simp
  · simpa [hpoint] using hon.pid
  · simp
  · simp
  · intro e he
    rcases List.mem_cons.1 he with rfl | he
    · exact hsafe
    · exact h.safe e he

theorem exiting (hpoint : (s.tasks t).point = .exiting) :
    Inv ({ s.note (.stateSet t (s.writes (s.cores c).pid)) with
      kernel := radProcessExit s.kernel (s.cores c).pid (s.users (s.tasks t).user).exitCode }.setPoint t
        .exited) := by
  have hon := h.onCore c hc t ht
  have ho := h.ownerOnCore hc ht
  have hpid := hon.pid (by simp [hpoint]) (by simp [hpoint])
  have hsafe := h.writes_safe hc ht hpid
  have hrest : Stays s { s.note (.stateSet t (s.writes (s.cores c).pid)) with
      kernel := radProcessExit s.kernel (s.cores c).pid (s.users (s.tasks t).user).exitCode } c t :=
    .rest (.exit _ _ _) le_rfl
  refine h.own hc ht ⟨hrest.trans (.setPoint _), ?_, ?_, ?_, ?_, ?_, ?_, ?_, ?_, ?_, ?_, ?_⟩
  all_goals simp only [Machine.note]
  · simp
  · simpa using ho.context
  · simp
  · simp [NeedsSpace]
  · simp
  · simp
  · simp
  · simpa using hpid
  · simp [Point.Away]
  · simp
  · intro e he
    rcases List.mem_cons.1 he with rfl | he
    · exact hsafe
    · exact h.safe e he

theorem exited (pid : Int) : Inv ((s.setCurrentPid c pid).setPoint t .clearing) := by
  have ho := h.ownerOnCore hc ht
  have hstays := @Stays.setCurrentPid s c t ht pid
  rw [Machine.setCurrentPid_eq ht] at hstays ⊢
  refine h.own hc ht ⟨hstays.trans (.setPoint _), ?_, ?_, ?_, ?_, ?_, ?_, ?_, ?_, ?_, ?_, ?_⟩
  · simp
  · simpa using ho.context
  · simp
  · simp [NeedsSpace]
  · simp
  · simp
  · simp
  · simp
  · simp [Point.Away]
  · simp
  · simpa using h.safe

/-! ## System calls -/

section
variable (hpoint : (s.tasks t).point = .user)
include hpoint

/-- A process in user mode changes flags in its slot and comes back to the kernel. -/
theorem trap {process : UserProcess} {kernel : KernelState}
    (hused : process.used = (s.users (s.tasks t).user).used)
    (hpid : process.pid = (s.users (s.tasks t).user).pid)
    (htask : process.task = (s.users (s.tasks t).user).task)
    (hcontext : process.contextPid = (s.users (s.tasks t).user).contextPid)
    (hspace : process.space = (s.users (s.tasks t).user).space)
    (hkernel : SameRecords s.kernel kernel) :
    Inv ({ s.setUser (s.tasks t).user process with kernel }.setPoint t .returned) := by
  have hon := h.onCore c hc t ht
  have ho := h.ownerOnCore hc ht
  have huser : Stays s (s.setUser (s.tasks t).user process) c t := .setUser rfl hused hpid htask
  have hrest : Stays s { s.setUser (s.tasks t).user process with kernel } c t :=
    huser.trans (.rest hkernel le_rfl)
  refine h.own hc ht ⟨hrest.trans (.setPoint _), ?_, ?_, ?_, ?_, ?_, ?_, ?_, ?_, ?_, ?_, ?_⟩
  · simp
  · simpa [hcontext] using ho.context
  · simpa [hcontext] using ho.entered (.inl hpoint)
  · intro _
    simpa [hspace] using ho.loaded (.inr (.inl hpoint))
  · simp
  · simp [hspace]
  · simp
  · simpa [hpoint] using hon.pid
  · simp [Point.Away]
  · simpa [hspace] using hon.own (.inl hpoint)
  · simpa using h.safe

theorem exit (code : Int) : Inv (s.exit c t code) := by
  have hon := h.onCore c hc t ht
  have hpid := hon.pid (by simp [hpoint]) (by simp [hpoint])
  unfold Machine.exit
  dsimp only
  rcases h.findOwn hc ht hpid with hfind | hfind
  · have hsame : update s.users (s.tasks t).user (s.users (s.tasks t).user) = s.users :=
      update_eq_self ..
    have htrap := h.trap hc ht hpoint rfl rfl rfl rfl rfl (.exit s.kernel (s.cores c).pid code)
    rw [hfind]
    simpa only [Machine.setUser, hsame] using htrap
  · rw [hfind]
    exact h.trap hc ht hpoint rfl rfl rfl rfl rfl (.exit s.kernel (s.cores c).pid code)

theorem execve : Inv (s.execve c t) := by
  have hon := h.onCore c hc t ht
  have hpid := hon.pid (by simp [hpoint]) (by simp [hpoint])
  unfold Machine.execve
  rcases h.findOwn hc ht hpid with hfind | hfind
  · rw [hfind]
    exact h
  · rw [hfind]
    exact h.trap hc ht hpoint rfl rfl rfl rfl rfl (.refl s.kernel)

/-- After a system call the core has the pid and the address space of the process again. -/
theorem restore :
    Inv ((s.setCurrentPid c (s.users (s.tasks t).user).pid).activate c (s.tasks t).user) := by
  have ho := h.ownerOnCore hc ht
  have hspace := ho.loaded (.inr (.inl hpoint))
  obtain ⟨x, hx⟩ := Option.isSome_iff_exists.1 hspace
  have hpos := ho.pid
  have hstays := @Stays.setCurrentPid s c t ht (s.users (s.tasks t).user).pid
  rw [Machine.setCurrentPid_eq ht] at hstays ⊢
  have hactivate := hstays.trans (.activate (s.tasks t).user)
  rw [Machine.activate_eq] at hactivate ⊢
  refine h.own hc ht ⟨hactivate, ?_, ?_, ?_, ?_, ?_, ?_, ?_, ?_, ?_, ?_, ?_⟩
  · simp [hpoint]
  · simpa using ho.context
  · simpa [hpoint] using ho.entered (.inl hpoint)
  · intro _
    simpa using hspace
  · simp [hpoint]
  · simp
  · simp [hx]
  · intro _ _
    right
    simp only [Machine.setSpace_cores, Machine.setTask_cores, Machine.setCore_cores, update_self]
    omega
  · simp [hpoint, Point.Away]
  · simp [hx]
  · simpa using h.safe

end

/-! ## All pieces but the last -/

theorem advance
    (hclearing : (s.tasks t).point ≠ .clearing) (path : List Char) (answer : LoadAnswer) :
    Inv (s.advance c t path answer) := by
  have hon := h.onCore c hc t ht
  have ho := h.ownerOnCore hc ht
  unfold Machine.advance
  cases hpoint : (s.tasks t).point with
  | start =>
    dsimp only
    rw [if_pos hon.holds.used]
    have hstart := h.setCurrentPid hc ht hpoint
    have hspace := ho.loaded (.inl hpoint)
    have hpos := ho.pid
    have htasks : ((s.setCurrentPid c (s.users (s.tasks t).user).pid).tasks t).user =
        (s.tasks t).user := (Stays.setCurrentPid ht _).user
    refine hstart.enterLoop hc ((Stays.setCurrentPid ht _).core.trans ht) ?_ ?_
    all_goals rw [htasks, Machine.setCurrentPid_eq ht]
    · simpa using hspace
    · right
      simp only [Machine.setTask_cores, Machine.setCore_cores, update_self,
        Machine.setTask_users, Machine.setCore_users]
      omega
  | user => exact h
  | returned => exact h.returned hc ht hpoint
  | back =>
    dsimp only
    split_ifs with hexec
    · exact h.destroySpace hc ht (.inl hpoint) (by simp) (by simp) (by simp [NeedsSpace])
    · refine h.setPoint hc ht (.inl hpoint) (.inr (.inl rfl)) ?_
      simpa [NeedsSpace] using hexec
  | reloading =>
    cases answer with
    | loaded => exact h.reloaded hc ht hpoint path
    | failed =>
      have hsame : update s.cores c (s.cores c) = s.cores := update_eq_self ..
      have hfailed := h.reloadFailed hc ht hpoint (s.cores c).space (.inl rfl)
      simpa only [Machine.reload, Machine.setSpace, Machine.setCore, hsame] using hfailed
    | failedLate => exact h.reloadFailed hc ht hpoint none (.inr rfl)
  | looping =>
    dsimp only
    split_ifs with hexec
    · refine h.enterLoop hc ht (ho.loaded ?_) (hon.pid (by simp [hpoint]) (by simp [hpoint]))
      exact .inr (.inr (.inr ⟨hpoint, hexec.1, by simpa using hexec.2⟩))
    · exact h.setPoint hc ht (.inr (.inl hpoint)) (.inr (.inr rfl)) (by simp [NeedsSpace])
  | leaving =>
    exact h.destroySpace hc ht (.inr (.inr hpoint)) (by simp) (by simp) (by simp [NeedsSpace])
  | exiting => exact h.exiting hc ht hpoint
  | exited => exact h.exited hc ht _
  | clearing => exact absurd hpoint hclearing
  | done => exact absurd hpoint hon.live

end

end Inv

end RadKernel.User
