import RadKernel.Process.Parents

/-!
# User processes on several cores

The tasks of user processes, the table of `x86_user.cpp` that they point to, and what a core has
loaded. A step is a system call, a call of a kernel task, a decision of the scheduler, or the next
piece of `user_process_task`; any core can take one at any time. Address spaces and tasks are
numbered in the order they are made.

`fork` and `spawn` are the calls that succeed once there are a slot and a process record; of the
descriptors of a process only what `rad_process_waitpid` and `rad_process_mark_exec` close is
modelled. What `user_process_task` destroys and writes is kept in a log, the latest first.
-/

namespace RadKernel.User

open Kernel Fd Process

def maxUserProcesses : Nat := 8
def maxCores : Nat := 8

/-! ## State -/

/-- `X86UserProcess`; the address space is `none` when `pml4` is zero. -/
structure UserProcess where
  used : Bool := false
  pid : Int := 0
  parentPid : Int := 0
  exitCode : Int := 0
  execPending : Bool := false
  exiting : Bool := false
  space : Option Nat := none
  task : Option Nat := none
  contextPid : Int := 0
  deriving DecidableEq, Repr

/-- Where a task is in `user_process_task`. -/
inductive Point where
  | start
  /-- In user mode, or in a system call. -/
  | user
  /-- `x86_enter_user_context` has returned. -/
  | returned
  /-- The kernel address space is active. -/
  | back
  /-- The address space was destroyed for a new program. -/
  | reloading
  /-- At the condition of the loop. -/
  | looping
  /-- Behind the loop. -/
  | leaving
  /-- Before `rad_process_exit`. -/
  | exiting
  /-- Before `rad_process_set_current_pid`. -/
  | exited
  /-- Before `used` is cleared. -/
  | clearing
  | done
  deriving DecidableEq, Repr

structure Task where
  user : Nat := 0
  point : Point := .start
  running : Bool := false
  finished : Bool := false
  processPid : Int := 0
  deriving DecidableEq, Repr

/-- `space` is what CR3 holds, `none` for the kernel address space. -/
structure Core where
  space : Option Nat := none
  pid : Int := 0
  task : Option Nat := none
  deriving DecidableEq, Repr

inductive Event where
  /-- An address space is destroyed, with what the cores have loaded. -/
  | destroyed (space : Nat) (loaded : Nat → Option Nat)
  /-- A task clears `used` of a slot, with the task of the process in the slot. -/
  | cleared (task : Nat) (owner : Option Nat)
  /-- A task writes the state of a process, with the task of that process. -/
  | stateSet (task : Nat) (owner : Option Nat)

/-- What `load_user_program` comes to. -/
inductive LoadAnswer where
  | loaded
  | failed
  /-- It failed after it had activated the new address space and the kernel's again. -/
  | failedLate
  deriving DecidableEq, Repr

structure Machine where
  kernel : KernelState := {}
  /-- `task` of the process records. -/
  attached : Nat → Option Nat := fun _ => none
  users : Nat → UserProcess := fun _ => {}
  tasks : Nat → Task := fun _ => {}
  cores : Nat → Core := fun _ => {}
  taskCount : Nat := 0
  spaceCount : Nat := 0
  log : List Event := []

namespace Machine

def setUser (s : Machine) (u : Nat) (process : UserProcess) : Machine :=
  { s with users := Function.update s.users u process }

def setCore (s : Machine) (c : Nat) (core : Core) : Machine :=
  { s with cores := Function.update s.cores c core }

def setTask (s : Machine) (t : Nat) (task : Task) : Machine :=
  { s with tasks := Function.update s.tasks t task }

def setPoint (s : Machine) (t : Nat) (point : Point) : Machine :=
  s.setTask t { s.tasks t with point }

def setSpace (s : Machine) (c : Nat) (space : Option Nat) : Machine :=
  s.setCore c { s.cores c with space }

def note (s : Machine) (event : Event) : Machine := { s with log := event :: s.log }

/-- `rad_process_set_current_pid`. -/
def setCurrentPid (s : Machine) (c : Nat) (pid : Int) : Machine :=
  let pid := if 0 ≤ pid then pid else 0
  let s := s.setCore c { s.cores c with pid }
  match (s.cores c).task with
  | none => s
  | some t => s.setTask t { s.tasks t with processPid := pid }

def findUserProcess (s : Machine) (pid : Int) : Option Nat :=
  (List.range maxUserProcesses).find? fun u => (s.users u).used ∧ (s.users u).pid = pid

def allocateUserProcess (s : Machine) : Option Nat :=
  (List.range maxUserProcesses).find? fun u => !(s.users u).used

/-- `x86_vm_activate_address_space` of the address space in a slot. -/
def activate (s : Machine) (c u : Nat) : Machine :=
  match (s.users u).space with
  | none => s
  | some space => s.setSpace c (some space)

/-- `x86_vm_destroy_address_space` of the address space in a slot. -/
def destroySpace (s : Machine) (u : Nat) : Machine :=
  match (s.users u).space with
  | none => s
  | some space =>
    (s.note (.destroyed space fun c => (s.cores c).space)).setUser u
      { s.users u with space := none }

/-! ## The scheduler -/

/-- `run_one_task_on_core` starts or resumes a task, with `rad_arch_task_context_resumed`. -/
def dispatch (s : Machine) (c t : Nat) : Machine :=
  let s := s.setCore c { s.cores c with task := some t, pid := max (s.tasks t).processPid 0 }
  let s := s.setTask t { s.tasks t with running := true }
  let pid := (s.users (s.tasks t).user).contextPid
  let s :=
    match s.findUserProcess pid with
    | none => s
    | some u => s.activate c u
  s.setCurrentPid c pid

/-- The task of a core yields or sleeps; what the core has loaded stays. -/
def leave (s : Machine) (c t : Nat) : Machine :=
  (s.setTask t { s.tasks t with running := false }).setCore c { s.cores c with task := none, pid := 0 }

def dispatchKernel (s : Machine) (c : Nat) (pid : Int) : Machine :=
  s.setCore c { space := none, pid, task := none }

/-! ## user_process_task -/

/-- The task is over. -/
def finish (s : Machine) (c t : Nat) : Machine :=
  (s.setTask t { s.tasks t with point := .done, finished := true }).leave c t

/-- The first lines of the loop, up to user mode. -/
def enterLoop (s : Machine) (c t : Nat) : Machine :=
  let u := (s.tasks t).user
  let process := s.users u
  let s := s.setUser u { process with execPending := false, contextPid := process.pid }
  (s.activate c u).setPoint t .user

/-- The task of the record that is written, if any. -/
def writes (s : Machine) (pid : Int) : Option Nat :=
  (findProcess s.kernel pid).bind s.attached

def reload (s : Machine) (c t : Nat) (path : List Char) (answer : LoadAnswer) : Machine :=
  let u := (s.tasks t).user
  let process := s.users u
  match answer with
  | .loaded =>
    let s := (s.note (.stateSet t (s.writes process.pid))).setSpace c none
    { s.setUser u { process with space := some s.spaceCount, contextPid := 0 } with
      spaceCount := s.spaceCount + 1
      kernel := (radProcessMarkExec s.kernel process.pid path).2 }
  | .failed =>
    s.setUser u { process with exitCode := 127, exiting := true, execPending := false }
  | .failedLate =>
    (s.setSpace c none).setUser u
      { process with exitCode := 127, exiting := true, execPending := false }

/-- The next piece of `user_process_task` that core `c` executes. For a program that is loaded there
are its path and the answer. -/
def advance (s : Machine) (c t : Nat) (path : List Char) (answer : LoadAnswer) : Machine :=
  let u := (s.tasks t).user
  let process := s.users u
  match (s.tasks t).point with
  | .start =>
    if process.used then (s.setCurrentPid c process.pid).enterLoop c t else s.finish c t
  | .returned => (s.setSpace c none).setPoint t .back
  | .back =>
    if process.execPending ∧ !process.exiting then (s.destroySpace u).setPoint t .reloading
    else s.setPoint t .looping
  | .reloading => (s.reload c t path answer).setPoint t .looping
  | .looping =>
    if process.execPending ∧ !process.exiting then s.enterLoop c t else s.setPoint t .leaving
  | .leaving => (s.destroySpace u).setPoint t .exiting
  | .exiting =>
    let s := s.note (.stateSet t (s.writes (s.cores c).pid))
    { s with kernel := radProcessExit s.kernel (s.cores c).pid process.exitCode }.setPoint t .exited
  | .exited => (s.setCurrentPid c process.parentPid).setPoint t .clearing
  | .clearing =>
    let s := s.note (.cleared t (if process.used then process.task else none))
    (s.setUser u { process with used := false }).finish c t
  | .user | .done => s

/-! ## Calls -/

/-- The `exit` system call. -/
def exit (s : Machine) (c t : Nat) (code : Int) : Machine :=
  let pid := (s.cores c).pid
  let s :=
    match s.findUserProcess pid with
    | none => s
    | some u => s.setUser u { s.users u with exitCode := code, exiting := true }
  { s with kernel := radProcessExit s.kernel pid code }.setPoint t .returned

/-- The `execve` system call. -/
def execve (s : Machine) (c t : Nat) : Machine :=
  match s.findUserProcess (s.cores c).pid with
  | none => s
  | some u => (s.setUser u { s.users u with execPending := true }).setPoint t .returned

/-- `rad_process_kill`, which also ends the tasks of the processes. -/
def kill (s : Machine) (c : Nat) (pid signal : Int) : Machine :=
  let kernel := (radProcessKill s.kernel (s.cores c).pid pid signal).2
  let killed (t : Nat) : Bool := (List.range maxProcesses).any fun i =>
    s.attached i = some t ∧ (s.kernel.processes i).state ≠ .zombie ∧
      (kernel.processes i).state = .zombie
  { s with
    kernel
    tasks := fun t => { s.tasks t with finished := (s.tasks t).finished || killed t } }

/-- `x86_process_reaped_arch`. -/
def reaped (s : Machine) (pid : Int) : Machine :=
  match s.findUserProcess pid with
  | none => s
  | some u =>
    let s := s.destroySpace u
    s.setUser u { s.users u with exiting := true, used := false }

/-- A pass of `rad_process_waitpid`, and what the system call does after it. -/
def waitpid (s : Machine) (c : Nat) (pid : Int) : Machine :=
  let caller := s.findUserProcess (s.cores c).pid
  let s :=
    match nextReaped s.kernel (s.cores c).pid pid with
    | none => s
    | some i =>
      let s := s.reaped (s.kernel.processes i).pid
      { s with
        kernel := (radProcessWaitpid s.kernel (s.cores c).pid pid).2
        attached := Function.update s.attached i none }
  match caller, (s.cores c).task with
  | some u, some _ => (s.setCurrentPid c (s.users u).pid).activate c u
  | _, _ => s

def newProcess (s : Machine) (u : Nat) (pid : Int) (kernel : KernelState) (process : UserProcess) :
    Machine :=
  let s := s.setUser u
    { process with used := true, pid, space := some s.spaceCount, task := some s.taskCount }
  let s := s.setTask s.taskCount { user := u, processPid := pid }
  { s with
    kernel
    attached := fun i => if findProcess kernel pid = some i then some s.taskCount else s.attached i
    taskCount := s.taskCount + 1
    spaceCount := s.spaceCount + 1 }

/-- `x86_user_fork_from_frame` by the process of core `c`, with its path. -/
def fork (s : Machine) (c : Nat) (path : List Char) : Machine :=
  match s.findUserProcess (s.cores c).pid, s.allocateUserProcess with
  | some parent, some u =>
    let process := s.users parent
    let (pid, kernel) := radProcessCreate s.kernel (s.cores c).pid process.pid path
    let s := s.setUser u {}
    if pid < 0 then { s with kernel }
    else
      let child := s.newProcess u pid kernel { parentPid := process.pid, contextPid := pid }
      (child.setCurrentPid c process.pid).activate c parent
  | _, _ => s

/-- `x86_user_spawn_process` by a kernel task on core `c`. -/
def spawn (s : Machine) (c : Nat) (parentPid : Int) (path : List Char) : Machine :=
  match s.allocateUserProcess with
  | none => s
  | some u =>
    let (pid, kernel) := radProcessCreate s.kernel (s.cores c).pid parentPid path
    let s := s.setUser u {}
    if pid < 0 then { s with kernel }
    else
      let parentPid := if 0 ≤ parentPid then parentPid else (s.cores c).pid
      let kernel := (radProcessMarkExec kernel pid path).2
      (s.newProcess u pid kernel { parentPid }).setSpace c none

/-! ## Steps -/

end Machine

inductive Action where
  | dispatch (core task : Nat)
  | leave (core : Nat)
  | dispatchKernel (core : Nat) (pid : Int)
  | advance (core : Nat) (path : List Char) (answer : LoadAnswer)
  | exit (core : Nat) (code : Int)
  | execve (core : Nat)
  | fork (core : Nat) (path : List Char)
  | spawn (core : Nat) (parentPid : Int) (path : List Char)
  | kill (core : Nat) (pid signal : Int)
  | waitpid (core : Nat) (pid : Int)
  deriving DecidableEq, Repr

def Action.core : Action → Nat
  | .dispatch c _ | .leave c | .dispatchKernel c _ | .advance c _ _ | .exit c _ | .execve c
  | .fork c _ | .spawn c _ _ | .kill c _ _ | .waitpid c _ => c

namespace Machine

/-- The task of the core, if it is a user process in user mode or in a system call. -/
def userTask (s : Machine) (c : Nat) : Option Nat :=
  (s.cores c).task.filter fun t => (s.tasks t).point = .user

/-- A system call can be made, or a kernel task is on the core. -/
def MayCall (s : Machine) (c : Nat) : Prop :=
  (s.cores c).task = none ∨ (s.userTask c).isSome = true

instance (s : Machine) (c : Nat) : Decidable (s.MayCall c) :=
  inferInstanceAs (Decidable (_ ∨ _))

/-- A step that is not possible changes nothing. -/
def perform (s : Machine) : Action → Machine
  | .dispatch c t =>
    if (s.cores c).task = none ∧ t < s.taskCount ∧ !(s.tasks t).running ∧ !(s.tasks t).finished then
      s.dispatch c t
    else s
  | .leave c =>
    match (s.cores c).task with
    | none => s
    | some t => s.leave c t
  | .dispatchKernel c pid => if (s.cores c).task = none then s.dispatchKernel c pid else s
  | .advance c path answer =>
    match (s.cores c).task with
    | none => s
    | some t => s.advance c t path answer
  | .exit c code =>
    match s.userTask c with
    | none => s
    | some t => s.exit c t code
  | .execve c =>
    match s.userTask c with
    | none => s
    | some t => s.execve c t
  | .fork c path => if (s.userTask c).isSome then s.fork c path else s
  | .spawn c parentPid path => if (s.cores c).task = none then s.spawn c parentPid path else s
  | .kill c pid signal => if s.MayCall c then s.kill c pid signal else s
  | .waitpid c pid => if s.MayCall c then s.waitpid c pid else s

def next (s : Machine) (a : Action) : Machine := if a.core < maxCores then s.perform a else s

end Machine

end RadKernel.User
