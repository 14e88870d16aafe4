import RadKernel.Kernel.State

/-!
# Tasks and cores

The scheduler of `core/RADKernel_runtime.cpp` on a machine whose architecture switches
contexts. Each critical section under `task_lock` is one step, and so are the stores of
`on_cpu` and of `g_scheduler_in_irq` and each context switch. `Op` names the steps and `step`
is what a core does; a step that does not fit what the core is about to do changes nothing.

A context is a stack with what is left to do on it, the innermost function first. The stack
belongs to a task slot or to the core itself. `rad_arch_task_context_switch` stores the context
it leaves and continues the one it loads. A context that was continued stays stored, as in
the source: loading it again continues it a second time.

Time and the moments at which another core holds `task_lock` are arguments of the steps.
-/

namespace RadKernel.Sched

def maxTasks : Nat := 16

/-- `RAD_TASK_CORE_ANY`. -/
def coreAny : Int := -1

/-- `RAD_TASK_CORE_SERVICE`. -/
def coreService : Nat := 0

inductive TaskState where
  | new
  | ready
  | running
  | sleeping
  | blocked
  | finished
  | detached
  deriving DecidableEq, Repr

/-- What is left to do in one function on a stack. `core` and `task` are the local variables
of the function where it keeps them. -/
inductive Frame where
  /-- Kernel code on a core's own stack, such as `worker_loop`. -/
  | kernel
  /-- `task_context_entry` from its first line. -/
  | start
  /-- `task_context_entry` in the task's function. -/
  | body (core : Nat) (task : Option Nat)
  /-- `task_context_entry` before its context switch. -/
  | ended (core : Nat) (task : Option Nat)
  /-- `rad_cpu_halt_forever`. -/
  | halted
  /-- `rad_task_yield` before its critical section. -/
  | yielding
  /-- `rad_task_yield` before it calls `run_one_task_on_core`. -/
  | falling
  /-- `rad_task_yield` or `rad_task_sleep_us` before the context switch. -/
  | leaving (task : Nat)
  /-- `rad_task_sleep_us` before its last critical section. -/
  | dozing (id : Nat)
  /-- `rad_scheduler_yield_from_irq` before it clears the flag of the core. -/
  | irq (core : Nat)
  /-- `run_one_task_on_core` after its first critical section. -/
  | picked (task : Nat)
  /-- `run_one_task_on_core` before the context switch. -/
  | owned (task : Nat)
  /-- `run_one_task_on_core` after the context switch. -/
  | resumed (task : Nat)
  /-- `run_one_task_on_core` before it clears `on_cpu`. -/
  | released (task : Nat)
  deriving DecidableEq, Repr

/-- A stack: the slot it belongs to, none for a core's own, and what is left to do on it. -/
structure Context where
  thread : Option Nat
  stack : List Frame
  deriving DecidableEq, Repr

structure Task where
  id : Nat := 0
  /-- `entry` is not null. -/
  entry : Bool := false
  running : Bool := false
  onCpu : Bool := false
  finished : Bool := false
  detached : Bool := false
  state : TaskState := .new
  targetCore : Int := 0
  currentCore : Int := 0
  preemptPinned : Bool := false
  preemptSavedTargetCore : Int := 0
  wakeMicros : Nat := 0
  processPid : Int := 0
  /-- `arch_context`, none until it is ready. -/
  context : Option Context := none
  deriving DecidableEq, Repr

structure Core where
  /-- What the core executes. -/
  cpu : Context := ⟨none, [.kernel]⟩
  /-- `g_scheduler_context`, none until it is first stored. -/
  schedulerContext : Option Context := none
  /-- `g_scheduler_in_irq`. -/
  inIrq : Bool := false
  /-- `g_current_task_id`. -/
  currentTaskId : Nat := 0
  /-- `g_current_pid`. -/
  currentPid : Int := 0
  /-- `g_last_task_index`. -/
  lastTaskIndex : Nat := 0
  deriving DecidableEq, Repr

structure State where
  tasks : Nat → Task := fun _ => {}
  cores : Nat → Core := fun _ => {}
  nextTaskId : Nat := 1
  detectedCores : Nat := 1
  workerRunningMask : Nat := 0
  preemptionEnabled : Bool := false

def State.setTask (s : State) (i : Nat) (task : Task) : State :=
  { s with tasks := Function.update s.tasks i task }

def State.setCore (s : State) (c : Nat) (core : Core) : State :=
  { s with cores := Function.update s.cores c core }

def State.top (s : State) (c : Nat) : Option Frame := (s.cores c).cpu.stack.head?

/-- The slot whose stack a core executes. -/
def State.thread (s : State) (c : Nat) : Option Nat := (s.cores c).cpu.thread

/-- The core returns from its innermost function and goes on with `frames`. -/
def Core.replace (core : Core) (frames : List Frame) : Core :=
  { core with cpu := ⟨core.cpu.thread, frames ++ core.cpu.stack.tail⟩ }

/-- The core calls a function. -/
def Core.push (core : Core) (frames : List Frame) : Core :=
  { core with cpu := ⟨core.cpu.thread, frames ++ core.cpu.stack⟩ }

def Core.load (core : Core) (context : Context) : Core := { core with cpu := context }

def Core.store (core : Core) (context : Context) : Core :=
  { core with schedulerContext := some context }

/-! ## Searching the table -/

def taskMatchesCore (s : State) (task : Task) (core now : Nat) : Bool :=
  if ¬task.entry ∨ task.finished ∨ task.running then false
  else if task.onCpu then false
  else if task.state = .sleeping ∧ task.wakeMicros > now then false
  else if task.targetCore = coreAny then
    if s.workerRunningMask ≠ 0 then decide (core ≠ coreService) else true
  else decide (task.targetCore = (core : Int))

def findTaskById (s : State) (id : Nat) : Option Nat :=
  if id = 0 then none
  else (List.range maxTasks).find? fun i => (s.tasks i).entry && (s.tasks i).id == id

/-- The slot the loop of `run_one_task_on_core` stops at. -/
def selectTask (s : State) (core now : Nat) : Option Nat :=
  let start := ((s.cores core).lastTaskIndex + 1) % maxTasks
  ((List.range maxTasks).map fun offset => (start + offset) % maxTasks).find? fun i =>
    taskMatchesCore s (s.tasks i) core now

/-- The slot `rad_task_create_config` takes. -/
def freeTask (s : State) : Option Nat :=
  (List.range maxTasks).find? fun i =>
    !((s.tasks i).entry && (!(s.tasks i).finished || (s.tasks i).running))

/-! ## `run_one_task_on_core` -/

def selectedTask (task : Task) (core : Nat) : Task :=
  let task := { task with running := true, state := .running, currentCore := core }
  if task.preemptPinned ∧ task.targetCore = (core : Int) then
    { task with
      targetCore := task.preemptSavedTargetCore
      preemptPinned := false
      preemptSavedTargetCore := coreAny }
  else task

/-- The critical section, with the slot it selects. -/
def dispatch (s : State) (c i : Nat) : State :=
  let task := selectedTask (s.tasks i) c
  (s.setTask i task).setCore c
    { s.cores c with
      currentTaskId := task.id
      currentPid := if task.processPid ≥ 0 then task.processPid else 0
      lastTaskIndex := i }

def runOneTaskOnCore (s : State) (c now : Nat) : Option Nat × State :=
  match selectTask s c now with
  | none => (none, s)
  | some i => (some i, dispatch s c i)

/-- The context is made ready and the task marked as owned. -/
def takeOwnership (task : Task) (i : Nat) : Task :=
  { task with
    context := some (task.context.getD ⟨some i, [.start]⟩)
    onCpu := true }

/-- The switch to a task: the core's context is stored for its return. -/
def switchTo (core : Core) (task : Task) (i : Nat) : Core :=
  match task.context with
  | none => core
  | some context =>
    (core.store ⟨core.cpu.thread, .resumed i :: core.cpu.stack.tail⟩).load context

/-- The bookkeeping after the switch came back. -/
def settle (task : Task) : Task :=
  if task.finished ∧ task.running then { task with running := false, currentCore := coreAny }
  else task

/-! ## Leaving a core -/

/-- The critical section of `rad_task_yield` for the task it finds. -/
def yieldTask (task : Task) (core : Nat) (inIrq : Bool) : Task :=
  let task := { task with running := false, state := .ready, currentCore := coreAny }
  if inIrq ∧ ¬task.preemptPinned then
    { task with
      preemptSavedTargetCore := task.targetCore
      targetCore := core
      preemptPinned := true }
  else task

def Core.leave (core : Core) : Core := { core with currentTaskId := 0, currentPid := 0 }

/-- The task that `rad_task_yield` takes off its core: none when the lock is `busy`, when the
core has no current task or when that task was finished. -/
def yieldedTask (s : State) (c : Nat) (busy : Bool) : Option Nat :=
  if (s.cores c).currentTaskId = 0 ∨ busy then none
  else (findTaskById s (s.cores c).currentTaskId).filter fun i =>
    (s.tasks i).running && !(s.tasks i).finished

def sleepTask (task : Task) (now microseconds : Nat) : Task :=
  { task with
    running := false
    state := .sleeping
    wakeMicros := now + microseconds
    currentCore := coreAny }

def sleptTask (s : State) (c : Nat) : Option Nat :=
  if (s.cores c).currentTaskId = 0 then none
  else (findTaskById s (s.cores c).currentTaskId).filter fun i => (s.tasks i).running

/-- The slot of the last two loops of `rad_task_sleep_us`. -/
def dozingTask (s : State) (id : Nat) : Option Nat :=
  (List.range maxTasks).find? fun i => (s.tasks i).id == id && (s.tasks i).running

/-- The switch from a task back to the scheduler of `core`. -/
def switchAway (s : State) (c i core : Nat) (frames : List Frame) : State :=
  match (s.cores core).schedulerContext with
  | none => s
  | some context =>
    (s.setTask i { s.tasks i with
        context := some ⟨s.thread c, frames ++ (s.cores c).cpu.stack.tail⟩ }).setCore c
      ((s.cores c).load context)

/-- The switch of a task that was not found: it stores its own context and continues it. -/
def switchNowhere (s : State) (c core : Nat) : State :=
  let halted := s.setCore c ((s.cores c).replace [.halted])
  halted.setCore core
    ((halted.cores core).store ⟨s.thread c, .halted :: (s.cores c).cpu.stack.tail⟩)

/-- The critical section of `task_context_entry`. -/
def finishTask (task : Task) : Task :=
  { task with finished := true, state := if task.detached then .detached else .finished }

/-! ## Calls that need no core -/

def radTaskCreateConfig (s : State) (targetCore : Int) : Status × State :=
  if targetCore ≥ s.detectedCores then (.notSupported, s)
  else if targetCore > 0 ∧ ¬s.workerRunningMask.testBit targetCore.toNat then (.notSupported, s)
  else
    match freeTask s with
    | none => (.noMemory, s)
    | some i =>
      (.ok, { s.setTask i
                { id := s.nextTaskId
                  entry := true
                  state := .ready
                  targetCore := targetCore
                  currentCore := coreAny } with
              nextTaskId := s.nextTaskId + 1 })

/-- What `rad_process_kill` does to the task of the process. -/
def killTask (s : State) (i : Nat) : State :=
  s.setTask i { s.tasks i with finished := true, state := .finished, currentCore := coreAny }

def radTaskDetach (s : State) (i : Nat) : State :=
  s.setTask i { s.tasks i with
    detached := true
    state := if (s.tasks i).finished then .detached else (s.tasks i).state }

/-! ## Steps -/

inductive Op where
  | runOne (now : Nat)
  | own
  | switchTo
  | settle
  | release
  | yield (busy : Bool)
  | sleep (now microseconds : Nat)
  | wake
  | switchAway
  | start
  | finish
  | irq (busy : Bool)
  | irqEnd
  | create (targetCore : Int)
  | kill (task : Nat)
  | detach (task : Nat)
  deriving DecidableEq, Repr

/-- The function may call the kernel. -/
def Frame.runsCode : Frame → Bool
  | kernel => true
  | body _ (some _) => true
  | _ => false

/-- The core calls `frames` from code, or returns into them from `f`. -/
def Core.enter (core : Core) (f : Frame) (frames : List Frame) : Core :=
  if f.runsCode then core.push frames else core.replace frames

def stepRunOne (s : State) (c : Nat) (f : Frame) (now : Nat) : State :=
  match runOneTaskOnCore s c now with
  | (none, s) => s.setCore c ((s.cores c).enter f [])
  | (some i, s) => s.setCore c ((s.cores c).enter f [.picked i])

def stepYield (s : State) (c : Nat) (f : Frame) (busy : Bool) : State :=
  match yieldedTask s c busy with
  | none => s.setCore c ((s.cores c).enter f [.falling])
  | some i =>
    (s.setTask i (yieldTask (s.tasks i) c (s.cores c).inIrq)).setCore c
      ((s.cores c).leave.enter f [.leaving i])

def stepSleep (s : State) (c now microseconds : Nat) : State :=
  match sleptTask s c with
  | some i =>
    (s.setTask i (sleepTask (s.tasks i) now microseconds)).setCore c
      ((s.cores c).leave.push [.leaving i])
  | none =>
    let id := (s.cores c).currentTaskId
    let marked := match dozingTask s id with
      | none => s
      | some i =>
        s.setTask i { s.tasks i with state := .sleeping, wakeMicros := now + microseconds }
    marked.setCore c ((s.cores c).push [.dozing id])

def stepWake (s : State) (c id : Nat) : State :=
  let marked := match dozingTask s id with
    | none => s
    | some i => s.setTask i { s.tasks i with state := .running }
  marked.setCore c ((s.cores c).replace [])

/-- `task_context_entry` after its function: it uses the core it read at its start. -/
def stepFinish (s : State) (c core : Nat) (task : Option Nat) : State :=
  let finished := match task with
    | none => s
    | some i => s.setTask i (finishTask (s.tasks i))
  let returned := finished.setCore c ((s.cores c).replace [.ended core task])
  returned.setCore core (returned.cores core).leave

/-- `rad_scheduler_yield_from_irq` up to its call of `rad_task_yield`. -/
def stepIrq (s : State) (c : Nat) (busy : Bool) : State :=
  if ¬s.preemptionEnabled ∨ (s.cores c).currentTaskId = 0 ∨ busy ∨ (s.cores c).inIrq ∨
      c = coreService then s
  else s.setCore c { (s.cores c).push [.yielding, .irq c] with inIrq := true }

/-- The flag of `core` is cleared and the interrupt returns. -/
def stepIrqEnd (s : State) (c core : Nat) : State :=
  let returned := s.setCore c ((s.cores c).replace [])
  returned.setCore core { returned.cores core with inIrq := false }

/-- What a core in the function `f` does. -/
def stepIn (s : State) (c : Nat) (f : Frame) : Op → State
  | .runOne now => if f.runsCode ∨ f = .falling then stepRunOne s c f now else s
  | .own =>
    match f with
    | .picked i =>
      (s.setTask i (takeOwnership (s.tasks i) i)).setCore c ((s.cores c).replace [.owned i])
    | _ => s
  | .switchTo =>
    match f with
    | .owned i => s.setCore c (switchTo (s.cores c) (s.tasks i) i)
    | _ => s
  | .settle =>
    match f with
    | .resumed i =>
      (s.setTask i (settle (s.tasks i))).setCore c ((s.cores c).replace [.released i])
    | _ => s
  | .release =>
    match f with
    | .released i =>
      (s.setTask i { s.tasks i with onCpu := false }).setCore c ((s.cores c).replace [])
    | _ => s
  | .yield busy => if f.runsCode ∨ f = .yielding then stepYield s c f busy else s
  | .sleep now microseconds => if f.runsCode then stepSleep s c now microseconds else s
  | .wake =>
    match f with
    | .dozing id => stepWake s c id
    | _ => s
  | .switchAway =>
    match f with
    | .leaving i => switchAway s c i c []
    | .ended core (some i) => switchAway s c i core [.halted]
    | .ended core none => switchNowhere s c core
    | _ => s
  | .start =>
    match f with
    | .start =>
      s.setCore c ((s.cores c).replace [.body c (findTaskById s (s.cores c).currentTaskId)])
    | _ => s
  | .finish =>
    match f with
    | .body core task => stepFinish s c core task
    | _ => s
  | .irq busy => stepIrq s c busy
  | .irqEnd =>
    match f with
    | .irq core => stepIrqEnd s c core
    | _ => s
  | .create targetCore => if f.runsCode then (radTaskCreateConfig s targetCore).2 else s
  | .kill i => if f.runsCode then killTask s i else s
  | .detach i => if f.runsCode then radTaskDetach s i else s

def step (s : State) (k : Nat × Op) : State :=
  match s.top k.1 with
  | none => s
  | some f => stepIn s k.1 f k.2

end RadKernel.Sched
