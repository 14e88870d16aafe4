import Mathlib.Tactic.IntervalCases
import RadKernel.Sched.RoundRobin

/-!
# Sleeping tasks

A task that went to sleep is left alone by every core until its time has come: a step that does
not select it and does not give its slot to a new task leaves it asleep, or ends it. How long it
sleeps is a number of microseconds; `rad_task_sleep_ms` and `rad_sleep_ms` get it by a product of
32-bit numbers, which wraps around.
-/

namespace RadKernel.Sched

variable {s t : State} {c i j a now wake : Nat} {task : Task}

/-! ## What a step does to a slot -/

structure Drift (a b : Task) : Prop where
  id : b.id = a.id
  entry : b.entry = a.entry
  finished : a.finished = true → b.finished = true
  idle : a.running = false → b.running = false ∧ b.wakeMicros = a.wakeMicros ∧
    (b.finished = true ∨ b.state = a.state)

theorem Drift.refl (a : Task) : Drift a a :=
  ⟨rfl, rfl, fun h => h, fun h => ⟨h, rfl, .inr rfl⟩⟩

variable {b : Task} {k : Nat × Op} {f : Frame} {id : Nat} {x : SleepCall}

theorem Drift.of_running {a : Task} (hrun : a.running = true) (hid : b.id = a.id)
    (hentry : b.entry = a.entry) (hfinished : b.finished = a.finished) : Drift a b :=
  ⟨hid, hentry, fun h => hfinished.trans h, fun h => absurd hrun (by simp [h])⟩

/-- A change that the scheduler does not look at. -/
theorem Drift.of_untouched {a : Task} (hid : b.id = a.id) (hentry : b.entry = a.entry)
    (hfinished : b.finished = a.finished) (hrun : b.running = a.running)
    (hwake : b.wakeMicros = a.wakeMicros) (hstate : b.state = a.state) : Drift a b :=
  ⟨hid, hentry, fun h => hfinished.trans h, fun h => ⟨hrun.trans h, hwake, .inr hstate⟩⟩

theorem Drift.of_finished {a : Task} (hid : b.id = a.id) (hentry : b.entry = a.entry)
    (hfinished : b.finished = true) (hrun : b.running = a.running)
    (hwake : b.wakeMicros = a.wakeMicros) : Drift a b :=
  ⟨hid, hentry, fun _ => hfinished, fun h => ⟨hrun.trans h, hwake, .inl hfinished⟩⟩

theorem Drift.setTask (h : Drift (s.tasks j) task) (i : Nat) :
    Drift (s.tasks i) ((s.setTask j task).tasks i) := by
  by_cases hi : i = j
  · subst hi
    simpa [State.setTask] using h
  · simpa [State.setTask, hi] using Drift.refl (s.tasks i)

/-- A slot that is not selected or recycled drifts. -/
inductive Change (s t : State) (k : Nat × Op) (i : Nat) : Prop
  | drift (h : Drift (s.tasks i) (t.tasks i)) (hnext : s.nextTaskId ≤ t.nextTaskId)
  | selected (h : dispatched s k = some i) (htask : t.tasks i = selectedTask (s.tasks i) k.1)
      (hnext : t.nextTaskId = s.nextTaskId)
  | recycled (hid : (t.tasks i).id = s.nextTaskId) (hnext : t.nextTaskId = s.nextTaskId + 1)

theorem Change.same (htasks : t.tasks = s.tasks)
    (hnext : t.nextTaskId = s.nextTaskId) : Change s t k i :=
  .drift (by rw [htasks]; exact .refl _) (Nat.le_of_eq hnext.symm)

theorem Change.of_drift (htasks : t.tasks = (s.setTask j task).tasks)
    (hnext : t.nextTaskId = s.nextTaskId) (h : Drift (s.tasks j) task) : Change s t k i :=
  .drift (by rw [htasks]; exact h.setTask i) (Nat.le_of_eq hnext.symm)

theorem drift_yieldTask (hrun : task.running = true) (inIrq : Bool) :
    Drift task (yieldTask task c inIrq) := by
  refine .of_running hrun ?_ ?_ ?_ <;> grind [yieldTask]

theorem drift_settle : Drift task (settle task) := by
  unfold settle
  split
  · next h => exact .of_running h.2 rfl rfl rfl
  · exact .refl _

theorem change_runOne (hf : ∃ f ∈ s.top c, f.runsCode ∨ f = .falling) :
    Change s (stepRunOne s c f now) (c, .runOne now) i := by
  unfold stepRunOne runOneTaskOnCore
  cases hj : selectTask s c now with
  | none => exact .same rfl rfl
  | some j =>
    by_cases hi : i = j
    · subst hi
      refine .selected ?_ ?_ rfl
      · rw [dispatched, if_pos hf, hj]
      · simp [dispatch, State.setTask, State.setCore]
    · refine .drift ?_ (Nat.le_refl _)
      simpa [dispatch, State.setTask, State.setCore, hi] using Drift.refl (s.tasks i)

theorem change_create {targetCore : Int} :
    Change s (radTaskCreateConfig s targetCore).2 (c, .create targetCore) i := by
  obtain ⟨-, hsame⟩ | ⟨j, hj, hcreate⟩ := radTaskCreateConfig_cases s targetCore
  · rw [hsame]
    exact .same rfl rfl
  · rw [hcreate]
    by_cases hi : i = j
    · subst hi
      refine .recycled ?_ rfl
      simp [State.setTask, newTask]
    · refine .drift ?_ (Nat.le_succ _)
      simpa [State.setTask, hi] using Drift.refl (s.tasks i)

theorem running_of_yielded {busy : Bool} (h : yieldedTask s c busy = some j) :
    (s.tasks j).running = true := by
  unfold yieldedTask at h
  split at h
  · simp at h
  · grind [Option.filter_eq_some_iff]

theorem sleptTask_some (h : sleptTask s c = some j) :
    findTaskById s (s.cores c).currentTaskId = some j ∧ (s.tasks j).running = true := by
  unfold sleptTask at h
  split at h
  · simp at h
  · exact Option.filter_eq_some_iff.1 h

theorem running_of_dozing (h : dozingTask s id = some j) : (s.tasks j).running = true := by
  have hfound := List.find?_some h
  grind

theorem change_sleep {microseconds : Nat} : Change s (stepSleep s c now microseconds) k i := by
  unfold stepSleep
  split
  · next j hj => exact .of_drift rfl rfl (.of_running (sleptTask_some hj).2 rfl rfl rfl)
  · cases hj : dozingTask s (s.cores c).currentTaskId with
    | none => exact .same (by simp [hj, State.setCore]) (by simp [hj, State.setCore])
    | some j =>
      refine .of_drift (by simp only [hj]; rfl) (by simp only [hj]; rfl) ?_
      exact .of_running (running_of_dozing hj) rfl rfl rfl

theorem change_wake : Change s (stepWake s c id) k i := by
  unfold stepWake
  cases hj : dozingTask s id with
  | none => exact .same rfl rfl
  | some j => exact .of_drift rfl rfl (.of_running (running_of_dozing hj) rfl rfl rfl)

theorem change_switchAway {core : Nat} {frames : List Frame} :
    Change s (switchAway s c j core frames) k i := by
  unfold switchAway
  split
  · exact .same rfl rfl
  · exact .of_drift rfl rfl (.of_untouched rfl rfl rfl rfl rfl rfl)

theorem change_step (s : State) (k : Nat × Op) (i : Nat) : Change s (step s k) k i := by
  obtain ⟨c, op⟩ := k
  refine step_cases (P := fun t => Change s t (c, op) i) (.same rfl rfl) fun f rest t hstack hacts => ?_
  cases hacts with
  | runOne hf => exact change_runOne ⟨f, by simp [State.top, hstack], hf⟩
  | yield =>
    unfold stepYield
    split
    · exact .same rfl rfl
    · next j hj => exact .of_drift rfl rfl (drift_yieldTask (running_of_yielded hj) _)
  | sleep => exact change_sleep
  | wake => exact change_wake
  | create => exact change_create
  | leave | halt => exact change_switchAway
  | settle => exact .of_drift rfl rfl drift_settle
  | @finish _ task =>
    cases task with
    | none => exact .same rfl rfl
    | some j => exact .of_drift rfl rfl (.of_finished rfl rfl rfl rfl rfl)
  | kill => exact .of_drift rfl rfl (.of_finished rfl rfl rfl rfl rfl)
  | detach =>
    refine .of_drift rfl rfl ⟨rfl, rfl, fun h => h, fun h => ⟨h, rfl, ?_⟩⟩
    grind
  | own | release => exact .of_drift rfl rfl (.of_untouched rfl rfl rfl rfl rfl rfl)
  | switchTo | nowhere | start | irq | irqEnd => exact .same rfl rfl

/-! ## Runs -/

/-- The next number is larger than those of all tasks. -/
def Numbered (s : State) : Prop :=
  ∀ i, (s.tasks i).entry = true → (s.tasks i).id < s.nextTaskId

theorem selectedTask_keeps (task : Task) (c : Nat) :
    (selectedTask task c).id = task.id ∧ (selectedTask task c).entry = task.entry := by
  grind [selectedTask]

theorem Numbered.step (h : Numbered s) (k : Nat × Op) : Numbered (step s k) := by
  intro i hentry
  cases change_step s k i with
  | drift hdrift hnext =>
    rw [hdrift.id]
    exact Nat.lt_of_lt_of_le (h i (hdrift.entry ▸ hentry)) hnext
  | selected hselected htask hnext =>
    rw [htask] at hentry ⊢
    rw [(selectedTask_keeps _ _).2] at hentry
    rw [(selectedTask_keeps _ _).1, hnext]
    exact h i hentry
  | recycled hid hnext =>
    rw [hid, hnext]
    exact Nat.lt_succ_self _

theorem numbered_of_run (h : Run (Obeys step fun _ _ => True) Booted s) : Numbered s := by
  apply h.invariant
  · intro s hs i hentry
    simp [hs.tasks i] at hentry
  · rintro s k _ hs ⟨-, rfl⟩
    exact hs.step k

/-- The slot `i` belongs to the task `a` no more, or the task is finished or sleeps until `wake`. -/
structure Asleep (i a wake : Nat) (s : State) : Prop where
  old : a < s.nextTaskId
  asleep : (s.tasks i).id = a → (s.tasks i).finished = true ∨
    ((s.tasks i).running = false ∧ (s.tasks i).state = .sleeping ∧ (s.tasks i).wakeMicros = wake)

/-- A sleeping task matches no core before its time. -/
theorem Asleep.not_selected (h : Asleep i a wake s) (hid : (s.tasks i).id = a) (hnow : now < wake) :
    selectTask s c now ≠ some i := by
  intro hselect
  have hmatch := selectTask_some hselect
  rcases h.asleep hid with hfinished | ⟨-, hstate, hwake⟩
  · simp [taskMatchesCore, hfinished] at hmatch
  · simp [taskMatchesCore, hstate, hwake, hnow] at hmatch

theorem Asleep.step (h : Asleep i a wake s)
    (hk : ∀ now, k.2 = .runOne now → now < wake) : Asleep i a wake (step s k) := by
  cases change_step s k i with
  | drift hdrift hnext =>
    refine ⟨Nat.lt_of_lt_of_le h.old hnext, fun hid => ?_⟩
    rw [hdrift.id] at hid
    rcases h.asleep hid with hfinished | ⟨hrun, hstate, hwake⟩
    · exact .inl (hdrift.finished hfinished)
    · obtain ⟨hrun', hwake', hfinished | hstate'⟩ := hdrift.idle hrun
      · exact .inl hfinished
      · exact .inr ⟨hrun', hstate'.trans hstate, hwake'.trans hwake⟩
  | selected hselected htask hnext =>
    refine ⟨hnext ▸ h.old, fun hid => ?_⟩
    rw [htask, (selectedTask_keeps _ _).1] at hid
    obtain ⟨c, op⟩ := k
    cases op with
    | runOne now =>
      simp only [dispatched] at hselected
      split at hselected
      · exact absurd hselected (h.not_selected hid (hk now rfl))
      · simp at hselected
    | _ => simp [dispatched] at hselected
  | recycled hid hnext =>
    refine ⟨Nat.lt_of_lt_of_le h.old (by omega), fun hid' => ?_⟩
    have hold := h.old
    omega

/-! ## The calls -/

/-- A call of a task that sends it to sleep. `rad_sleep_ms` and `rad_sleep_us` do what
`rad_task_sleep_ms` and `rad_task_sleep_us` do when the core has a current task. -/
inductive SleepCall where
  | ms (milliseconds : UInt32)
  | us (microseconds : UInt32)
  deriving DecidableEq

/-- What `rad_task_sleep_us` is given: the product is one of 32-bit numbers. -/
def SleepCall.microseconds : SleepCall → Nat
  | ms milliseconds => (milliseconds * 1000).toNat
  | us microseconds => microseconds.toNat

/-- How long the task was to sleep. -/
def SleepCall.promised : SleepCall → Nat
  | ms milliseconds => 1000 * milliseconds.toNat
  | us microseconds => microseconds.toNat

/-- The product does not wrap around. -/
def SleepCall.Fits : SleepCall → Prop
  | ms milliseconds => 1000 * milliseconds.toNat < 2 ^ 32
  | us _ => True

theorem SleepCall.microseconds_eq_iff (x : SleepCall) : x.microseconds = x.promised ↔ x.Fits := by
  cases x with
  | ms milliseconds =>
    simp only [microseconds, promised, Fits, UInt32.toNat_mul, UInt32.reduceToNat]
    omega
  | us microseconds => simp [SleepCall.microseconds, promised, Fits]

theorem SleepCall.microseconds_lt_promised (x : SleepCall) (hx : ¬x.Fits) :
    x.microseconds < x.promised := by
  cases x with
  | ms milliseconds =>
    simp only [microseconds, promised, Fits, UInt32.toNat_mul, UInt32.reduceToNat] at hx ⊢
    omega
  | us microseconds => exact absurd trivial hx

theorem asleep_of_call (hnumbered : Numbered s) {microseconds : Nat}
    (htop : s.top c = some f) (hf : f.runsCode = true) (hi : sleptTask s c = some i) :
    Asleep i (s.tasks i).id (now + microseconds) (step s (c, .sleep now microseconds)) := by
  have hstep : step s (c, .sleep now microseconds) =
      (s.setTask i (sleepTask (s.tasks i) now microseconds)).setCore c
        ((s.cores c).leave.push [.leaving i]) := by
    simp [step, htop, stepIn, hf, stepSleep, hi]
  have hentry : (s.tasks i).entry = true := by
    have hfind := (sleptTask_some hi).1
    unfold findTaskById at hfind
    split at hfind
    · simp at hfind
    · have hfound := List.find?_some hfind
      grind
  rw [hstep]
  refine ⟨hnumbered i hentry, fun _ => .inr ?_⟩
  simp [State.setCore, State.setTask, sleepTask]

theorem asleep_foldl (ops : List (Nat × Op)) (h : Asleep i a wake s)
    (hops : ∀ k ∈ ops, ∀ now, k.2 = .runOne now → now < wake) :
    Asleep i a wake (ops.foldl step s) := by
  induction ops generalizing s with
  | nil => exact h
  | cons k ops ih =>
    exact ih (h.step (hops k (by simp))) fun k' hk' => hops k' (by simp [hk'])

/-- Whatever happens after the current task of a core went to sleep at `start`, it is selected on
no core before the time that it asked for. The clock does not go back. -/
def NeverEarly (x : SleepCall) : Prop :=
  ∀ (s : State) (c i start : Nat) (f : Frame), Run (Obeys step fun _ _ => True) Booted s →
    s.top c = some f → f.runsCode = true → sleptTask s c = some i →
    ∀ (ops : List (Nat × Op)) (c' now : Nat),
    (∀ k past, (k, Op.runOne past) ∈ ops → past ≤ now) → now < start + x.promised →
    ((ops.foldl step (step s (c, .sleep start x.microseconds))).tasks i).id = (s.tasks i).id →
    selectTask (ops.foldl step (step s (c, .sleep start x.microseconds))) c' now ≠ some i

/-- No core selects a sleeping task before its time. -/
theorem neverEarly_of_fits (hx : x.Fits) : NeverEarly x := by
  intro s c i start f hrun htop hf hi ops c' now hclock hnow hid
  rw [← x.microseconds_eq_iff.2 hx] at hnow
  have hasleep : Asleep i (s.tasks i).id (start + x.microseconds)
      (step s (c, .sleep start x.microseconds)) := asleep_of_call (numbered_of_run hrun) htop hf hi
  have hlater := asleep_foldl ops hasleep fun k hk past hpast =>
    Nat.lt_of_le_of_lt (hclock k.1 past (hpast ▸ hk)) hnow
  exact hlater.not_selected hid hnow

/-- A worker runs a task, which may go to sleep now. -/
def startedOnce : State :=
  [(0, .create 1), (1, .runOne 0), (1, .own), (1, .switchTo), (1, .start)].foldl step twoCores

theorem run_startedOnce : Run (Obeys step fun _ _ => True) Booted startedOnce :=
  Run.foldl _ (.start booted_twoCores)

/-- The worker stores the context of the task and lets go of it. -/
def leftOnce (microseconds : Nat) : State :=
  [(1, .switchAway), (1, .settle), (1, .release)].foldl step
    (step startedOnce (1, .sleep 0 microseconds))

/-- The task is the only one, and the worker takes it when its time has come. -/
theorem select_leftOnce (microseconds : Nat) :
    selectTask (leftOnce microseconds) 1 microseconds = some 0 := by
  have hempty : ∀ j < maxTasks, j ≠ 0 → ((leftOnce microseconds).tasks j).entry = false := by
    intro j hj hne
    unfold maxTasks at hj
    interval_cases j
    · exact absurd rfl hne
    all_goals rfl
  have hmatch : taskMatchesCore (leftOnce microseconds) ((leftOnce microseconds).tasks 0) 1
      microseconds = true := by
    have hentry : ((leftOnce microseconds).tasks 0).entry = true := rfl
    have hfinished : ((leftOnce microseconds).tasks 0).finished = false := rfl
    have hrun : ((leftOnce microseconds).tasks 0).running = false := rfl
    have hon : ((leftOnce microseconds).tasks 0).onCpu = false := rfl
    have hwake : ((leftOnce microseconds).tasks 0).wakeMicros = 0 + microseconds := rfl
    have htarget : ((leftOnce microseconds).tasks 0).targetCore = 1 := rfl
    simp [taskMatchesCore, hentry, hfinished, hrun, hon, hwake, htarget, coreAny]
  obtain ⟨j, hj⟩ := selectTask_of_matches (by decide) hmatch
  by_cases hne : j = 0
  · rw [hj, hne]
  · have hother := selectTask_some hj
    simp [taskMatchesCore, hempty j (selectTask_lt hj) hne] at hother

theorem not_neverEarly_of_wrap (hx : x.microseconds < x.promised) : ¬NeverEarly x := by
  intro h
  refine h startedOnce 1 0 0 (.body 1 (some 0)) run_startedOnce rfl rfl rfl
    [(1, .switchAway), (1, .settle), (1, .release)] 1 x.microseconds ?_ (by omega) rfl ?_
  · simp
  · exact select_leftOnce x.microseconds

/-- A task sleeps as long as it was told to just when the product does not wrap around. -/
theorem neverEarly_iff_fits (x : SleepCall) : NeverEarly x ↔ x.Fits := by
  refine ⟨fun h => ?_, neverEarly_of_fits⟩
  by_contra hx
  exact not_neverEarly_of_wrap (x.microseconds_lt_promised hx) h

/-- 4294968 milliseconds become 704 microseconds. -/
theorem not_neverEarly_wrapped : ¬∀ x, NeverEarly x := by
  intro h
  exact not_neverEarly_of_wrap (by decide) (h (.ms 4294968))

end RadKernel.Sched
