import RadKernel.Sched.InterruptSteps

/-!
# Preemption

The timer interrupt sets the flag of its core, pins the task to the core and yields. The flag is
cleared when the task is dispatched again and returns from the interrupt, so until then no other
task of the core is preempted.

A task that is killed while it is pinned is not dispatched again, and the flag stays set.
-/

namespace RadKernel.Sched

variable {s t : State} {c i id now : Nat} {core : Core} {tasks : Nat → Task}
  {task : Task}

/-! ## Runs -/

variable {f : Frame} {k : Nat × Op} {w : Watched} {rest : List Frame}

section
variable (h : PreInv s) (hinv : Inv s)
include h hinv

section
variable (hstack : (s.cores c).cpu.stack = f :: rest)
include hstack

theorem PreInv.runOne (hf : f.runsCode ∨ f = .falling)
    (hnested : Nested s c → selectTask s c now = none) : PreInv (stepRunOne s c f now) := by
  unfold stepRunOne runOneTaskOnCore
  cases hi : selectTask s c now with
  | none => exact h.enter hinv hstack (hf.imp_right fun he => .inr (.inl he)) [] (by simp)
  | some i =>
    simp only [dispatch, State.setCore_setCore]
    rw [setBoth_core]
    refine h.pick hinv hstack hf hi (fun hn => ?_) rfl rfl rfl
    simp [hnested hn] at hi

theorem PreInv.yield (hf : f.runsCode ∨ f = .yielding) (busy : Bool) :
    PreInv (stepYield s c f busy) := by
  unfold stepYield
  split
  case h_1 =>
    exact h.enter hinv hstack (hf.imp_right .inl) [.falling] (by simp)
  case h_2 i hi =>
    unfold yieldedTask at hi
    split_ifs at hi
    obtain ⟨hfind, hcond⟩ := Option.filter_eq_some_iff.1 hi
    simp only [Bool.and_eq_true, Bool.not_eq_true'] at hcond
    have hunpinned := (h.slot i).unpinned hcond.1
    refine h.leave hinv hstack hf hfind ?_ ?_ ?_ ?_
    · unfold yieldTask; dsimp only; split_ifs <;> rfl
    · unfold yieldTask; dsimp only; split_ifs <;> rfl
    · unfold yieldTask; dsimp only; split_ifs <;> simp [hunpinned]
    · intro _ hflag
      simp [yieldTask, hflag, hunpinned, hcond.2]

theorem PreInv.sleep (hf : f.runsCode) (now microseconds : Nat) :
    PreInv (stepSleep s c now microseconds) := by
  unfold stepSleep
  split
  case h_1 i hi =>
    unfold sleptTask at hi
    split_ifs at hi
    obtain ⟨hfind, hrun⟩ := Option.filter_eq_some_iff.1 hi
    have hunpinned := (h.slot i).unpinned hrun
    have hleave := h.leave hinv hstack (.inl hf) hfind
      (show (sleepTask (s.tasks i) now microseconds).running = false from rfl) rfl
      (by simp [sleepTask, hunpinned]) (by rintro rfl; simp [Frame.runsCode] at hf)
    simpa [Core.enter, hf] using hleave
  case h_2 =>
    dsimp only
    have hpush : ∀ {t : State}, PreInv t → Inv t → t.cores = s.cores →
        PreInv (t.setCore c ((s.cores c).push [.dozing (s.cores c).currentTaskId])) := by
      intro t ht htinv hcores
      have hpre := ht.enter htinv (by rw [hcores]; exact hstack) (.inl hf)
        [.dozing (s.cores c).currentTaskId] (by simp)
      simpa [Core.enter, hf, hcores] using hpre
    cases hd : dozingTask s (s.cores c).currentTaskId with
    | none => exact hpush h hinv rfl
    | some j => exact hpush (h.mark ⟨rfl, rfl⟩ (.inl rfl)) (hinv.mark _ rfl) rfl

end

theorem PreInv.wake
    (hstack : (s.cores c).cpu.stack = .dozing id :: rest) : PreInv (stepWake s c id) := by
  unfold stepWake
  have hpop : ∀ {t : State}, PreInv t → Inv t → t.cores = s.cores →
      PreInv (t.setCore c ((s.cores c).replace [])) := by
    intro t ht htinv hcores
    have hpre := ht.enter htinv (by rw [hcores]; exact hstack)
      (.inr (.inr (.inr ⟨id, rfl⟩))) [] (by simp)
    simpa [Core.enter, Frame.runsCode, hcores] using hpre
  cases hd : dozingTask s id with
  | none => exact hpop h hinv rfl
  | some j => exact hpop (h.mark ⟨rfl, rfl⟩ (.inl rfl)) (hinv.mark _ rfl) rfl

theorem PreInv.settle (hstack : (s.cores c).cpu.stack = .resumed i :: rest) :
    PreInv ((s.setTask i (settle (s.tasks i))).setCore c ((s.cores c).replace [.released i])) := by
  refine h.after hinv hstack (.inl rfl) (.inr rfl) ?_ ?_
  · unfold Sched.settle
    split_ifs <;> rfl
  · unfold Sched.settle
    split_ifs with hrun
    · exact .inr ⟨rfl, (h.core c).ended i (by simp [hstack]) hrun.2⟩
    · exact .inl rfl

theorem PreInv.createConfig (targetCore : Int)
    (hfree : ∀ i ∈ freeTask s, ∀ c, s.thread c ≠ some i ∧
      s.top c ≠ some (.resumed i) ∧ s.top c ≠ some (.released i)) :
    PreInv (radTaskCreateConfig s targetCore).2 := by
  rcases radTaskCreateConfig_cases s targetCore with ⟨-, heq⟩ | ⟨i, hi, heq⟩
  · rw [heq]; exact h
  · rw [heq]
    have hheld := (hinv.not_onCpu (freeTask_some hinv hi) (hfree i hi)).1
    have hp := List.find?_some hi
    refine h.create hinv hheld ?_ rfl rfl
    cases he : (s.tasks i).entry with
    | false => exact .inl rfl
    | true => exact .inr (by simp_all)

theorem PreInv.step (hk : Undisturbed s k) : PreInv (step s k) := by
  obtain ⟨c, op⟩ := k
  obtain ⟨horderly, hk⟩ := hk
  refine step_cases h fun f rest t hstack hacts => ?_
  cases hacts with
  | runOne hf => exact h.runOne hinv hstack hf hk
  | yield hf => exact h.yield hinv hstack hf _
  | sleep hf => exact h.sleep hinv hstack hf _ _
  | irq hcur hflag =>
    exact h.irq hinv hstack (hinv.plain_of_current hstack (horderly.below hstack) hcur) hcur hflag
  | create => exact h.createConfig hinv _ horderly
  | kill => exact h.mark ⟨rfl, rfl⟩ (.inr hk)
  | detach => exact h.mark ⟨rfl, rfl⟩ (.inl rfl)
  | own => exact h.own hinv hstack
  | switchTo => exact h.switchTo hinv hstack
  | settle => exact h.settle hinv hstack
  | release => exact h.after hinv hstack (.inr rfl) (.inl rfl) rfl (.inl rfl)
  | wake => exact h.wake hinv hstack
  | start => exact h.start hinv hstack
  | irqEnd => exact h.irqEnd hinv hstack
  | @finish core task =>
    obtain ⟨rfl, hcur⟩ := horderly core task (by rw [State.top, hstack]; rfl)
    cases task with
    | none => exact h.finish_none hinv hstack
    | some i => exact h.finish_some hinv hstack (hcur i rfl)
  | leave =>
    obtain ⟨-, hthread, hon, hcur, hret⟩ := hinv.inFrame hstack
    exact h.switchAway hinv hstack rfl (.inl rfl) hthread hon hcur hret (.inl ⟨rfl, rfl⟩)
  | nowhere =>
    obtain ⟨rfl, -⟩ := hinv.inFrame hstack
    exact h.switchNowhere hinv hstack
  | @halt _ i =>
    obtain ⟨rfl, rfl, hthread, hbusy, hcur, hret⟩ := hinv.inFrame hstack
    exact h.switchAway hinv hstack rfl (.inr ⟨rfl, rfl⟩) hthread (hbusy i rfl).2 hcur hret
      (.inr ⟨rfl, rfl⟩)

end

theorem preInv_of_booted (h : Booted s) : PreInv s where
  core c := by
    refine .of_cons (show (s.cores c).cpu.stack = [.kernel] by rw [h.cpu c]) (by simp) (by simp)
      (by simp) (by simp) ?_ ?_ (by simp) (by simp) (by simp)
    · simp [h.schedulerContext c]
    · exact fun hret => absurd (h.currentTaskId c) ((returning_of_plain rfl).1 hret)
  slot i := by rw [h.tasks i]; constructor <;> simp
  stored i _ d hd := by
    obtain ⟨x, hx, -⟩ := hd.2
    simp [h.tasks i] at hx
  unstuck c hflag := by
    rw [h.inIrq c] at hflag
    exact Bool.noConfusion hflag

/-! ## The core a task was created with -/

/-- The scheduler with the target core each task was created with. -/
structure Watched where
  kernel : State
  created : Nat → Int

def Watched.step (w : Watched) (k : Nat × Op) : Watched where
  kernel := Sched.step w.kernel k
  created := match recycled w.kernel k, k.2 with
    | some i, .create targetCore => Function.update w.created i targetCore
    | _, _ => w.created

/-- The target core of a task once it is no longer pinned. -/
def Task.home (task : Task) : Int :=
  if task.preemptPinned then task.preemptSavedTargetCore else task.targetCore

/-- The slots keep their tasks and the cores these belong to. -/
def SameHomes (s t : State) : Prop :=
  ∀ i, (t.tasks i).entry = (s.tasks i).entry ∧ (t.tasks i).home = (s.tasks i).home

theorem SameHomes.refl (s : State) : SameHomes s s := fun _ => ⟨rfl, rfl⟩

theorem SameHomes.setTask (hentry : task.entry = (s.tasks i).entry)
    (hhome : task.home = (s.tasks i).home) : SameHomes s (s.setTask i task) := by
  intro j
  by_cases hj : j = i
  · subst hj; simp [State.setTask, hentry, hhome]
  · simp [State.setTask, hj]

theorem selectedTask_home : (selectedTask task c).home = task.home := by
  unfold selectedTask
  dsimp only
  split_ifs with hp
  · simp [Task.home, hp.1]
  · rfl

theorem yieldTask_home (b : Bool) : (yieldTask task c b).home = task.home ∧
    (yieldTask task c b).entry = task.entry := by
  unfold yieldTask
  dsimp only
  split_ifs with hp
  · have hunpinned : task.preemptPinned = false := by simpa using hp.2
    simp [Task.home, hunpinned]
  · exact ⟨rfl, rfl⟩

theorem switchAway_home {k : Nat} {frames : List Frame} :
    SameHomes s (switchAway s c i k frames) := by
  unfold switchAway
  split
  · exact .refl s
  · exact .setTask rfl rfl

/-- Only a new task changes the core a slot belongs to. -/
theorem step_homes (h : ∀ i, recycled s k ≠ some i) : SameHomes s (step s k) := by
  obtain ⟨c, op⟩ := k
  refine step_cases (.refl s) fun f rest t hstack hacts => ?_
  cases hacts with
  | @runOne _ now =>
    rw [stepRunOne, runOneTaskOnCore]
    cases selectTask s c now with
    | none => exact .refl s
    | some i => exact .setTask selectedTask_owner.2.1 selectedTask_home
  | @yield _ busy =>
    rw [stepYield]
    cases yieldedTask s c busy with
    | none => exact .refl s
    | some i => exact .setTask (yieldTask_home _).2 (yieldTask_home _).1
  | sleep =>
    simp only [stepSleep]
    cases sleptTask s c with
    | some i => exact .setTask rfl rfl
    | none =>
      cases dozingTask s (s.cores c).currentTaskId with
      | none => exact .refl s
      | some j => exact .setTask rfl rfl
  | @wake id =>
    simp only [stepWake]
    cases dozingTask s id with
    | none => exact .refl s
    | some j => exact .setTask rfl rfl
  | @create _ targetCore hf =>
    rcases radTaskCreateConfig_cases s targetCore with ⟨-, heq⟩ | ⟨i, hi, heq⟩
    · rw [heq]; exact .refl s
    · exact absurd (by simp [recycled, State.top, hstack, hf, heq, hi]) (h i)
  | settle => refine .setTask ?_ ?_ <;> · unfold settle; split_ifs <;> rfl
  | @finish _ task =>
    cases task with
    | none => exact .refl s
    | some i => exact .setTask rfl rfl
  | own | release | kill | detach => exact .setTask rfl rfl
  | leave | halt => exact switchAway_home
  | nowhere | switchTo | start | irq | irqEnd => exact .refl s

theorem step_recycled (h : recycled s k = some i) :
    ∃ targetCore, k.2 = .create targetCore ∧
      (step s k).tasks = Function.update s.tasks i (newTask s targetCore) := by
  obtain ⟨c, op⟩ := k
  cases op <;> simp only [recycled, reduceCtorEq] at h
  case create targetCore =>
    split_ifs at h with hcond
    obtain ⟨⟨f, hf, hcode⟩, hok⟩ := hcond
    refine ⟨targetCore, rfl, ?_⟩
    simp only [step, Option.mem_def.1 hf, stepIn, if_pos hcode]
    rcases radTaskCreateConfig_cases s targetCore with ⟨hne, -⟩ | ⟨j, hj, heq⟩
    · exact absurd hok hne
    · obtain rfl : j = i := Option.some.inj (hj.symm.trans h)
      rw [heq]
      rfl

/-- A task is pinned to the core it was created with, or will return to it. -/
def Watched.Faithful (w : Watched) : Prop :=
  ∀ i, (w.kernel.tasks i).entry → (w.kernel.tasks i).home = w.created i

theorem Watched.Faithful.step (h : w.Faithful) (k : Nat × Op) : (w.step k).Faithful := by
  intro j hj
  cases hr : recycled w.kernel k with
  | none =>
    have hnone : ∀ i, recycled w.kernel k ≠ some i := by simp [hr]
    obtain ⟨hentry, hhome⟩ := step_homes hnone j
    simp only [Watched.step, hr] at hj ⊢
    rw [hentry] at hj
    rw [hhome]
    exact h j hj
  | some i =>
    obtain ⟨targetCore, hop, htasks⟩ := step_recycled hr
    simp only [Watched.step, hr, hop, htasks] at hj ⊢
    by_cases hji : j = i
    · subst hji; simp [newTask, Task.home]
    · simp only [Function.update_of_ne hji] at hj ⊢
      exact h j hj

/-! ## Results -/

def Started (w : Watched) : Prop := Booted w.kernel

theorem preInv_of_run (h : Run (Obeys Watched.step fun w k => Undisturbed w.kernel k) Started w) :
    Inv w.kernel ∧ PreInv w.kernel := by
  refine h.invariant (J := fun w => Inv w.kernel ∧ PreInv w.kernel)
    (fun w hw => ⟨inv_of_booted (s := w.kernel) hw, preInv_of_booted (s := w.kernel) hw⟩) ?_
  rintro w k - ⟨hinv, hpre⟩ ⟨hk, rfl⟩
  exact ⟨hinv.step hk.1, hpre.step hinv hk⟩

/-- The flag of a core is cleared by the core itself or by the resumption of a pinned task, and a
task that is not pinned has the target core it was created with. -/
theorem unstuck_of_run :
    (∀ w, Run (Obeys Watched.step fun w k => Undisturbed w.kernel k) Started w →
      ∀ c, (w.kernel.cores c).inIrq → Unstuck w.kernel c) ∧
    ∀ w, Run (Obeys Watched.step fun _ _ => True) Started w →
      ∀ i, (w.kernel.tasks i).entry → (w.kernel.tasks i).preemptPinned = false →
        (w.kernel.tasks i).targetCore = w.created i := by
  refine ⟨fun w hw => (preInv_of_run hw).2.unstuck, fun w hw i hentry hunpinned => ?_⟩
  have hfaithful : w.Faithful := by
    refine hw.invariant (fun w hw i hi => ?_) ?_
    · simp [hw.tasks i] at hi
    · rintro w k - hw ⟨-, rfl⟩
      exact hw.step k
  simpa [Task.home, hunpinned] using hfaithful i hentry

def watchedCores : Watched := ⟨twoCores, fun _ => 0⟩

/-- The timer interrupts the task of the worker, and the worker stores the task's context. -/
def preemptedOnce : List (Nat × Op) :=
  [(0, .create 1), (1, .runOne 0), (1, .own), (1, .switchTo), (1, .start), (1, .irq false),
    (1, .yield false), (1, .switchAway), (1, .settle), (1, .release)]

theorem undisturbed_preemptedOnce :
    Along Watched.step (fun w k => Undisturbed w.kernel k) watchedCores preemptedOnce := by
  refine ⟨⟨?_, trivial⟩, ⟨trivial, ?_⟩, ⟨trivial, trivial⟩, ⟨trivial, trivial⟩,
    ⟨trivial, trivial⟩, ⟨?_, trivial⟩, ⟨trivial, trivial⟩, ⟨trivial, trivial⟩, ⟨trivial, trivial⟩,
    ⟨trivial, trivial⟩, trivial⟩
  · intro i _ c
    simp [watchedCores, twoCores, State.thread, State.top]
  · exact fun hn => absurd hn (by decide +kernel)
  · intro i
    have htop : ((preemptedOnce.take 5).foldl Watched.step watchedCores).kernel.top 1 =
        some (.body 1 (some 0)) := by decide +kernel
    exact ⟨fun he => by simpa using htop.symm.trans he, fun he => by simpa using htop.symm.trans he⟩

theorem unstuck_preemptedOnce : Unstuck (preemptedOnce.foldl Watched.step watchedCores).kernel 1 :=
  unstuck_of_run.1 _ (.along _ (.start (show Started watchedCores from booted_twoCores))
    undisturbed_preemptedOnce) 1 (by decide +kernel)

/-- The core is inside `rad_scheduler_yield_from_irq` and something is called from there. -/
def BeforeSwitch (s : State) (c : Nat) : Prop := .irq c ∈ (s.cores c).cpu.stack.tail

instance : Decidable (BeforeSwitch s c) :=
  inferInstanceAs (Decidable (.irq c ∈ (s.cores c).cpu.stack.tail))

/-- A pinned task for every flag that is set, as soon as the interrupt has switched. -/
def AlwaysPinned (s : State) : Prop :=
  ∀ c, (s.cores c).inIrq → ¬BeforeSwitch s c → ∃ i < maxTasks, (s.tasks i).entry ∧
    (s.tasks i).finished = false ∧ (s.tasks i).preemptPinned ∧ (s.tasks i).targetCore = (c : Int)

theorem run_preemptedOnce :
    Run (Obeys Watched.step fun w k => Undisturbed w.kernel k) Started
      (preemptedOnce.foldl Watched.step watchedCores) :=
  .along _ (.start (show Started watchedCores from booted_twoCores)) undisturbed_preemptedOnce

/-- The worker selects the task again: the task is no longer pinned and the flag is still set. -/
theorem not_alwaysPinned_selected :
    ¬∀ w, Run (Obeys Watched.step fun w k => Undisturbed w.kernel k) Started w →
      AlwaysPinned w.kernel := by
  intro h
  have hk : Undisturbed (preemptedOnce.foldl Watched.step watchedCores).kernel (1, .runOne 0) :=
    ⟨trivial, fun hn => absurd hn (by decide +kernel)⟩
  have hpinned := h _ (run_preemptedOnce.step ⟨hk, rfl⟩) 1
  revert hpinned
  decide +kernel

end RadKernel.Sched
