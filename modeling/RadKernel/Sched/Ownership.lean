import RadKernel.Sched.Steps
import RadKernel.Lib.Run

/-!
# Who owns a task

A core holds a slot while it executes the slot's stack, while it handles the slot in
`run_one_task_on_core`, and while the slot's stack waits for the task that was started from it.
A slot is held at most once (`Inv`), and a slot that is held is `running` or `on_cpu`, so no
other core selects it.

`rad_task_create_config` looks at `running` and `finished` only. It takes the slot of a
finished task from the core that is about to clear `on_cpu`.
-/

namespace RadKernel.Sched

variable {s : State} {c i id now : Nat} {core : Core} {tasks : Nat → Task}
  {task : Task}

/-! ## The property -/

/-- The slot that a step of `run_one_task_on_core` selects. -/
def dispatched (s : State) : Nat × Op → Option Nat
  | (c, .runOne now) =>
    if ∃ f ∈ s.top c, f.runsCode ∨ f = .falling then selectTask s c now else none
  | _ => none

/-- The slot that a step of `rad_task_create_config` clears. -/
def recycled (s : State) : Nat × Op → Option Nat
  | (c, .create targetCore) =>
    if (∃ f ∈ s.top c, f.runsCode) ∧ (radTaskCreateConfig s targetCore).1 = .ok then freeTask s
    else none
  | _ => none

/-- What a step keeps. A core that executes a slot's stack has not stored its context. -/
structure Kept (s : State) (k : Nat × Op) : Prop where
  executed : ∀ c c' i, (step s k).thread c = some i → (step s k).thread c' = some i → c = c'
  stored : ∀ i ∈ dispatched s k, ∀ c, s.thread c ≠ some i
  released : ∀ i ∈ recycled s k, (s.tasks i).onCpu = false

/-- A created task finds no core that is still leaving the slot or clearing up after it, a task
ends on the core it started on and as the current task of that core, and no interrupt yields
between the selection of a task and the switch to it. -/
def Orderly (s : State) : Nat × Op → Prop
  | (_, .create _) => ∀ i ∈ freeTask s, ∀ c, s.thread c ≠ some i ∧
      s.top c ≠ some (.resumed i) ∧ s.top c ≠ some (.released i)
  | (c, .finish) => ∀ core task, s.top c = some (.body core task) →
      core = c ∧ ∀ i ∈ task, (s.cores c).currentTaskId = (s.tasks i).id
  | (c, .irq _) => ∀ i, s.top c ≠ some (.picked i) ∧ s.top c ≠ some (.owned i)
  | _ => True

/-- The scheduler before the first task is created. -/
structure Booted (s : State) : Prop where
  tasks : ∀ i, s.tasks i = {}
  cpu : ∀ c, (s.cores c).cpu = ⟨none, [.kernel]⟩
  schedulerContext : ∀ c, (s.cores c).schedulerContext = none
  currentTaskId : ∀ c, (s.cores c).currentTaskId = 0
  inIrq : ∀ c, (s.cores c).inIrq = false
  nextTaskId : 0 < s.nextTaskId

/-! ## Runs -/

theorem Orderly.below {f : Frame} {rest : List Frame} {busy : Bool} (h : Orderly s (c, .irq busy))
    (hstack : (s.cores c).cpu.stack = f :: rest) (i : Nat) : f ≠ .picked i ∧ f ≠ .owned i := by
  have htop : s.top c = some f := by rw [State.top, hstack]; rfl
  obtain ⟨hp, ho⟩ := h i
  exact ⟨fun he => hp (by rw [htop, he]), fun he => ho (by rw [htop, he])⟩

theorem Inv.step {k : Nat × Op} (h : Inv s) (hk : Orderly s k) : Inv (step s k) := by
  obtain ⟨c, op⟩ := k
  refine step_cases h fun f rest t hstack hacts => ?_
  cases hacts with
  | runOne hf => exact h.runOne hstack (hf.imp_right fun he => by rw [he]; trivial) _
  | yield hf => exact h.yield hstack (hf.imp_right fun he => by rw [he]; trivial) _
  | sleep hf => exact h.sleep hstack hf _ _
  | irq hcur => exact h.irq hstack (h.plain_of_current hstack (hk.below hstack) hcur)
  | create => exact h.createConfig _ hk
  | kill | detach => exact h.mark _ rfl
  | own => exact h.own hstack
  | switchTo => exact h.switchTo hstack
  | settle => exact h.settle hstack
  | release => exact h.release hstack
  | wake => exact h.wake hstack
  | start => exact h.start hstack
  | irqEnd => exact h.irqEnd hstack
  | @finish core task =>
    obtain ⟨rfl, hcur⟩ := hk core task (by rw [State.top, hstack]; rfl)
    cases task with
    | none => exact h.finish_none hstack
    | some i => exact h.finish_some hstack (hcur i rfl)
  | leave =>
    obtain ⟨hst, hthread, hon, hcur, hret⟩ := h.inFrame hstack
    exact h.switchAway hstack rfl rfl hthread hon hcur hret (hthread ▸ hst)
  | nowhere =>
    obtain ⟨rfl, -⟩ := h.inFrame hstack
    exact h.switchNowhere hstack
  | @halt _ i =>
    obtain ⟨rfl, rfl, hthread, hbusy, hcur, hret⟩ := h.inFrame hstack
    exact h.switchAway hstack rfl rfl hthread (hbusy i rfl).2 hcur hret
      (.inl ⟨by simp [Outermost], rfl⟩)

theorem inv_of_booted (h : Booted s) : Inv s where
  core c := by
    have hholds : (s.cores c).holdings = [] := by
      rw [Core.holdings_eq (by rw [h.cpu c])]
      simp [Core.heldIn, h.cpu c, Frame.handled, Core.waiting, Core.returning, h.currentTaskId c]
    refine ⟨⟨.kernel, [], by rw [h.cpu c], (inFrame_of_plain rfl).2 ⟨?_, ?_, ?_⟩⟩, ?_⟩
    · rw [h.cpu c]; exact .inl ⟨rfl, rfl⟩
    · rw [h.cpu c]; simp [Busy]
    · exact fun hne => absurd (h.currentTaskId c) hne
    · rw [hholds]; exact List.nodup_nil
  apart c c' i hi := by
    rw [Core.holdings_eq (by rw [h.cpu c])] at hi
    simp [Core.heldIn, h.cpu c, Frame.handled, Core.waiting, Core.returning,
      h.currentTaskId c] at hi
  slot i := by rw [h.tasks i]; constructor <;> simp
  distinct i j hi := by simp [h.tasks i] at hi
  held i hon := by simp [h.tasks i] at hon
  next := h.nextTaskId

theorem inv_of_run (h : Run (Obeys step Orderly) Booted s) : Inv s :=
  h.invariant (fun _ => inv_of_booted) fun _ _ _ hinv ⟨hk, ht⟩ => ht ▸ hinv.step hk

theorem Inv.executed (h : Inv s) {c' : Nat} (hc : s.thread c = some i)
    (hc' : s.thread c' = some i) : c = c' := by
  have hmem : ∀ {c}, s.thread c = some i → i ∈ (s.cores c).holdings := by
    intro c hc
    obtain ⟨f, rest, hstack, -⟩ := (h.core c).frame
    rw [Core.holdings_eq hstack]
    exact Core.mem_heldIn.2 (.inl hc)
  exact h.apart c c' i (hmem hc) (hmem hc')

/-- A slot executes on one core, is dispatched after its context was stored and is recycled after
it was released, in runs whose steps are `Orderly`. -/
theorem kept_of_run {k : Nat × Op} (h : Run (Obeys step Orderly) Booted s) (hk : Orderly s k) :
    Kept s k where
  executed c c' i hc hc' := ((inv_of_run h).step hk).executed hc hc'
  stored i hi c hc := by
    have hinv := inv_of_run h
    obtain ⟨c', op⟩ := k
    cases op <;> simp only [dispatched, Option.mem_def, reduceCtorEq] at hi
    split_ifs at hi
    obtain ⟨-, -, hrun, hon, -⟩ := taskMatchesCore_true (selectTask_some hi)
    obtain ⟨f, rest, hstack, -⟩ := (hinv.core c).frame
    refine hinv.not_held (c := c) hrun hon ?_
    rw [Core.holdings_eq hstack]
    exact Core.mem_heldIn.2 (.inl hc)
  released i hi := by
    have hinv := inv_of_run h
    obtain ⟨c', op⟩ := k
    cases op <;> simp only [recycled, Option.mem_def, reduceCtorEq] at hi
    split_ifs at hi
    exact (hinv.not_onCpu (freeTask_some hinv hi) (hk i hi)).2

def twoCores : State := { detectedCores := 2, workerRunningMask := 2, preemptionEnabled := true }

theorem booted_twoCores : Booted twoCores := by
  constructor <;> simp [twoCores]

/-- The worker runs a task up to where the task yields and its context is stored. -/
def yieldedOnce : List (Nat × Op) :=
  [(0, .create 1), (1, .runOne 0), (1, .own), (1, .switchTo), (1, .start), (1, .yield false),
    (1, .switchAway), (1, .settle), (1, .release)]

theorem kept_yieldedOnce : Kept (yieldedOnce.foldl step twoCores) (1, .runOne 0) := by
  refine kept_of_run (.along _ (.start booted_twoCores) ⟨?_, ?_⟩) trivial
  · intro i _ c
    simp [twoCores, State.thread, State.top]
  · exact ⟨trivial, trivial, trivial, trivial, trivial, trivial, trivial, trivial, trivial⟩

/-- The task ends and the worker is about to clear `on_cpu`. -/
def endedOnce : List (Nat × Op) :=
  [(0, .create 1), (1, .runOne 0), (1, .own), (1, .switchTo), (1, .start), (1, .finish),
    (1, .switchAway), (1, .settle)]

/-- The service core creates a task in that moment and is given the slot. -/
theorem not_kept_endedOnce : ¬∀ s k, Run (Obeys step fun _ _ => True) Booted s → Kept s k := by
  intro h
  have hrun : Run (Obeys step fun _ _ => True) Booted (endedOnce.foldl step twoCores) :=
    .along _ (.start booted_twoCores) ⟨trivial, trivial, trivial, trivial, trivial, trivial,
      trivial, trivial, trivial⟩
  have hkept := (h _ (0, .create 1) hrun).released 0 (by decide +kernel)
  revert hkept
  decide +kernel

end RadKernel.Sched
