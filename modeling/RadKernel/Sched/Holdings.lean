import Mathlib.Tactic.Common
import RadKernel.Sched.Model

/-!
# The slots a core holds

A core holds a slot while it executes the slot's stack, while it handles the slot in
`run_one_task_on_core`, and while the slot's stack waits for the task that was started from it.
`Inv` says that a slot is held at most once and that a slot which is held is `running` or
`on_cpu`, so that no core selects it.
-/

namespace RadKernel.Sched

open Function
open State (setTask setCore)

/-! ## What a step can do -/

/-- The steps of a core in the function `f` that are not refused. -/
inductive Acts (s : State) (c : Nat) : Frame → Op → State → Prop
  | runOne {f now} (hf : f.runsCode ∨ f = .falling) :
    Acts s c f (.runOne now) (stepRunOne s c f now)
  | own {i} : Acts s c (.picked i) .own (stepIn s c (.picked i) .own)
  | switchTo {i} : Acts s c (.owned i) .switchTo (stepIn s c (.owned i) .switchTo)
  | settle {i} : Acts s c (.resumed i) .settle (stepIn s c (.resumed i) .settle)
  | release {i} : Acts s c (.released i) .release (stepIn s c (.released i) .release)
  | yield {f busy} (hf : f.runsCode ∨ f = .yielding) :
    Acts s c f (.yield busy) (stepYield s c f busy)
  | sleep {f now microseconds} (hf : f.runsCode) :
    Acts s c f (.sleep now microseconds) (stepSleep s c now microseconds)
  | wake {id} : Acts s c (.dozing id) .wake (stepWake s c id)
  | leave {i} : Acts s c (.leaving i) .switchAway (switchAway s c i c [])
  | halt {core i} : Acts s c (.ended core (some i)) .switchAway (switchAway s c i core [.halted])
  | nowhere {core} : Acts s c (.ended core none) .switchAway (switchNowhere s c core)
  | start : Acts s c .start .start (stepIn s c .start .start)
  | finish {core task} : Acts s c (.body core task) .finish (stepFinish s c core task)
  | irq {f busy} (hcur : (s.cores c).currentTaskId ≠ 0) (hflag : (s.cores c).inIrq = false) :
    Acts s c f (.irq busy)
      (s.setCore c { (s.cores c).push [.yielding, .irq c] with inIrq := true })
  | irqEnd {core} : Acts s c (.irq core) .irqEnd (stepIrqEnd s c core)
  | create {f targetCore} (hf : f.runsCode) :
    Acts s c f (.create targetCore) (radTaskCreateConfig s targetCore).2
  | kill {f i} (hf : f.runsCode) : Acts s c f (.kill i) (killTask s i)
  | detach {f i} (hf : f.runsCode) : Acts s c f (.detach i) (radTaskDetach s i)

/-- What holds of the state and after each step that is not refused holds after the step. -/
theorem step_cases {P : State → Prop} {s : State} {c : Nat} {op : Op} (hrefused : P s)
    (hacts : ∀ f rest t, (s.cores c).cpu.stack = f :: rest → Acts s c f op t → P t) :
    P (step s (c, op)) := by
  unfold step State.top
  cases hstack : (s.cores c).cpu.stack with
  | nil => exact hrefused
  | cons f rest =>
    replace hacts {t} := hacts f rest t hstack
    cases op with
    | irq busy =>
      simp only [List.head?_cons, stepIn, stepIrq]
      split_ifs with hf
      · exact hrefused
      · push Not at hf
        exact hacts (.irq hf.2.1 (by simpa using hf.2.2.2.1))
    | runOne | yield | sleep | create | kill | detach =>
      simp only [List.head?_cons, stepIn]
      split_ifs with hf
      · exact hacts (by constructor; exact hf)
      · exact hrefused
    | switchAway =>
      cases f with
      | ended core task => cases task <;> exact hacts (by constructor)
      | leaving => exact hacts .leave
      | _ => exact hrefused
    | _ => cases f <;> first | exact hrefused | exact hacts (by constructor)

variable {s t : State} {c i j id now : Nat} {core core' : Core} {tasks tasks' : Nat → Task}
  {task : Task}

/-! ## The invariant -/

/-- The outermost function of a stack, which never returns. -/
def Outermost (thread : Option Nat) : Frame → Prop
  | .kernel => thread = none
  | .start | .halted => thread ≠ none
  | .body _ task => thread ≠ none ∧ (task = none ∨ task = thread)
  | _ => False

/-- The functions that others may have interrupted or called from. -/
def Returning : Frame → Prop
  | .yielding | .falling | .dozing _ | .irq _ => True
  | _ => False

/-- A stack on which no slot is being dispatched or left. -/
def Stacked (thread : Option Nat) : List Frame → Prop
  | [] => False
  | f :: rest => (Outermost thread f ∧ rest = []) ∨ (Returning f ∧ Stacked thread rest)

/-- A stack that is not stored in its slot. -/
def Busy (tasks : Nat → Task) (thread : Option Nat) : Prop :=
  ∀ i ∈ thread, (tasks i).running ∧ (tasks i).onCpu

/-- A core's stored context handles slot `i` when it is continued. -/
def Returns (tasks : Nat → Task) (core : Core) (i : Nat) : Prop :=
  ∃ thread rest, core.schedulerContext = some ⟨thread, .resumed i :: rest⟩ ∧
    Stacked thread rest ∧ Busy tasks thread

/-- What a core in the function `f` knows of its slots. -/
def InFrame (tasks : Nat → Task) (c : Nat) (core : Core) (rest : List Frame) : Frame → Prop
  | .leaving i => Stacked core.cpu.thread rest ∧ core.cpu.thread = some i ∧ (tasks i).onCpu ∧
      core.currentTaskId = 0 ∧ Returns tasks core i
  | .ended k (some i) => k = c ∧ rest = [] ∧ core.cpu.thread = some i ∧ Busy tasks (some i) ∧
      core.currentTaskId = 0 ∧ Returns tasks core i
  | .ended k none => k = c ∧ rest = [] ∧ core.cpu.thread ≠ none ∧ Busy tasks core.cpu.thread ∧
      core.currentTaskId = 0
  | .picked i => Stacked core.cpu.thread rest ∧ Busy tasks core.cpu.thread ∧
      core.currentTaskId = (tasks i).id ∧ (tasks i).running
  | .owned i => Stacked core.cpu.thread rest ∧ Busy tasks core.cpu.thread ∧
      core.currentTaskId = (tasks i).id ∧ Busy tasks (some i) ∧ (tasks i).context ≠ none
  | .resumed i | .released i => Stacked core.cpu.thread rest ∧ Busy tasks core.cpu.thread ∧
      core.currentTaskId = 0 ∧ (tasks i).onCpu
  | f => Stacked core.cpu.thread (f :: rest) ∧ Busy tasks core.cpu.thread ∧
      (core.currentTaskId ≠ 0 → ∃ i, core.cpu.thread = some i ∧
        (tasks i).id = core.currentTaskId ∧ Returns tasks core i)

/-- The slot that `run_one_task_on_core` handles. -/
def Frame.handled : Frame → Option Nat
  | picked i | owned i | resumed i | released i => some i
  | _ => none

/-- The stored context of the core is the one that the running task will continue. -/
def Core.returning (core : Core) : Frame → Bool
  | .leaving _ | .ended _ (some _) => true
  | .ended _ none | .picked _ | .owned _ | .resumed _ | .released _ => false
  | _ => core.currentTaskId ≠ 0

/-- The slot whose stack waits on the core. -/
def Core.waiting (core : Core) (f : Frame) : Option Nat :=
  if core.returning f then core.schedulerContext.bind Context.thread else none

/-- The slots a core in the function `f` holds. -/
def Core.heldIn (core : Core) (f : Frame) : List Nat :=
  core.cpu.thread.toList ++ f.handled.toList ++ (core.waiting f).toList

def Core.holdings (core : Core) : List Nat := core.cpu.stack.head?.elim [] core.heldIn

structure CoreInv (tasks : Nat → Task) (c : Nat) (core : Core) : Prop where
  frame : ∃ f rest, core.cpu.stack = f :: rest ∧ InFrame tasks c core rest f
  nodup : core.holdings.Nodup

structure SlotInv (next : Nat) (i : Nat) (task : Task) : Prop where
  id : task.entry → 0 < task.id ∧ task.id < next ∧ i < maxTasks
  idle : task.running ∨ task.onCpu → task.entry
  context : ∀ x ∈ task.context, x.thread = some i ∧ Stacked (some i) x.stack

structure Inv (s : State) : Prop where
  core : ∀ c, CoreInv s.tasks c (s.cores c)
  apart : ∀ c c' i, i ∈ (s.cores c).holdings → i ∈ (s.cores c').holdings → c = c'
  slot : ∀ i, SlotInv s.nextTaskId i (s.tasks i)
  distinct : ∀ i j, (s.tasks i).entry → (s.tasks j).entry → (s.tasks i).id = (s.tasks j).id →
    i = j
  held : ∀ i, (s.tasks i).onCpu → (s.tasks i).running = false → ∃ c, i ∈ (s.cores c).holdings
  next : 0 < s.nextTaskId

variable {f : Frame} {rest : List Frame} {thread : Option Nat}

theorem Core.holdings_eq (h : core.cpu.stack = f :: rest) : core.holdings = core.heldIn f := by
  simp [Core.holdings, h]

theorem Core.mem_heldIn :
    i ∈ core.heldIn f ↔
      core.cpu.thread = some i ∨ f.handled = some i ∨ core.waiting f = some i := by
  simp [Core.heldIn]

theorem Busy.congr (h : Busy tasks thread)
    (heq : ∀ i ∈ thread, tasks' i = tasks i) : Busy tasks' thread := by
  intro i hi
  rw [heq i hi]
  exact h i hi

theorem Returns.congr (h : Returns tasks core i)
    (heq : ∀ j ∈ core.schedulerContext.bind Context.thread, tasks' j = tasks j) :
    Returns tasks' core i := by
  obtain ⟨thread, rest, hctx, hrest, hbusy⟩ := h
  exact ⟨thread, rest, hctx, hrest, hbusy.congr fun j hj => heq j (by simpa [hctx] using hj)⟩

/-- A core only looks at the slots it holds. -/
theorem InFrame.congr (h : InFrame tasks c core rest f)
    (heq : ∀ j ∈ core.heldIn f, tasks' j = tasks j) : InFrame tasks' c core rest f := by
  have hexec : ∀ i ∈ core.cpu.thread, tasks' i = tasks i :=
    fun i hi => heq i (Core.mem_heldIn.2 (.inl hi))
  have hhandled : ∀ i ∈ f.handled, tasks' i = tasks i :=
    fun i hi => heq i (Core.mem_heldIn.2 (.inr (.inl hi)))
  have hthread : Busy tasks core.cpu.thread → Busy tasks' core.cpu.thread :=
    fun hb => hb.congr hexec
  have hreturns : core.returning f = true → ∀ i, Returns tasks core i → Returns tasks' core i :=
    fun hf i hr => hr.congr fun j hj =>
      heq j (Core.mem_heldIn.2 (.inr (.inr (by simpa [Core.waiting, hf] using hj))))
  cases f with
  | leaving i =>
    obtain ⟨hs, ht, hon, hcur, hr⟩ := h
    exact ⟨hs, ht, by rw [hexec i ht]; exact hon, hcur, hreturns rfl i hr⟩
  | ended k task =>
    cases task with
    | none => exact ⟨h.1, h.2.1, h.2.2.1, hthread h.2.2.2.1, h.2.2.2.2⟩
    | some i =>
      obtain ⟨hk, hnil, ht, hb, hcur, hr⟩ := h
      exact ⟨hk, hnil, ht, ht ▸ hthread (ht ▸ hb), hcur, hreturns rfl i hr⟩
  | picked i =>
    obtain ⟨hs, hb, hcur, hrun⟩ := h
    have hi := hhandled i rfl
    exact ⟨hs, hthread hb, by rw [hi]; exact hcur, by rw [hi]; exact hrun⟩
  | owned i =>
    have hi := hhandled i rfl
    obtain ⟨hs, hb, hcur, hbi, hctx⟩ := h
    exact ⟨hs, hthread hb, by rw [hi]; exact hcur, hbi.congr (by simpa using hi),
      by rw [hi]; exact hctx⟩
  | resumed i | released i =>
    obtain ⟨hs, hb, hcur, hon⟩ := h
    exact ⟨hs, hthread hb, hcur, by rw [hhandled i rfl]; exact hon⟩
  | kernel | start | body _ _ | halted | yielding | falling | dozing _ | irq _ =>
    obtain ⟨hs, hb, hcur⟩ := h
    refine ⟨hs, hthread hb, fun hne => ?_⟩
    obtain ⟨i, ht, hid, hr⟩ := hcur hne
    exact ⟨i, ht, by rw [hexec i ht]; exact hid, hreturns (by simpa [Core.returning]) i hr⟩

section
variable (h : CoreInv tasks c core)
include h

theorem CoreInv.congr (heq : ∀ j ∈ core.holdings, tasks' j = tasks j) : CoreInv tasks' c core := by
  obtain ⟨⟨f, rest, hf, hin⟩, hnodup⟩ := h
  rw [Core.holdings_eq hf] at heq
  exact ⟨⟨f, rest, hf, hin.congr heq⟩, hnodup⟩

/-- A slot that is held runs, unless the core leaves it or clears up after it. -/
theorem CoreInv.running (hi : i ∈ core.holdings) :
    (tasks i).running ∨ (tasks i).onCpu ∧ ∃ f ∈ core.cpu.stack.head?,
      f = .leaving i ∨ f = .resumed i ∨ f = .released i := by
  obtain ⟨⟨f, rest, hf, hin⟩, -⟩ := h
  rw [Core.holdings_eq hf, Core.mem_heldIn] at hi
  have hwait : ∀ j, Returns tasks core j → core.schedulerContext.bind Context.thread = some i →
      (tasks i).running := by
    rintro j ⟨thread, rest, hctx, -, hbusy⟩ hthread
    exact (hbusy i (by simpa [hctx] using hthread)).1
  cases f
  case ended _ task =>
    cases task <;> grind [InFrame, Busy, Frame.handled, Core.waiting, Core.returning]
  all_goals grind [InFrame, Busy, Frame.handled, Core.waiting, Core.returning]

/-- A slot that is held is not selected. -/
theorem CoreInv.busy (hi : i ∈ core.holdings) : (tasks i).running ∨ (tasks i).onCpu :=
  (h.running hi).imp_right And.left

end

/-- A step that changes one core and the slots no other core holds. -/
theorem Inv.of_local (c : Nat) (h : Inv s) (hnext : t.nextTaskId = s.nextTaskId)
    (hcores : ∀ c' ≠ c, t.cores c' = s.cores c')
    (htasks : ∀ j, t.tasks j ≠ s.tasks j →
      (∀ c' ≠ c, j ∉ (s.cores c').holdings) ∧ SlotInv s.nextTaskId j (t.tasks j))
    (hids : ∀ j, (t.tasks j).entry = (s.tasks j).entry ∧ (t.tasks j).id = (s.tasks j).id)
    (hcore : CoreInv t.tasks c (t.cores c))
    (hsub : ∀ j ∈ (t.cores c).holdings, ∀ c' ≠ c, j ∉ (s.cores c').holdings)
    (hheld : ∀ j, j ∈ (s.cores c).holdings ∨ t.tasks j ≠ s.tasks j → (t.tasks j).onCpu →
      (t.tasks j).running = false → j ∈ (t.cores c).holdings) : Inv t where
  core c' := by
    by_cases hc : c' = c
    · rw [hc]; exact hcore
    · rw [hcores c' hc]
      refine (h.core c').congr fun j hj => ?_
      by_contra hne
      exact (htasks j hne).1 c' hc hj
  apart c₁ c₂ j h₁ h₂ := by
    by_cases hc₁ : c₁ = c <;> by_cases hc₂ : c₂ = c
    · rw [hc₁, hc₂]
    · subst hc₁
      rw [hcores c₂ hc₂] at h₂
      exact absurd h₂ (hsub j h₁ c₂ hc₂)
    · subst hc₂
      rw [hcores c₁ hc₁] at h₁
      exact absurd h₁ (hsub j h₂ c₁ hc₁)
    · rw [hcores c₁ hc₁] at h₁
      rw [hcores c₂ hc₂] at h₂
      exact h.apart c₁ c₂ j h₁ h₂
  slot j := by
    rw [hnext]
    by_cases hj : t.tasks j = s.tasks j
    · rw [hj]; exact h.slot j
    · exact (htasks j hj).2
  distinct j k hj hk hid := by
    rw [(hids j).1] at hj
    rw [(hids k).1] at hk
    rw [(hids j).2, (hids k).2] at hid
    exact h.distinct j k hj hk hid
  held j hon hrun := by
    by_cases hj : j ∈ (s.cores c).holdings ∨ t.tasks j ≠ s.tasks j
    · exact ⟨c, hheld j hj hon hrun⟩
    · push Not at hj
      rw [hj.2] at hon hrun
      obtain ⟨c', hc'⟩ := h.held j hon hrun
      have hne : c' ≠ c := fun he => hj.1 (he ▸ hc')
      exact ⟨c', by rw [hcores c' hne]; exact hc'⟩
  next := by rw [hnext]; exact h.next

theorem Inv.setBoth (h : Inv s) (hi : ∀ c' ≠ c, i ∉ (s.cores c').holdings)
    (hentry : task.entry = (s.tasks i).entry) (hid : task.id = (s.tasks i).id)
    (hslot : SlotInv s.nextTaskId i task) (hcore : CoreInv (update s.tasks i task) c core')
    (hsub : ∀ j ∈ core'.holdings, j = i ∨ j ∈ (s.cores c).holdings)
    (hheld : ∀ j, j = i ∨ j ∈ (s.cores c).holdings → (update s.tasks i task j).onCpu →
      (update s.tasks i task j).running = false → j ∈ core'.holdings) :
    Inv ((s.setTask i task).setCore c core') := by
  have hfree : ∀ j, j = i ∨ j ∈ (s.cores c).holdings → ∀ c' ≠ c, j ∉ (s.cores c').holdings := by
    rintro j (rfl | hj) c' hc' hj'
    · exact hi c' hc' hj'
    · exact hc' (h.apart c' c j hj' hj)
  have hchanged : ∀ j, update s.tasks i task j ≠ s.tasks j → j = i := by
    intro j hne
    by_contra hj
    exact hne (by rw [update_of_ne hj])
  refine h.of_local c rfl (fun c' hc' => ?_) (fun j hne => ?_) (fun j => ?_) ?_ ?_ ?_
  · exact update_of_ne hc' _ _
  · obtain rfl := hchanged j hne
    exact ⟨hi, by simpa [setTask, setCore] using hslot⟩
  · by_cases hj : j = i
    · subst hj; simp [setTask, setCore, hentry, hid]
    · simp [setTask, setCore, hj]
  · simpa [setTask, setCore] using hcore
  · simp only [setCore, update_self]
    exact fun j hj => hfree j (hsub j hj)
  · simp only [setCore, setTask, update_self]
    exact fun j hj => hheld j (hj.elim .inr fun hne => .inl (hchanged j hne))

theorem Inv.setCore (h : Inv s) (hcore : CoreInv s.tasks c core')
    (hsub : ∀ j ∈ core'.holdings, j ∈ (s.cores c).holdings)
    (hheld : ∀ j ∈ (s.cores c).holdings, (s.tasks j).onCpu → (s.tasks j).running = false →
      j ∈ core'.holdings) : Inv (s.setCore c core') := by
  refine h.of_local c rfl (fun c' hc' => update_of_ne hc' _ _)
    (fun j hne => absurd rfl hne) (fun j => ⟨rfl, rfl⟩) ?_ ?_ ?_
  · simpa [State.setCore] using hcore
  · simp only [State.setCore, update_self]
    exact fun j hj c' hc' hj' => hc' (h.apart c' c j hj' (hsub j hj))
  · simp only [State.setCore, update_self]
    exact fun j hj => hheld j (hj.resolve_right fun hne => hne rfl)

/-! ## Frames that hold nothing -/

/-- The function neither dispatches nor leaves a task. -/
def Frame.plain : Frame → Bool
  | kernel | start | body _ _ | halted | yielding | falling | dozing _ | irq _ => true
  | _ => false

theorem inFrame_of_plain (hf : f.plain) :
    InFrame tasks c core rest f ↔ Stacked core.cpu.thread (f :: rest) ∧ Busy tasks core.cpu.thread ∧
      (core.currentTaskId ≠ 0 → ∃ i, core.cpu.thread = some i ∧
        (tasks i).id = core.currentTaskId ∧ Returns tasks core i) := by
  cases f <;> simp_all [Frame.plain, InFrame]

theorem returning_of_plain (hf : f.plain) : core.returning f ↔ core.currentTaskId ≠ 0 := by
  cases f <;> simp_all [Frame.plain, Core.returning]

theorem heldIn_of_plain (hf : f.plain) :
    core.heldIn f = core.cpu.thread.toList ++
      (if core.currentTaskId ≠ 0 then core.schedulerContext.bind Context.thread
        else none).toList := by
  cases f <;>
    simp_all [Frame.plain, Core.heldIn, Frame.handled, Core.waiting, Core.returning]

theorem Stacked.plain (h : Stacked thread (f :: rest)) : f.plain := by
  cases f <;> simp_all [Stacked, Outermost, Returning, Frame.plain]

theorem Frame.plain_of_runsCode (h : f.runsCode) : f.plain := by
  cases f <;> simp_all [Frame.runsCode, Frame.plain]

theorem Frame.plain_of_returning (h : Returning f) : f.plain := by
  cases f <;> simp_all [Returning, Frame.plain]

theorem Stacked.ne_nil {stack : List Frame} (h : Stacked thread stack) :
    ∃ f rest, stack = f :: rest := by
  cases stack with
  | nil => exact absurd h id
  | cons f rest => exact ⟨f, rest, rfl⟩

/-- The core goes on with another plain stack of the same thread. -/
theorem CoreInv.reframe (h : CoreInv tasks c core)
    (hstack : core.cpu.stack = f :: rest) (hf : f.plain)
    (hthread : core'.cpu.thread = core.cpu.thread) (hcur : core'.currentTaskId = core.currentTaskId)
    (hctx : core'.schedulerContext = core.schedulerContext)
    (hstacked : Stacked core.cpu.thread core'.cpu.stack) :
    CoreInv tasks c core' ∧ core'.holdings = core.holdings := by
  obtain ⟨g, rest', hstack'⟩ := hstacked.ne_nil
  have hg := hstack' ▸ hstacked
  have hholds : core'.holdings = core.holdings := by
    rw [Core.holdings_eq hstack, Core.holdings_eq hstack', heldIn_of_plain hf,
      heldIn_of_plain hg.plain, hthread, hcur, hctx]
  obtain ⟨⟨f', rest'', hf', hin⟩, hnodup⟩ := h
  rw [hstack] at hf'
  obtain ⟨rfl, rfl⟩ := List.cons.inj hf'
  obtain ⟨-, hbusy, hret⟩ := (inFrame_of_plain hf).1 hin
  refine ⟨⟨⟨g, rest', hstack', (inFrame_of_plain hg.plain).2 ?_⟩, hholds ▸ hnodup⟩, hholds⟩
  rw [hthread, hcur]
  exact ⟨hg, hbusy, fun hne => by simpa [Returns, hctx] using hret hne⟩

theorem InFrame.congr_core (h : InFrame tasks c core rest f)
    (hcpu : core'.cpu = core.cpu) (hcur : core'.currentTaskId = core.currentTaskId)
    (hctx : core'.schedulerContext = core.schedulerContext) : InFrame tasks c core' rest f := by
  have hr : ∀ i, Returns tasks core' i ↔ Returns tasks core i := fun i => by simp [Returns, hctx]
  cases f
  case ended _ task => cases task <;> simpa [InFrame, hcpu, hcur, hr] using h
  all_goals simpa [InFrame, hcpu, hcur, hr] using h

/-- The other fields of a core hold nothing. -/
theorem CoreInv.congr_core (h : CoreInv tasks c core) (hcpu : core'.cpu = core.cpu)
    (hcur : core'.currentTaskId = core.currentTaskId)
    (hctx : core'.schedulerContext = core.schedulerContext) :
    CoreInv tasks c core' ∧ core'.holdings = core.holdings := by
  have hholds : core'.holdings = core.holdings := by
    have hheld : core'.heldIn = core.heldIn := by
      funext f
      have hret : core'.returning f = core.returning f := by
        cases f
        case ended _ task => cases task <;> rfl
        all_goals simp [Core.returning, hcur]
      simp [Core.heldIn, Core.waiting, hret, hcpu, hctx]
    simp [Core.holdings, hcpu, hheld]
  obtain ⟨⟨f, rest, hf, hin⟩, hnodup⟩ := h
  exact ⟨⟨⟨f, rest, hcpu ▸ hf, hin.congr_core hcpu hcur hctx⟩, hholds ▸ hnodup⟩, hholds⟩

/-- What the invariant sees of a task. -/
def Task.owner (task : Task) : Nat × Bool × Bool × Bool × Option Context :=
  (task.id, task.entry, task.running, task.onCpu, task.context)

theorem Inv.congr (h : Inv s) (hcores : t.cores = s.cores) (hnext : t.nextTaskId = s.nextTaskId)
    (htasks : ∀ i, (t.tasks i).owner = (s.tasks i).owner) : Inv t := by
  simp only [Task.owner, Prod.mk.injEq] at htasks
  have hbusy : ∀ thread, Busy t.tasks thread ↔ Busy s.tasks thread := by
    simp [Busy, htasks]
  have hreturns : ∀ core i, Returns t.tasks core i ↔ Returns s.tasks core i := by
    simp [Returns, hbusy]
  refine ⟨fun c => ?_, ?_, fun i => ?_, ?_, ?_, ?_⟩
  · obtain ⟨⟨f, rest, hf, hin⟩, hnodup⟩ := h.core c
    rw [hcores]
    refine ⟨⟨f, rest, hf, ?_⟩, hnodup⟩
    cases f
    case ended _ task => cases task <;> simpa [InFrame, hbusy, hreturns, htasks] using hin
    all_goals simpa [InFrame, hbusy, hreturns, htasks] using hin
  · rw [hcores]; exact h.apart
  · obtain ⟨hid, hidle, hctx⟩ := h.slot i
    constructor <;> simpa [htasks, hnext]
  · simpa [htasks] using h.distinct
  · simpa [htasks, hcores] using h.held
  · rw [hnext]; exact h.next

section
variable (h : Inv s) (hstack : (s.cores c).cpu.stack = f :: rest) (hf : f.plain)
include h hstack hf

theorem Inv.setCore_reframe (hthread : core'.cpu.thread = (s.cores c).cpu.thread)
    (hcur : core'.currentTaskId = (s.cores c).currentTaskId)
    (hctx : core'.schedulerContext = (s.cores c).schedulerContext)
    (hstacked : Stacked (s.cores c).cpu.thread core'.cpu.stack) : Inv (s.setCore c core') := by
  obtain ⟨hcore, hholds⟩ := (h.core c).reframe hstack hf hthread hcur hctx hstacked
  exact h.setCore hcore (fun j hj => hholds ▸ hj) fun j hj _ _ => hholds ▸ hj

theorem Inv.plain :
    Stacked (s.thread c) (f :: rest) ∧ Busy s.tasks (s.thread c) ∧
      ((s.cores c).currentTaskId ≠ 0 → ∃ i, s.thread c = some i ∧
        (s.tasks i).id = (s.cores c).currentTaskId ∧ Returns s.tasks (s.cores c) i) := by
  obtain ⟨⟨f', rest', hf', hin⟩, -⟩ := h.core c
  rw [hstack] at hf'
  obtain ⟨rfl, rfl⟩ := List.cons.inj hf'
  exact (inFrame_of_plain hf).1 hin

end

theorem Stacked.tail (h : Stacked thread (f :: rest)) (hf : Returning f) : Stacked thread rest := by
  rcases h with ho | hr
  · cases f <;> simp_all [Outermost, Returning]
  · exact hr.2

theorem findTaskById_some (h : findTaskById s id = some i) :
    id ≠ 0 ∧ (s.tasks i).entry ∧ (s.tasks i).id = id := by
  unfold findTaskById at h
  split_ifs at h with hid
  have hp := List.find?_some h
  simp only [Bool.and_eq_true, beq_iff_eq] at hp
  exact ⟨hid, hp.1, hp.2⟩

section
variable (h : Inv s) (hstack : (s.cores c).cpu.stack = f :: rest)
include h hstack

theorem Inv.current (hf : f.plain) (hi : findTaskById s (s.cores c).currentTaskId = some i) :
    s.thread c = some i ∧ Returns s.tasks (s.cores c) i := by
  obtain ⟨hne, hentry, hid⟩ := findTaskById_some hi
  obtain ⟨-, hbusy, hcur⟩ := h.plain hstack hf
  obtain ⟨j, hj, hjid, hret⟩ := hcur hne
  have hjentry := (h.slot j).idle (.inl (hbusy j hj).1)
  obtain rfl := h.distinct j i hjentry hentry (hjid.trans hid.symm)
  exact ⟨hj, hret⟩

/-- What the invariant says of a core in a given function. -/
theorem Inv.inFrame : InFrame s.tasks c (s.cores c) rest f := by
  obtain ⟨⟨f', rest', hf', hin⟩, -⟩ := h.core c
  rw [hstack] at hf'
  obtain ⟨rfl, rfl⟩ := List.cons.inj hf'
  exact hin

/-- The slot that `run_one_task_on_core` handles is held by its core alone. -/
theorem Inv.handled (hf : f.handled = some i) :
    i ∈ (s.cores c).holdings ∧ (∀ c' ≠ c, i ∉ (s.cores c').holdings) ∧ s.thread c ≠ some i := by
  have hmem : i ∈ (s.cores c).holdings := by
    rw [Core.holdings_eq hstack]
    exact Core.mem_heldIn.2 (.inr (.inl hf))
  refine ⟨hmem, fun c' hc' hi' => hc' (h.apart c' c i hi' hmem), fun hthread => ?_⟩
  have hnodup := (h.core c).nodup
  rw [Core.holdings_eq hstack, Core.heldIn, hf, show (s.cores c).cpu.thread = some i from hthread]
    at hnodup
  simp at hnodup

end

theorem Busy.update (h : Busy tasks thread) (hi : thread ≠ some i) :
    Busy (Function.update tasks i task) thread :=
  h.congr fun j hj => Function.update_of_ne (fun he => hi (by rw [Option.mem_def.1 hj, he])) _ _

@[simp] theorem Core.leave_cpu : core.leave.cpu = core.cpu := rfl

@[simp] theorem Core.leave_schedulerContext :
    core.leave.schedulerContext = core.schedulerContext := rfl

@[simp] theorem Core.leave_currentTaskId : core.leave.currentTaskId = 0 := rfl

section
variable (f) (frames : List Frame)
include frames

@[simp] theorem Core.enter_thread : (core.enter f frames).cpu.thread = core.cpu.thread := by
  unfold Core.enter; split_ifs <;> rfl

@[simp] theorem Core.enter_currentTaskId :
    (core.enter f frames).currentTaskId = core.currentTaskId := by
  unfold Core.enter; split_ifs <;> rfl

@[simp] theorem Core.enter_schedulerContext :
    (core.enter f frames).schedulerContext = core.schedulerContext := by
  unfold Core.enter; split_ifs <;> rfl

end

/-- The functions that code and `rad_task_yield` call. -/
theorem Stacked.enter (hstack : core.cpu.stack = f :: rest)
    (h : Stacked core.cpu.thread (f :: rest)) (hf : f.runsCode ∨ Returning f)
    (frames : List Frame) :
    ∃ below, (core.enter f frames).cpu.stack = frames ++ below ∧
      Stacked core.cpu.thread below := by
  unfold Core.enter
  split_ifs with hcode
  · exact ⟨f :: rest, by simp [Core.push, hstack], h⟩
  · exact ⟨rest, by simp [Core.replace, hstack], h.tail (hf.resolve_left hcode)⟩

end RadKernel.Sched
