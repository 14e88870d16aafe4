import RadKernel.Sched.Ownership

/-!
# The flag of an interrupted core

The timer interrupt sets the flag of its core, pins the task to the core and yields. The flag is
cleared when the task is dispatched again and returns from the interrupt.

`PreInv` follows the frame of the interrupt: it is on the stack of the core, or waits there for a
task that was started from it, or it is stored with a task that is pinned to the core. This module
has the invariant and the steps that stay on one stack.
-/

namespace RadKernel.Sched

variable {s t : State} {c d i j id now : Nat} {core core' : Core} {tasks tasks' : Nat → Task}
  {task : Task}

/-! ## The property -/

/-- The core executes `rad_scheduler_yield_from_irq`. -/
def InInterrupt (s : State) (c : Nat) : Prop := .irq c ∈ (s.cores c).cpu.stack

/-- The core is about to switch to a task that will return from the interrupt. -/
def Resuming (s : State) (c : Nat) : Prop :=
  ∃ i, (s.top c = some (.picked i) ∨ s.top c = some (.owned i)) ∧
    ∃ x ∈ (s.tasks i).context, .irq c ∈ x.stack

/-- The interrupt waits for a task that `run_one_task_on_core` started from it. -/
def Nested (s : State) (c : Nat) : Prop :=
  ∃ f ∈ s.top c, (s.cores c).returning f ∧
    ∃ x ∈ (s.cores c).schedulerContext, .irq c ∈ x.stack

instance : Decidable (Nested s c) :=
  inferInstanceAs (Decidable (∃ f ∈ s.top c, (s.cores c).returning f ∧
    ∃ x ∈ (s.cores c).schedulerContext, .irq c ∈ x.stack))

/-- The stored context of the task is inside the interrupt of core `c`. -/
def Stored (s : State) (c i : Nat) : Prop :=
  (∀ c', s.thread c' ≠ some i) ∧ ∃ x ∈ (s.tasks i).context, .irq c ∈ x.stack

/-- An unfinished task is pinned to the core and clears the flag when it is resumed. -/
structure Preempted (s : State) (c i : Nat) : Prop where
  entry : (s.tasks i).entry
  unfinished : (s.tasks i).finished = false
  pinned : (s.tasks i).preemptPinned
  target : (s.tasks i).targetCore = c
  stored : Stored s c i

/-- Who will clear the flag of the core. -/
def Unstuck (s : State) (c : Nat) : Prop :=
  InInterrupt s c ∨ Resuming s c ∨ Nested s c ∨ ∃ i, Preempted s c i

/-- The task was taken off its core by an interrupt and has not been dispatched since. -/
def Suspended (s : State) (i : Nat) : Prop :=
  (s.tasks i).preemptPinned ∧
    ((∃ c, s.top c = some (.leaving i) ∧ .irq c ∈ (s.cores c).cpu.stack) ∨ ∃ c, Stored s c i)

/-- No suspended task is killed, and a task that was started from an interrupt starts no other. -/
def Undisturbed (s : State) (k : Nat × Op) : Prop :=
  Orderly s k ∧
    match k with
    | (_, .kill i) => ¬Suspended s i
    | (c, .runOne now) => Nested s c → selectTask s c now = none
    | _ => True

/-! ## The invariant -/

/-- A stored stack: the interrupt has yielded and its task is known. -/
def Settled (stack : List Frame) : Prop := .yielding ∉ stack ∧ ∀ k, .body k none ∉ stack

structure CorePre (tasks : Nat → Task) (c : Nat) (core : Core) : Prop where
  yielding : core.cpu.stack.head? = some .yielding → core.inIrq
  tail : .yielding ∉ core.cpu.stack.tail
  unknown : ∀ k, .body k none ∈ core.cpu.stack → core.cpu.stack = [.body k none] ∧
    core.currentTaskId = 0
  own : ∀ d, .irq d ∈ core.cpu.stack → d = c
  settled : ∀ x ∈ core.schedulerContext, Settled x.stack
  returning : ∀ f ∈ core.cpu.stack.head?, core.returning f → ∀ x ∈ core.schedulerContext,
    ∀ d, .irq d ∈ x.stack → d = c
  selected : ∀ f ∈ core.cpu.stack.head?, ∀ i, f = .picked i ∨ f = .owned i →
    ∀ x ∈ (tasks i).context, ∀ d, .irq d ∈ x.stack → d = c
  left : ∀ i, core.cpu.stack.head? = some (.leaving i) → (tasks i).running = false ∧
    (.irq c ∈ core.cpu.stack → (tasks i).preemptPinned ∧ (tasks i).targetCore = c ∧
      (tasks i).finished = false)
  ended : ∀ i, core.cpu.stack.head? = some (.resumed i) → (tasks i).running →
    ∀ x ∈ (tasks i).context, ∀ d, .irq d ∉ x.stack

structure SlotPre (task : Task) : Prop where
  pinned : task.preemptPinned → task.running = false ∧ task.targetCore ≠ coreAny
  settled : ∀ x ∈ task.context, Settled x.stack

structure PreInv (s : State) : Prop where
  core : ∀ c, CorePre s.tasks c (s.cores c)
  slot : ∀ i, SlotPre (s.tasks i)
  stored : ∀ i, (s.tasks i).running = false → ∀ d, Stored s d i →
    (s.tasks i).preemptPinned ∧ (s.tasks i).targetCore = d
  unstuck : ∀ c, (s.cores c).inIrq → Unstuck s c

theorem CorePre.congr (h : CorePre tasks c core) (hinv : CoreInv tasks c core)
    (heq : ∀ j ∈ core.holdings, tasks' j = tasks j) : CorePre tasks' c core := by
  obtain ⟨f, rest, hstack, hin⟩ := hinv.frame
  rw [Core.holdings_eq hstack] at heq
  have hhandled : ∀ i, f.handled = some i → tasks' i = tasks i :=
    fun i hi => heq i (Core.mem_heldIn.2 (.inr (.inl hi)))
  refine ⟨h.yielding, h.tail, h.unknown, h.own, h.settled, h.returning, ?_, ?_, ?_⟩
  · intro g hg i hi
    have hgf : g = f := by simpa [hstack, eq_comm] using hg
    subst hgf
    rw [hhandled i (by rcases hi with rfl | rfl <;> rfl)]
    exact h.selected g hg i hi
  · intro i hi
    have hf : f = .leaving i := by simpa [hstack] using hi
    subst hf
    rw [heq i (Core.mem_heldIn.2 (.inl hin.2.1))]
    exact h.left i hi
  · intro i hi
    have hf : f = .resumed i := by simpa [hstack] using hi
    subst hf
    rw [hhandled i rfl]
    exact h.ended i hi

/-- What the claim of a pinned task rests on. -/
def Task.pin (task : Task) : Bool × Bool × Bool × Int × Option Context :=
  (task.entry, task.finished, task.preemptPinned, task.targetCore, task.context)

theorem Preempted.of_pin (h : Preempted s c i) (hpin : (t.tasks i).pin = (s.tasks i).pin)
    (hthread : ∀ c', t.thread c' ≠ some i) : Preempted t c i := by
  simp only [Task.pin, Prod.mk.injEq] at hpin
  obtain ⟨hentry, hfin, hpinned, htarget, hctx⟩ := hpin
  refine ⟨hentry ▸ h.entry, hfin ▸ h.unfinished, hpinned ▸ h.pinned, htarget ▸ h.target, hthread, ?_⟩
  rw [hctx]
  exact h.stored.2

/-- A step that changes one core and the slots no other core holds. -/
theorem PreInv.of_local (c : Nat) (h : PreInv s) (hinv : Inv s)
    (hcores : ∀ c' ≠ c, t.cores c' = s.cores c')
    (htasks : ∀ j, t.tasks j ≠ s.tasks j →
      (∀ c' ≠ c, j ∉ (s.cores c').holdings) ∧ SlotPre (t.tasks j))
    (hpin : ∀ d ≠ c, ∀ j, Preempted s d j → (t.tasks j).pin = (s.tasks j).pin)
    (hthread : ∀ j, t.thread c = some j → s.thread c = some j ∨ (s.tasks j).running)
    (hcore : CorePre t.tasks c (t.cores c))
    (hstored : ∀ j, t.tasks j ≠ s.tasks j ∨ s.thread c = some j → (t.tasks j).running = false →
      ∀ d, Stored t d j → (t.tasks j).preemptPinned ∧ (t.tasks j).targetCore = d)
    (hunstuck : (t.cores c).inIrq → Unstuck t c) : PreInv t where
  core c' := by
    by_cases hc : c' = c
    · rw [hc]; exact hcore
    · rw [hcores c' hc]
      refine (h.core c').congr (hinv.core c') fun j hj => ?_
      by_contra hne
      exact (htasks j hne).1 c' hc hj
  slot j := by
    by_cases hj : t.tasks j = s.tasks j
    · rw [hj]; exact h.slot j
    · exact (htasks j hj).2
  stored j hrun d hd := by
    by_cases hj : t.tasks j ≠ s.tasks j ∨ s.thread c = some j
    · exact hstored j hj hrun d hd
    · push Not at hj
      have hs : Stored s d j := by
        refine ⟨fun c' hc' => ?_, by rw [← hj.1]; exact hd.2⟩
        by_cases hc : c' = c
        · exact hj.2 (hc ▸ hc')
        · exact hd.1 c' (by rw [State.thread, hcores c' hc]; exact hc')
      rw [hj.1] at hrun ⊢
      exact h.stored j hrun d hs
  unstuck c' hirq := by
    by_cases hc : c' = c
    · subst hc; exact hunstuck hirq
    have hsame := hcores c' hc
    have htop : t.top c' = s.top c' := by rw [State.top, State.top, hsame]
    rw [hsame] at hirq
    rcases h.unstuck c' hirq with hin | ⟨i, hi, hx⟩ | ⟨f, hf, hret, hx⟩ | ⟨i, hi⟩
    · exact .inl (by rw [InInterrupt, hsame]; exact hin)
    · refine .inr (.inl ⟨i, by rw [htop]; exact hi, ?_⟩)
      obtain ⟨f, rest, hstack, -⟩ := (hinv.core c').frame
      have hheld : i ∈ (s.cores c').holdings := by
        rw [Core.holdings_eq hstack]
        simp only [State.top, hstack, List.head?_cons, Option.some.injEq] at hi
        exact Core.mem_heldIn.2 (.inr (.inl (by rcases hi with rfl | rfl <;> rfl)))
      have heq : t.tasks i = s.tasks i := by
        by_contra hne
        exact (htasks i hne).1 c' hc hheld
      rw [heq]
      exact hx
    · exact .inr (.inr (.inl ⟨f, by rw [htop]; exact hf, by rw [hsame]; exact ⟨hret, hx⟩⟩))
    · refine .inr (.inr (.inr ⟨i, hi.of_pin (hpin c' hc i hi) fun c'' hc'' => ?_⟩))
      by_cases hcc : c'' = c
      · subst hcc
        rcases hthread i hc'' with hs | hrun
        · exact hi.stored.1 c'' hs
        · rw [((h.slot i).pinned hi.pinned).1] at hrun
          exact Bool.noConfusion hrun
      · exact hi.stored.1 c'' (by rw [State.thread, ← hcores c'' hcc]; exact hc'')

/-! ## Steps between plain frames -/

variable {f g : Frame} {rest' rest : List Frame}

/-- The parts of the invariant that a plain frame does not speak of. -/
theorem CorePre.of_plain (h : CorePre tasks c core)
    (hstack : core.cpu.stack = f :: rest) (hf : f.plain)
    (hcur : core'.currentTaskId = core.currentTaskId)
    (hctx : core'.schedulerContext = core.schedulerContext)
    (hstack' : core'.cpu.stack = g :: rest') (hg : g.plain) (hyield : g = .yielding → core'.inIrq)
    (htail : .yielding ∉ rest')
    (hunknown : ∀ k, .body k none ∈ g :: rest' → g :: rest' = [.body k none] ∧
      core.currentTaskId = 0) (hown : ∀ d, .irq d ∈ g :: rest' → d = c) :
    CorePre tasks c core' := by
  have hspecial : ∀ {f' : Frame}, core'.cpu.stack.head? = some f' → f'.plain := by
    intro f' hf'
    simp only [hstack', List.head?_cons, Option.some.injEq] at hf'
    exact hf' ▸ hg
  refine ⟨?_, by simpa [hstack'] using htail, ?_, by simpa [hstack'] using hown, ?_, ?_, ?_, ?_, ?_⟩
  · intro hg'
    exact hyield (by simpa [hstack'] using hg')
  · intro k hk
    rw [hstack', hcur]
    exact hunknown k (hstack' ▸ hk)
  · rw [hctx]; exact h.settled
  · intro f' hf' hr x hx d hd
    rw [hctx] at hx
    refine h.returning f (by simp [hstack]) ((returning_of_plain hf).2 ?_) x hx d hd
    rw [← hcur]
    exact (returning_of_plain (hspecial hf')).1 hr
  · rintro f' hf' i (rfl | rfl) <;> simpa [Frame.plain] using hspecial hf'
  · intro i hi
    simpa [Frame.plain] using hspecial hi
  · intro i hi
    simpa [Frame.plain] using hspecial hi

/-- A core that stays on its stack stays as near to the end of the interrupt as it was. -/
theorem Unstuck.of_plain (h : Unstuck s c)
    (hstack : (s.cores c).cpu.stack = f :: rest) (hf : f.plain)
    (hthread : core'.cpu.thread = (s.cores c).cpu.thread)
    (hcur : core'.currentTaskId = (s.cores c).currentTaskId)
    (hctx : core'.schedulerContext = (s.cores c).schedulerContext)
    (hstack' : core'.cpu.stack = g :: rest') (hg : g.plain)
    (hirq : .irq c ∈ f :: rest → .irq c ∈ g :: rest') : Unstuck (s.setCore c core') c := by
  have hcore : (s.setCore c core').cores c = core' := by simp [State.setCore]
  have htop : s.top c = some f := by simp [State.top, hstack]
  rcases h with hin | ⟨i, hi, -⟩ | ⟨f', hf', hret, hx⟩ | ⟨i, hi⟩
  · left
    rw [InInterrupt, hcore, hstack']
    exact hirq (by simpa [InInterrupt, hstack] using hin)
  · rw [htop] at hi
    rcases hi with hi | hi <;> simp only [Option.some.injEq] at hi <;> subst hi <;>
      simp [Frame.plain] at hf
  · right; right; left
    rw [htop, Option.mem_some_iff] at hf'
    subst hf'
    refine ⟨g, by simp [State.top, hcore, hstack'], ?_, by rw [hcore, hctx]; exact hx⟩
    rw [hcore, returning_of_plain hg, hcur]
    exact (returning_of_plain hf).1 hret
  · right; right; right
    refine ⟨i, hi.of_pin rfl fun c' => ?_⟩
    by_cases hc : c' = c
    · subst hc
      rw [State.thread, hcore, hthread]
      exact hi.stored.1 c'
    · simpa [State.thread, State.setCore, hc] using hi.stored.1 c'

theorem PreInv.setCore_plain (h : PreInv s) (hinv : Inv s)
    (hstack : (s.cores c).cpu.stack = f :: rest) (hf : f.plain)
    (hthread : core'.cpu.thread = (s.cores c).cpu.thread)
    (hcur : core'.currentTaskId = (s.cores c).currentTaskId)
    (hctx : core'.schedulerContext = (s.cores c).schedulerContext)
    (hstack' : core'.cpu.stack = g :: rest') (hg : g.plain) (hyield : g = .yielding → core'.inIrq)
    (htail : .yielding ∉ rest')
    (hunknown : ∀ k, .body k none ∈ g :: rest' → g :: rest' = [.body k none] ∧
      (s.cores c).currentTaskId = 0) (hown : ∀ d, .irq d ∈ g :: rest' → d = c)
    (hirq : core'.inIrq → .irq c ∈ g :: rest' ∨
      (s.cores c).inIrq ∧ (.irq c ∈ f :: rest → .irq c ∈ g :: rest')) :
    PreInv (s.setCore c core') := by
  have hcore : (s.setCore c core').cores c = core' := by simp [State.setCore]
  have hth : (s.setCore c core').thread c = s.thread c := by rw [State.thread, hcore, hthread]; rfl
  refine h.of_local c hinv (fun c' hc' => Function.update_of_ne hc' _ _)
    (fun j hne => absurd rfl hne) (fun _ _ _ _ => rfl) (fun j hj => .inl (hth ▸ hj)) ?_ ?_ ?_
  · rw [hcore]
    exact (h.core c).of_plain hstack hf hcur hctx hstack' hg hyield htail hunknown hown
  · rintro j (hne | hj) hrun d hd
    · exact absurd rfl hne
    · exact absurd (hth.trans hj) (hd.1 c)
  · rw [hcore]
    intro hi
    rcases hirq hi with hmem | ⟨hflag, hkeep⟩
    · left
      rw [InInterrupt, hcore, hstack']
      exact hmem
    · exact (h.unstuck c hflag).of_plain hstack hf hthread hcur hctx hstack' hg hkeep

theorem Stacked.mem_plain {thread : Option Nat} {stack : List Frame} (h : Stacked thread stack) :
    ∀ f ∈ stack, f.plain := by
  induction stack with
  | nil => exact absurd h id
  | cons g rest ih =>
    intro f hf
    rcases List.mem_cons.1 hf with rfl | hf
    · exact h.plain
    · rcases h with ⟨-, rfl⟩ | ⟨-, hrest⟩
      · exact absurd hf List.not_mem_nil
      · exact ih hrest f hf

@[simp] theorem Core.enter_inIrq (f : Frame) (frames : List Frame) :
    (core.enter f frames).inIrq = core.inIrq := by
  unfold Core.enter; split_ifs <;> rfl

theorem Core.enter_stack (hstack : core.cpu.stack = f :: rest) :
    ∃ below, (∀ frames, (core.enter f frames).cpu.stack = frames ++ below) ∧
      (f.runsCode ∧ below = f :: rest ∨ ¬f.runsCode ∧ below = rest) := by
  by_cases hf : f.runsCode
  · exact ⟨f :: rest, fun frames => by simp [Core.enter, hf, Core.push, hstack], .inl ⟨hf, rfl⟩⟩
  · exact ⟨rest, fun frames => by simp [Core.enter, hf, Core.replace, hstack], .inr ⟨hf, rfl⟩⟩

section
variable (h : PreInv s) (hinv : Inv s) (hstack : (s.cores c).cpu.stack = f :: rest)
include h hinv hstack

theorem PreInv.irq (hf : f.plain)
    (hcur : (s.cores c).currentTaskId ≠ 0) (hflag : (s.cores c).inIrq = false) :
    PreInv (s.setCore c { (s.cores c).push [.yielding, .irq c] with inIrq := true }) := by
  have hc := h.core c
  refine h.setCore_plain hinv hstack hf rfl rfl rfl
    (show _ = .yielding :: .irq c :: f :: rest by simp [Core.push, hstack]) rfl (fun _ => rfl) ?_ ?_
    ?_ fun _ => .inl (by simp)
  · have hne : f ≠ .yielding := by
      rintro rfl
      have := hc.yielding (by simp [hstack])
      rw [hflag] at this
      exact Bool.noConfusion this
    have htail : .yielding ∉ rest := by simpa [hstack] using hc.tail
    simpa [htail] using Ne.symm hne
  · intro k hk
    have hmem : .body k none ∈ (s.cores c).cpu.stack := by rw [hstack]; simpa using hk
    exact absurd (hc.unknown k hmem).2 hcur
  · intro d hd
    rcases List.mem_cons.1 hd with hd | hd
    · exact Frame.noConfusion hd
    rcases List.mem_cons.1 hd with hd | hd
    · exact Frame.irq.inj hd
    · exact hc.own d (hstack ▸ hd)

/-- A function returns, or its caller calls another. -/
theorem PreInv.enter (hf : f.runsCode ∨ f = .yielding ∨ f = .falling ∨ ∃ id, f = .dozing id)
    (frames : List Frame) (hframes : ∀ x ∈ frames, x = .falling ∨ ∃ id, x = .dozing id) :
    PreInv (s.setCore c ((s.cores c).enter f frames)) := by
  have hc := h.core c
  obtain ⟨below, henter, hbelow⟩ := Core.enter_stack hstack
  have hplain : f.plain := by
    rcases hf with hf | rfl | rfl | ⟨_, rfl⟩ <;> first | rfl | exact Frame.plain_of_runsCode hf
  have hret : f.runsCode ∨ Returning f := by
    rcases hf with hf | rfl | rfl | ⟨_, rfl⟩ <;> first | exact .inl hf | exact .inr trivial
  have hst := (hinv.plain hstack hplain).1
  obtain ⟨g, rest', hstack'⟩ : ∃ g rest', ((s.cores c).enter f frames).cpu.stack = g :: rest' := by
    obtain ⟨below', henter', hstacked⟩ := Stacked.enter hstack hst hret frames
    obtain ⟨g, rest', rfl⟩ := hstacked.ne_nil
    rw [henter']
    exact List.exists_cons_of_ne_nil (by simp)
  have hgs : g :: rest' = frames ++ below := hstack'.symm.trans (henter frames)
  have htail : .yielding ∉ rest := by simpa [hstack] using hc.tail
  have hyield : .yielding ∉ below := by
    rcases hbelow with ⟨hcode, rfl⟩ | ⟨-, rfl⟩
    · have hne : f ≠ .yielding := by rintro rfl; simp [Frame.runsCode] at hcode
      simpa [htail] using Ne.symm hne
    · exact htail
  have hmem : ∀ x ∈ g :: rest', (x = .falling ∨ ∃ id, x = .dozing id) ∨ x ∈ f :: rest := by
    rw [hgs]
    intro x hx
    rcases List.mem_append.1 hx with hx | hx
    · exact .inl (hframes x hx)
    · right
      rcases hbelow with ⟨-, rfl⟩ | ⟨-, rfl⟩
      · exact hx
      · exact List.mem_cons_of_mem f hx
  have hg : g.plain := by
    rcases hmem g (by simp) with (rfl | ⟨_, rfl⟩) | hmem
    · rfl
    · rfl
    · exact hst.mem_plain g hmem
  have hnoyield : .yielding ∉ g :: rest' := by
    rw [hgs]
    intro hx
    rcases List.mem_append.1 hx with hx | hx
    · rcases hframes _ hx with hx | ⟨_, hx⟩ <;> exact Frame.noConfusion hx
    · exact hyield hx
  refine h.setCore_plain hinv hstack hplain (by simp) (by simp) (by simp) hstack' hg ?_ ?_ ?_ ?_ ?_
  · rintro rfl
    exact absurd (List.mem_cons_self) hnoyield
  · exact fun hx => hnoyield (List.mem_cons_of_mem g hx)
  · intro k hk
    have hbody : .body k none ∈ f :: rest := (hmem _ hk).resolve_left (by simp)
    have hone := (hc.unknown k (hstack ▸ hbody)).1
    rw [hstack] at hone
    obtain ⟨rfl, rfl⟩ := List.cons.inj hone
    rcases hf with hf | hf | hf | ⟨_, hf⟩ <;> simp [Frame.runsCode] at hf
  · intro d hd
    exact hc.own d (hstack ▸ (hmem _ hd).resolve_left (by simp))
  · intro hflag
    refine .inr ⟨by simpa [Core.enter_inIrq] using hflag, fun hirq => ?_⟩
    have hne : f ≠ .irq c := by
      rintro rfl
      rcases hf with hf | hf | hf | ⟨_, hf⟩ <;> simp [Frame.runsCode] at hf
    rw [hgs]
    refine List.mem_append_right _ ?_
    rcases hbelow with ⟨-, rfl⟩ | ⟨-, rfl⟩
    · exact hirq
    · exact (List.mem_cons.1 hirq).resolve_left (Ne.symm hne)

end

theorem stepIrqEnd_self (s : State) (c : Nat) :
    stepIrqEnd s c c = s.setCore c { (s.cores c).replace [] with inIrq := false } := by
  simp [stepIrqEnd, State.setCore]

theorem PreInv.irqEnd (h : PreInv s) (hinv : Inv s)
    (hstack : (s.cores c).cpu.stack = .irq d :: rest) : PreInv (stepIrqEnd s c d) := by
  have hc := h.core c
  obtain rfl := hc.own d (by simp [hstack])
  have hst := ((hinv.plain hstack rfl).1).tail trivial
  obtain ⟨g, rest', rfl⟩ := hst.ne_nil
  have htail : .yielding ∉ g :: rest' := by simpa [hstack] using hc.tail
  rw [stepIrqEnd_self]
  refine h.setCore_plain hinv hstack rfl rfl rfl rfl
    (show _ = g :: rest' by simp [Core.replace, hstack]) hst.plain ?_ ?_ ?_ ?_ ?_
  · rintro rfl
    exact absurd List.mem_cons_self htail
  · exact fun hx => htail (List.mem_cons_of_mem g hx)
  · intro k hk
    have hone := (hc.unknown k (by rw [hstack]; exact List.mem_cons_of_mem _ hk)).1
    simp [hstack] at hone
  · exact fun k hk => hc.own k (by rw [hstack]; exact List.mem_cons_of_mem _ hk)
  · exact fun hfalse => Bool.noConfusion hfalse

theorem findTaskById_isSome (hne : id ≠ 0) (hlt : i < maxTasks) (hentry : (s.tasks i).entry)
    (hid : (s.tasks i).id = id) : findTaskById s id ≠ none := by
  rw [findTaskById, if_neg hne, ne_eq, List.find?_eq_none]
  intro hnone
  have := hnone i (List.mem_range.2 hlt)
  simp [hentry, hid] at this

/-- A task that has just been dispatched finds itself. -/
theorem Inv.found {f : Frame} {rest : List Frame} (hinv : Inv s)
    (hstack : (s.cores c).cpu.stack = f :: rest) (hf : f.plain)
    (hnone : findTaskById s (s.cores c).currentTaskId = none) : (s.cores c).currentTaskId = 0 := by
  by_contra hne
  obtain ⟨-, hbusy, hcur⟩ := hinv.plain hstack hf
  obtain ⟨i, hi, hid, -⟩ := hcur hne
  have hentry := (hinv.slot i).idle (.inl (hbusy i hi).1)
  exact findTaskById_isSome hne ((hinv.slot i).id hentry).2.2 hentry hid hnone

theorem PreInv.start (h : PreInv s) (hinv : Inv s)
    (hstack : (s.cores c).cpu.stack = .start :: rest) :
    PreInv (s.setCore c
      ((s.cores c).replace [.body c (findTaskById s (s.cores c).currentTaskId)])) := by
  obtain ⟨-, rfl⟩ := (hinv.plain hstack rfl).1.resolve_right (·.1)
  refine h.setCore_plain hinv hstack rfl rfl rfl rfl
    (show _ = [.body c (findTaskById s (s.cores c).currentTaskId)] by
      simp [Core.replace, hstack]) rfl (by simp) (by simp) ?_ (by simp) ?_
  · intro k hk
    simp only [List.mem_singleton, Frame.body.injEq] at hk
    refine ⟨?_, hinv.found hstack rfl hk.2.symm⟩
    rw [hk.1, ← hk.2]
  · exact fun hflag => .inr ⟨hflag, by simp⟩

end RadKernel.Sched
