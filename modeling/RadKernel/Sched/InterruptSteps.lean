import RadKernel.Sched.Interrupt

/-!
# Dispatching and leaving interrupted tasks

The steps that select, store, continue and end tasks keep `PreInv`. A pinned task is selected by
the core it is pinned to, so the frame of the interrupt comes back to its own core.
-/

namespace RadKernel.Sched

open Function List
open State (top setTask setCore)

variable {s : State} {c d i j id now : Nat} {core core' : Core} {tasks : Nat → Task}
  {task : Task}

/-! ## Steps of the slots -/

/-- A change of what the scheduler does not look at, or the end of a task that is not suspended. -/
theorem PreInv.mark (h : PreInv s)
    (hsame : task.pin = ((s.tasks i).entry, task.finished, (s.tasks i).preemptPinned,
      (s.tasks i).targetCore, (s.tasks i).context) ∧ task.running = (s.tasks i).running)
    (hfin : task.finished = (s.tasks i).finished ∨ ¬Suspended s i) : PreInv (s.setTask i task) := by
  simp only [Task.pin, Prod.mk.injEq, true_and] at hsame
  obtain ⟨⟨hentry, hpinned, htarget, hctx⟩, hrun⟩ := hsame
  have htask : ∀ j, ((s.setTask i task).tasks j).running = (s.tasks j).running ∧
      ((s.setTask i task).tasks j).context = (s.tasks j).context ∧
      ((s.setTask i task).tasks j).preemptPinned = (s.tasks j).preemptPinned ∧
      ((s.setTask i task).tasks j).targetCore = (s.tasks j).targetCore := by
    intro j
    by_cases hj : j = i
    · subst hj; simp [State.setTask, hrun, hctx, hpinned, htarget]
    · simp [State.setTask, hj]
  have hfinished : ∀ j, Suspended s j →
      ((s.setTask i task).tasks j).finished = (s.tasks j).finished := by
    intro j hsus
    by_cases hj : j = i
    · subst hj; simpa [State.setTask] using hfin.resolve_right (not_not.2 hsus)
    · simp [State.setTask, hj]
  refine ⟨fun c => ?_, fun j => ?_, fun j hr d hd => ?_, fun c hflag => ?_⟩
  · have hc := h.core c
    refine ⟨hc.yielding, hc.tail, hc.unknown, hc.own, hc.settled, hc.returning, ?_, ?_, ?_⟩
    · intro f hf j hj
      rw [(htask j).2.1]
      exact hc.selected f hf j hj
    · intro j hj
      obtain ⟨hr, hirq⟩ := hc.left j hj
      refine ⟨by rw [(htask j).1]; exact hr, fun hmem => ?_⟩
      obtain ⟨hp, ht, hf⟩ := hirq hmem
      rw [(htask j).2.2.1, (htask j).2.2.2, hfinished j ⟨hp, .inl ⟨c, hj, hmem⟩⟩]
      exact ⟨hp, ht, hf⟩
    · intro j hj
      rw [(htask j).1, (htask j).2.1]
      exact hc.ended j hj
  · obtain ⟨hp, hs⟩ := h.slot j
    refine ⟨?_, by rw [(htask j).2.1]; exact hs⟩
    rw [(htask j).1, (htask j).2.2.1, (htask j).2.2.2]
    exact hp
  · rw [(htask j).1] at hr
    rw [(htask j).2.2.1, (htask j).2.2.2]
    exact h.stored j hr d ⟨hd.1, by rw [← (htask j).2.1]; exact hd.2⟩
  · rcases h.unstuck c hflag with hin | ⟨j, hj, hx⟩ | hn | ⟨j, hj⟩
    · exact .inl hin
    · exact .inr (.inl ⟨j, hj, by rw [(htask j).2.1]; exact hx⟩)
    · exact .inr (.inr (.inl hn))
    · refine .inr (.inr (.inr ⟨j, ?_, ?_, ?_, ?_, hj.stored.1, ?_⟩))
      · by_cases hji : j = i
        · subst hji; simpa [State.setTask, hentry] using hj.entry
        · simpa [State.setTask, hji] using hj.entry
      · rw [hfinished j ⟨hj.pinned, .inr ⟨c, hj.stored⟩⟩]; exact hj.unfinished
      · rw [(htask j).2.2.1]; exact hj.pinned
      · rw [(htask j).2.2.2]; exact hj.target
      · rw [(htask j).2.1]; exact hj.stored.2

@[simp] theorem setBoth_core : ((s.setTask i task).setCore c core').cores c = core' := by
  simp [setCore]

@[simp] theorem setBoth_task : ((s.setTask i task).setCore c core').tasks =
    update s.tasks i task := rfl

theorem setBoth_thread (hc : d ≠ c) :
    ((s.setTask i task).setCore c core').thread d = s.thread d := by
  simp [State.thread, setCore, setTask, hc]

theorem PreInv.setBoth (h : PreInv s) (hinv : Inv s) (hfree : ∀ c' ≠ c, i ∉ (s.cores c').holdings)
    (hslot : SlotPre task) (hpin : ∀ d ≠ c, Preempted s d i → task.pin = (s.tasks i).pin)
    (hthread : ∀ j, core'.cpu.thread = some j → s.thread c = some j ∨ (s.tasks j).running)
    (hcore : CorePre (update s.tasks i task) c core')
    (hstored : ∀ j, j = i ∨ s.thread c = some j → (update s.tasks i task j).running = false →
      ∀ d, Stored ((s.setTask i task).setCore c core') d j →
        (update s.tasks i task j).preemptPinned ∧
          (update s.tasks i task j).targetCore = d)
    (hunstuck : core'.inIrq → Unstuck ((s.setTask i task).setCore c core') c) :
    PreInv ((s.setTask i task).setCore c core') := by
  have hchanged : ∀ j, update s.tasks i task j ≠ s.tasks j → j = i := by
    intro j hne
    by_contra hj
    exact hne (by rw [update_of_ne hj])
  refine h.of_local c hinv (fun c' hc' => update_of_ne hc' _ _) (fun j hne => ?_)
    (fun d hd j hj => ?_) (fun j hj => ?_) ?_ (fun j hj => ?_) ?_
  · obtain rfl := hchanged j hne
    exact ⟨hfree, by simpa using hslot⟩
  · by_cases hji : j = i
    · subst hji; simpa using hpin d hd hj
    · simp [hji]
  · exact hthread j (by simpa [State.thread] using hj)
  · simpa using hcore
  · exact hstored j (hj.imp_left (hchanged j))
  · simpa using hunstuck

theorem Preempted.setBoth (h : Preempted s d j) (hinv : PreInv s) (hj : j ≠ i)
    (hthread : ∀ j, core'.cpu.thread = some j → s.thread c = some j ∨ (s.tasks j).running) :
    Preempted ((s.setTask i task).setCore c core') d j := by
  refine h.of_pin (by simp [hj]) fun c' hc' => ?_
  by_cases hc : c' = c
  · subst hc
    rcases hthread j (by simpa [State.thread] using hc') with hs | hrun
    · exact h.stored.1 c' hs
    · rw [((hinv.slot j).pinned h.pinned).1] at hrun
      exact Bool.noConfusion hrun
  · exact h.stored.1 c' (by rw [← setBoth_thread hc]; exact hc')

variable {f g : Frame} {frames rest : List Frame} {k : Nat}

theorem PreInv.pick (h : PreInv s) (hinv : Inv s)
    (hstack : (s.cores c).cpu.stack = f :: rest) (hf : f.runsCode ∨ f = .falling)
    (hi : selectTask s c now = some i) (hnested : ¬Nested s c)
    (hcpu : core'.cpu = (s.cores c).cpu) (hflag : core'.inIrq = (s.cores c).inIrq)
    (hctx : core'.schedulerContext = (s.cores c).schedulerContext) :
    PreInv ((s.setTask i (selectedTask (s.tasks i) c)).setCore c (core'.enter f [.picked i])) := by
  have hc := h.core c
  obtain ⟨hentry, -, hrun, hon, hmatch⟩ := taskMatchesCore_true (selectTask_some hi)
  have hfree : ∀ c', i ∉ (s.cores c').holdings := fun c' => hinv.not_held hrun hon
  have hexec : ∀ c', s.thread c' ≠ some i := by
    intro c' hc'
    obtain ⟨g, rest', hg, -⟩ := (hinv.core c').frame
    exact hfree c' (by rw [Core.holdings_eq hg]; exact Core.mem_heldIn.2 (.inl hc'))
  -- a task that is pinned is dispatched by the core it is pinned to
  have htarget : (s.tasks i).preemptPinned → (s.tasks i).targetCore = (c : Int) :=
    fun hp => hmatch.resolve_left ((h.slot i).pinned hp).2
  have hunpinned : (selectedTask (s.tasks i) c).preemptPinned = false := by
    unfold selectedTask
    dsimp only
    split_ifs with hp
    · rfl
    · cases hpin : (s.tasks i).preemptPinned with
      | false => rfl
      | true => exact absurd ⟨hpin, htarget hpin⟩ hp
  have hirq : ∀ d, ∀ x ∈ (s.tasks i).context, .irq d ∈ x.stack → d = c := by
    intro d x hx hd
    obtain ⟨hp, ht⟩ := h.stored i hrun d ⟨hexec, x, hx, hd⟩
    have := (htarget hp).symm.trans ht
    exact_mod_cast this.symm
  obtain ⟨h₁, h₂, h₃, h₄, h₅⟩ := @selectedTask_owner c (s.tasks i)
  obtain ⟨below, henter, hbelow⟩ := Core.enter_stack (hcpu ▸ hstack)
  have hstack' := henter [.picked i]
  have hmem : ∀ x ∈ below, x ∈ f :: rest := by
    rcases hbelow with ⟨-, rfl⟩ | ⟨-, rfl⟩
    · exact fun x hx => hx
    · exact fun x hx => mem_cons_of_mem f hx
  have htail : .yielding ∉ rest := by simpa [hstack] using hc.tail
  have hthread : ∀ j, (core'.enter f [.picked i]).cpu.thread = some j →
      s.thread c = some j ∨ (s.tasks j).running := by
    intro j hj
    exact .inl (by simpa [hcpu, State.thread] using hj)
  refine h.setBoth hinv (fun c' _ => hfree c') ⟨by simp [hunpinned], ?_⟩ ?_ hthread ?_ ?_ ?_
  · rw [h₅]; exact (h.slot i).settled
  · intro d hd hpre
    have := (htarget hpre.pinned).symm.trans hpre.target
    exact absurd (by exact_mod_cast this.symm) hd
  · refine ⟨?_, ?_, ?_, ?_, ?_, ?_, ?_, ?_, ?_⟩
    · simp [hstack']
    · rw [hstack']
      rintro hx
      rcases hbelow with ⟨hcode, rfl⟩ | ⟨-, rfl⟩
      · rcases List.mem_cons.1 hx with rfl | hx
        · simp [Frame.runsCode] at hcode
        · exact htail hx
      · exact htail hx
    · intro k hk
      have hbody : .body k none ∈ f :: rest :=
        hmem _ ((List.mem_cons.1 (hstack' ▸ hk)).resolve_left (by simp))
      have hone := (hc.unknown k (hstack ▸ hbody)).1
      rw [hstack] at hone
      obtain ⟨rfl, rfl⟩ := List.cons.inj hone
      rcases hf with hf | hf <;> simp [Frame.runsCode] at hf
    · intro d hd
      exact hc.own d (hstack ▸ hmem _ ((List.mem_cons.1 (hstack' ▸ hd)).resolve_left (by simp)))
    · rw [Core.enter_schedulerContext, hctx]; exact hc.settled
    · intro g hg hret
      have : g = .picked i := by simpa [hstack', eq_comm] using hg
      subst this
      exact Bool.noConfusion hret
    · intro g hg j hj x hx d hd
      have : g = .picked i := by simpa [hstack', eq_comm] using hg
      subst this
      obtain rfl : i = j := by simpa using hj
      rw [update_self, h₅] at hx
      exact hirq d x hx hd
    · intro j hj
      simp [hstack'] at hj
    · intro j hj
      simp [hstack'] at hj
  · rintro j (rfl | hj) hr d hd
    · simp at hr
    · refine absurd ?_ (hd.1 c)
      simpa [State.thread, hcpu] using hj
  · intro hi'
    rcases h.unstuck c (by simpa [hflag] using hi') with hin | ⟨j, hj, -⟩ | hn | ⟨j, hj⟩
    · left
      have hne : f ≠ .irq c := by rintro rfl; rcases hf with hf | hf <;> simp [Frame.runsCode] at hf
      have hin' : .irq c ∈ f :: rest := by simpa [InInterrupt, hstack] using hin
      rw [InInterrupt, setBoth_core, hstack']
      refine mem_cons_of_mem _ ?_
      rcases hbelow with ⟨-, rfl⟩ | ⟨-, rfl⟩
      · exact hin'
      · exact (List.mem_cons.1 hin').resolve_left (Ne.symm hne)
    · have : f = .picked j ∨ f = .owned j := by simpa [top, hstack] using hj
      rcases this with rfl | rfl <;> rcases hf with hf | hf <;> simp [Frame.runsCode] at hf
    · exact absurd hn hnested
    · by_cases hji : j = i
      · subst hji
        obtain ⟨x, hx, hd⟩ := hj.stored.2
        exact .inr (.inl ⟨j, .inl (by simp [top, hstack']), x,
          by rw [setBoth_task, update_self, h₅]; exact hx, hd⟩)
      · exact .inr (.inr (.inr ⟨j, hj.setBoth h hji hthread⟩))

theorem SlotPre.unpinned (h : SlotPre task) (hrun : task.running) : task.preemptPinned = false := by
  cases hp : task.preemptPinned with
  | false => rfl
  | true =>
    rw [(h.pinned hp).1] at hrun
    exact Bool.noConfusion hrun

theorem CorePre.of_cons (hstack : core.cpu.stack = g :: rest)
    (hyield : g = .yielding → core.inIrq) (htail : .yielding ∉ rest)
    (hunknown : ∀ k, .body k none ∈ g :: rest → rest = [] ∧ g = .body k none ∧
      core.currentTaskId = 0)
    (hown : ∀ d, .irq d ∈ g :: rest → d = c)
    (hsettled : ∀ x ∈ core.schedulerContext, Settled x.stack)
    (hreturning : core.returning g → ∀ x ∈ core.schedulerContext, ∀ d, .irq d ∈ x.stack → d = c)
    (hselected : ∀ i, g = .picked i ∨ g = .owned i →
      ∀ x ∈ (tasks i).context, ∀ d, .irq d ∈ x.stack → d = c)
    (hleft : ∀ i, g = .leaving i → (tasks i).running = false ∧
      (.irq c ∈ g :: rest → (tasks i).preemptPinned ∧ (tasks i).targetCore = c ∧
        (tasks i).finished = false))
    (hended : ∀ i, g = .resumed i → (tasks i).running →
      ∀ x ∈ (tasks i).context, ∀ d, .irq d ∉ x.stack) : CorePre tasks c core := by
  have hhead : ∀ f, core.cpu.stack.head? = some f ↔ g = f := by simp [hstack]
  refine ⟨fun hg => hyield ((hhead _).1 hg), by simpa [hstack] using htail, ?_,
    by simpa [hstack] using hown, hsettled, ?_, ?_, ?_, ?_⟩
  · intro k hk
    obtain ⟨rfl, rfl, hcur⟩ := hunknown k (hstack ▸ hk)
    exact ⟨hstack, hcur⟩
  · intro f hf
    obtain rfl := (hhead f).1 hf
    exact hreturning
  · intro f hf
    obtain rfl := (hhead f).1 hf
    exact hselected
  · intro i hi
    rw [hstack]
    exact hleft i ((hhead _).1 hi)
  · exact fun i hi => hended i ((hhead _).1 hi)

section
variable (h : PreInv s)
include h

/-- What the invariant says of the stack below the function that handles a slot. -/
theorem PreInv.below (hstack : (s.cores c).cpu.stack = f :: rest) (hf : f.plain = false) :
    .yielding ∉ rest ∧ (∀ k, .body k none ∉ rest) ∧ ∀ d, .irq d ∈ rest → d = c := by
  have hc := h.core c
  refine ⟨by simpa [hstack] using hc.tail, fun k hk => ?_, fun d hd => ?_⟩
  · have hone := (hc.unknown k (by rw [hstack]; exact mem_cons_of_mem f hk)).1
    rw [hstack] at hone
    obtain ⟨rfl, rfl⟩ := List.cons.inj hone
    exact Bool.noConfusion hf
  · exact hc.own d (by rw [hstack]; exact mem_cons_of_mem f hd)

theorem PreInv.own (hinv : Inv s) (hstack : (s.cores c).cpu.stack = .picked i :: rest) :
    PreInv ((s.setTask i (takeOwnership (s.tasks i) i)).setCore c
      ((s.cores c).replace [.owned i])) := by
  have hc := h.core c
  obtain ⟨-, -, -, hrun⟩ := hinv.inFrame hstack
  obtain ⟨-, hfree, -⟩ := hinv.handled hstack rfl
  obtain ⟨hyield, hbody, hown⟩ := h.below hstack rfl
  have hunpinned := (h.slot i).unpinned hrun
  have hstack' : ((s.cores c).replace [.owned i]).cpu.stack = .owned i :: rest := by
    simp [Core.replace, hstack]
  have hctx : ∀ x ∈ (takeOwnership (s.tasks i) i).context,
      x ∈ (s.tasks i).context ∨ x.stack = [.start] := by
    intro x hx
    cases hold : (s.tasks i).context with
    | none =>
      simp only [takeOwnership, hold, Option.getD_none, Option.mem_some_iff] at hx
      exact .inr (by rw [← hx])
    | some y => exact .inl (by simpa [takeOwnership, hold] using hx)
  refine h.setBoth hinv hfree ⟨?_, ?_⟩ ?_ (fun j hj => .inl hj) ?_ ?_ ?_
  · simp [takeOwnership, hunpinned]
  · intro x hx
    rcases hctx x hx with hx | hx
    · exact (h.slot i).settled x hx
    · rw [hx]; simp [Settled]
  · intro d _ hpre
    rw [hpre.pinned] at hunpinned
    exact Bool.noConfusion hunpinned
  · refine .of_cons hstack' (by simp) hyield ?_ ?_ hc.settled (by simp [Core.returning]) ?_ (by simp)
      (by simp)
    · intro k hk
      exact absurd ((List.mem_cons.1 hk).resolve_left (by simp)) (hbody k)
    · exact fun d hd => hown d ((List.mem_cons.1 hd).resolve_left (by simp))
    · intro j hj x hx d hd
      obtain rfl : i = j := by simpa using hj
      rw [update_self] at hx
      rcases hctx x hx with hx | hx
      · exact hc.selected (.picked i) (by simp [hstack]) i (.inl rfl) x hx d hd
      · simp [hx] at hd
  · rintro j (rfl | hj) hr d hd
    · simp [takeOwnership, hrun] at hr
    · exact absurd (by simpa [State.thread, Core.replace] using hj) (hd.1 c)
  · intro hflag
    rcases h.unstuck c hflag with hin | ⟨j, hj, x, hx, hd⟩ | ⟨f, hf, hret, -⟩ | ⟨j, hj⟩
    · left
      have hin' : .irq c ∈ rest := by simpa [InInterrupt, hstack] using hin
      rw [InInterrupt, setBoth_core, hstack']
      exact mem_cons_of_mem _ hin'
    · obtain rfl : i = j := by simpa [top, hstack] using hj
      refine .inr (.inl ⟨i, .inr (by simp [top, hstack']), x, ?_, hd⟩)
      simp only [setBoth_task, update_self, takeOwnership, Option.mem_def.1 hx]
      rfl
    · obtain rfl : f = .picked i := by simpa [top, hstack, eq_comm] using hf
      exact Bool.noConfusion hret
    · have hji : j ≠ i := by
        rintro rfl
        have := hj.pinned
        rw [hunpinned] at this
        exact Bool.noConfusion this
      exact .inr (.inr (.inr ⟨j, hj.setBoth h hji fun k hk => .inl hk⟩))

/-- A core that handles a slot after the switch has the interrupt on its stack or in a task. -/
theorem PreInv.unstuck_resumed
    (hstack : (s.cores c).cpu.stack = f :: rest) (hf : f = .resumed i ∨ f = .released i)
    (hflag : (s.cores c).inIrq) : .irq c ∈ rest ∨ ∃ j, Preempted s c j := by
  rcases h.unstuck c hflag with hin | ⟨j, hj, -⟩ | ⟨g, hg, hret, -⟩ | hj
  · left
    have hin' : .irq c ∈ f :: rest := by simpa [InInterrupt, hstack] using hin
    exact (List.mem_cons.1 hin').resolve_left (by rcases hf with rfl | rfl <;> simp)
  · have : f = .picked j ∨ f = .owned j := by simpa [State.top, hstack] using hj
    rcases hf with rfl | rfl <;> simp at this
  · obtain rfl : g = f := by simpa [State.top, hstack, eq_comm] using hg
    rcases hf with rfl | rfl <;> exact Bool.noConfusion hret
  · exact .inr hj

/-- The core goes on below the function that handled a slot, or in it. -/
theorem PreInv.after (hinv : Inv s)
    (hstack : (s.cores c).cpu.stack = f :: rest) (hf : f = .resumed i ∨ f = .released i)
    (hframes : frames = [] ∨ frames = [.released i]) (hsame : task.pin = (s.tasks i).pin)
    (hrun : task.running = (s.tasks i).running ∨
      task.running = false ∧ ∀ x ∈ (s.tasks i).context, ∀ d, .irq d ∉ x.stack) :
    PreInv ((s.setTask i task).setCore c ((s.cores c).replace frames)) := by
  have hc := h.core c
  have hhandled : f.handled = some i := by rcases hf with rfl | rfl <;> rfl
  have hspecial : f.plain = false := by rcases hf with rfl | rfl <;> rfl
  obtain ⟨hmem, hfree, hne⟩ := hinv.handled hstack hhandled
  obtain ⟨hyield, hbody, hown⟩ := h.below hstack hspecial
  have hst : Stacked (s.thread c) rest ∧ (s.cores c).currentTaskId = 0 := by
    have hin := hinv.inFrame hstack
    rcases hf with rfl | rfl <;> exact ⟨hin.1, hin.2.2.1⟩
  obtain ⟨hstacked, hcur⟩ := hst
  obtain ⟨g, rest', hstack', hg, hrest⟩ : ∃ g rest', ((s.cores c).replace frames).cpu.stack = g :: rest' ∧
      (g.plain ∨ g = .released i) ∧ (g :: rest' = rest ∨ g = .released i ∧ rest' = rest) := by
    rcases hframes with rfl | rfl
    · obtain ⟨g, rest', rfl⟩ := hstacked.ne_nil
      exact ⟨g, rest', by simp [Core.replace, hstack], .inl hstacked.plain, .inl rfl⟩
    · exact ⟨.released i, rest, by simp [Core.replace, hstack], .inr rfl, .inr ⟨rfl, rfl⟩⟩
  have hsub : ∀ x ∈ g :: rest', x = .released i ∨ x ∈ rest := by
    intro x hx
    rcases hrest with hrest | ⟨rfl, rfl⟩
    · exact .inr (hrest ▸ hx)
    · exact List.mem_cons.1 hx
  have hback : ∀ x ∈ rest, x ∈ g :: rest' := by
    intro x hx
    rcases hrest with hrest | ⟨rfl, rfl⟩
    · exact hrest ▸ hx
    · exact mem_cons_of_mem _ hx
  have hexec : ∀ c', s.thread c' ≠ some i := by
    intro c' hc'
    by_cases hcc : c' = c
    · exact hne (hcc ▸ hc')
    · obtain ⟨g', rest'', hg', -⟩ := (hinv.core c').frame
      exact hfree c' hcc (by rw [Core.holdings_eq hg']; exact Core.mem_heldIn.2 (.inl hc'))
  have hpin := hsame
  simp only [Task.pin, Prod.mk.injEq] at hpin
  obtain ⟨-, -, hpinned, htarget, hctx⟩ := hpin
  refine h.setBoth hinv hfree ⟨?_, by rw [hctx]; exact (h.slot i).settled⟩ (fun _ _ _ => hsame)
    (fun j hj => .inl hj) ?_ ?_ ?_
  · intro hp
    rw [hpinned] at hp
    obtain ⟨hr, ht⟩ := (h.slot i).pinned hp
    refine ⟨?_, by rw [htarget]; exact ht⟩
    rcases hrun with hrun | hrun
    · rw [hrun]; exact hr
    · exact hrun.1
  · have hno : ∀ {x}, x ∈ g :: rest' → x ≠ .yielding ∧ (∀ k, x ≠ .body k none) ∧
        ∀ d, x = .irq d → d = c := by
      intro x hx
      rcases hsub x hx with rfl | hx
      · simp
      · refine ⟨fun he => hyield (he ▸ hx), fun k he => hbody k (he ▸ hx), fun d he => ?_⟩
        exact hown d (he ▸ hx)
    refine .of_cons hstack' ?_ ?_ ?_ ?_ hc.settled ?_ ?_ ?_ ?_
    · exact fun he => absurd he (hno mem_cons_self).1
    · exact fun hx => (hno (mem_cons_of_mem _ hx)).1 rfl
    · exact fun k hk => absurd rfl ((hno hk).2.1 k)
    · exact fun d hd => (hno hd).2.2 d rfl
    · intro hret
      rcases hg with hg | rfl
      · exact absurd hcur ((returning_of_plain hg).1 hret)
      · exact Bool.noConfusion hret
    · rintro j (rfl | rfl) <;> simp [Frame.plain] at hg
    · rintro j rfl
      simp [Frame.plain] at hg
    · rintro j rfl
      simp [Frame.plain] at hg
  · rintro j (rfl | hj) hr d hd
    · rw [update_self] at hr ⊢
      have hold : Stored s d j := by
        refine ⟨hexec, ?_⟩
        obtain ⟨x, hx, hd⟩ := hd.2
        exact ⟨x, by simpa [hctx] using hx, hd⟩
      rw [hpinned, htarget]
      rcases hrun with hrun | ⟨-, hnone⟩
      · exact h.stored j (hrun ▸ hr) d hold
      · obtain ⟨x, hx, hd⟩ := hold.2
        exact absurd hd (hnone x hx d)
    · exact absurd (by simpa [State.thread, Core.replace] using hj) (hd.1 c)
  · intro hflag
    rcases h.unstuck_resumed hstack hf hflag with hirq | ⟨j, hj⟩
    · left
      rw [InInterrupt, setBoth_core, hstack']
      exact hback _ hirq
    · right; right; right
      refine ⟨j, hj.of_pin ?_ fun c' hc' => hj.stored.1 c' ?_⟩
      · by_cases hji : j = i
        · subst hji; simpa using hsame
        · simp [hji]
      · by_cases hcc : c' = c
        · subst hcc; simpa [State.thread, Core.replace] using hc'
        · rw [← setBoth_thread hcc]; exact hc'

theorem PreInv.switchTo (hinv : Inv s) (hstack : (s.cores c).cpu.stack = .owned i :: rest) :
    PreInv (s.setCore c (switchTo (s.cores c) (s.tasks i) i)) := by
  have hc := h.core c
  obtain ⟨-, hbusy, hcur, hi, hctx⟩ := hinv.inFrame hstack
  obtain ⟨hyield, hbody, hown⟩ := h.below hstack rfl
  obtain ⟨x, hx⟩ := Option.ne_none_iff_exists'.1 hctx
  obtain ⟨hxthread, hxstack⟩ := (hinv.slot i).context x hx
  obtain ⟨hxyield, hxbody⟩ := (h.slot i).settled x hx
  obtain ⟨g, rest', hg⟩ := hxstack.ne_nil
  have hplain := (hg ▸ hxstack).plain
  have hne : (s.cores c).currentTaskId ≠ 0 := by
    have hpos := ((hinv.slot i).id ((hinv.slot i).idle (.inl (hi i rfl).1))).1
    omega
  have hxirq : ∀ d, .irq d ∈ x.stack → d = c :=
    hc.selected (.owned i) (by simp [hstack]) i (.inr rfl) x hx
  simp only [Sched.switchTo, hx, hstack, tail_cons]
  generalize hcore' : ((s.cores c).store ⟨(s.cores c).cpu.thread, .resumed i :: rest⟩).load x = core'
  have hcpu : core'.cpu = x := by rw [← hcore']; rfl
  have hsched : core'.schedulerContext = some ⟨(s.cores c).cpu.thread, .resumed i :: rest⟩ := by
    rw [← hcore']; rfl
  have hcur' : core'.currentTaskId ≠ 0 := by rw [← hcore']; exact hne
  have hflag' : core'.inIrq = (s.cores c).inIrq := by rw [← hcore']; rfl
  have hstack' : core'.cpu.stack = g :: rest' := by rw [hcpu, hg]
  have hcore : (s.setCore c core').cores c = core' := by simp [setCore]
  have hth : ∀ j, (s.setCore c core').thread c = some j → j = i := by
    intro j hj
    rw [State.thread, hcore, hcpu, hxthread] at hj
    exact (Option.some.inj hj).symm
  have hrun : ∀ j, Preempted s c j → j ≠ i := by
    rintro j hj rfl
    have := (h.slot j).unpinned (hi j rfl).1
    rw [hj.pinned] at this
    exact Bool.noConfusion this
  refine h.of_local c hinv (fun c' hc' => update_of_ne hc' _ _)
    (fun j hne => absurd rfl hne) (fun _ _ _ _ => rfl) (fun j hj => ?_) ?_ ?_ ?_
  · rw [hth j hj]
    exact .inr (hi i rfl).1
  · rw [hcore]
    refine .of_cons hstack' ?_ ?_ ?_ ?_ ?_ ?_ ?_ ?_ ?_
    · rintro rfl
      exact absurd (by rw [hg]; exact mem_cons_self) hxyield
    · exact fun hmem => hxyield (by rw [hg]; exact mem_cons_of_mem g hmem)
    · exact fun k hk => absurd (hg ▸ hk) (hxbody k)
    · exact fun d hd => hxirq d (hg ▸ hd)
    · rw [hsched]
      intro y hy
      obtain rfl := Option.mem_some_iff.1 hy
      exact ⟨by simpa using hyield, by simpa using hbody⟩
    · rw [hsched]
      intro _ y hy d hd
      obtain rfl := Option.mem_some_iff.1 hy
      exact hown d (by simpa using hd)
    · rintro j (rfl | rfl) <;> simp [Frame.plain] at hplain
    · rintro j rfl
      simp [Frame.plain] at hplain
    · rintro j rfl
      simp [Frame.plain] at hplain
  · rintro j (hne | hj) hr d -
    · exact absurd rfl hne
    · have hr' : (s.tasks j).running = false := hr
      rw [(hbusy j hj).1] at hr'
      exact Bool.noConfusion hr'
  · rw [hcore, hflag']
    intro hflag
    rcases h.unstuck c hflag with hin | ⟨j, hj, y, hy, hd⟩ | ⟨f, hf, hret, -⟩ | ⟨j, hj⟩
    · right; right; left
      refine ⟨g, by simp [top, hcore, hstack'], ?_, _, by rw [hcore]; exact hsched, ?_⟩
      · rw [hcore]
        exact (returning_of_plain hplain).2 hcur'
      · simpa [InInterrupt, hstack] using hin
    · obtain rfl : i = j := by simpa [top, hstack] using hj
      obtain rfl : x = y := Option.some.inj (hx.symm.trans hy)
      exact .inl (by rw [InInterrupt, hcore, hcpu]; exact hd)
    · obtain rfl : f = .owned i := by simpa [top, hstack, eq_comm] using hf
      exact Bool.noConfusion hret
    · refine .inr (.inr (.inr ⟨j, hj.of_pin rfl fun c' hc' => ?_⟩))
      by_cases hcc : c' = c
      · subst hcc
        exact hrun j hj (hth j hc')
      · exact hj.stored.1 c' (by simpa [State.thread, setCore, hcc] using hc')

section
variable (hinv : Inv s) (hstack : (s.cores c).cpu.stack = f :: rest)
include hinv hstack

theorem PreInv.leave (hf : f.runsCode ∨ f = .yielding)
    (hi : findTaskById s (s.cores c).currentTaskId = some i) (hrun : task.running = false)
    (hctx : task.context = (s.tasks i).context)
    (hpinned : task.preemptPinned → task.targetCore = (c : Int))
    (hirq : f = .yielding → (s.cores c).inIrq → task.preemptPinned ∧ task.finished = false) :
    PreInv ((s.setTask i task).setCore c ((s.cores c).leave.enter f [.leaving i])) := by
  have hc := h.core c
  have hplain : f.plain := by
    rcases hf with hf | rfl
    · exact Frame.plain_of_runsCode hf
    · rfl
  obtain ⟨hst, -, -⟩ := hinv.plain hstack hplain
  obtain ⟨hthread, -⟩ := hinv.current hstack hplain hi
  obtain ⟨hne, -, -⟩ := findTaskById_some hi
  have hmem : i ∈ (s.cores c).holdings := by
    rw [Core.holdings_eq hstack]
    exact Core.mem_heldIn.2 (.inl hthread)
  obtain ⟨below, henter, hbelow⟩ :=
    Core.enter_stack (show (s.cores c).leave.cpu.stack = f :: rest from hstack)
  have hstack' := henter [.leaving i]
  have htail : .yielding ∉ rest := by simpa [hstack] using hc.tail
  have hsub : ∀ x ∈ below, x ∈ f :: rest := by
    rcases hbelow with ⟨-, rfl⟩ | ⟨-, rfl⟩
    · exact fun x hx => hx
    · exact fun x hx => mem_cons_of_mem f hx
  have hnotirq : f ≠ .irq c := by
    rintro rfl
    rcases hf with hf | hf <;> simp [Frame.runsCode] at hf
  have hback : .irq c ∈ f :: rest → .irq c ∈ below := by
    intro hx
    rcases hbelow with ⟨-, rfl⟩ | ⟨-, rfl⟩
    · exact hx
    · exact (List.mem_cons.1 hx).resolve_left (Ne.symm hnotirq)
  have hth : ∀ j, ((s.cores c).leave.enter f [.leaving i]).cpu.thread = some j →
      s.thread c = some j ∨ (s.tasks j).running := by
    intro j hj
    exact .inl (by simpa [State.thread] using hj)
  have hpre : ∀ d j, Preempted s d j → j ≠ i := by
    rintro d j hj rfl
    exact hj.stored.1 c hthread
  refine h.setBoth hinv (fun c' hc' hi' => hc' (hinv.apart c' c i hi' hmem)) ⟨?_, ?_⟩ ?_ hth ?_ ?_ ?_
  · intro hp
    refine ⟨hrun, ?_⟩
    rw [hpinned hp, coreAny]
    omega
  · rw [hctx]; exact (h.slot i).settled
  · exact fun d _ hd => absurd rfl (hpre d i hd)
  · refine .of_cons hstack' (by simp) ?_ ?_ ?_ (by simpa using hc.settled) ?_ (by simp) ?_ (by simp)
    · intro hx
      rcases hbelow with ⟨hcode, rfl⟩ | ⟨-, rfl⟩
      · rcases List.mem_cons.1 hx with rfl | hx
        · simp [Frame.runsCode] at hcode
        · exact htail hx
      · exact htail hx
    · intro k hk
      have hbody : .body k none ∈ f :: rest := hsub _ ((List.mem_cons.1 hk).resolve_left (by simp))
      exact absurd (hc.unknown k (hstack ▸ hbody)).2 hne
    · intro d hd
      exact hc.own d (hstack ▸ hsub _ ((List.mem_cons.1 hd).resolve_left (by simp)))
    · intro _ x hx d hd
      have hret := (returning_of_plain hplain).2 hne
      exact hc.returning f (by simp [hstack]) hret x (by simpa using hx) d hd
    · intro j hj
      obtain rfl := Frame.leaving.inj hj
      rw [update_self]
      refine ⟨hrun, fun hmem => ?_⟩
      have hirq' : .irq c ∈ below := (List.mem_cons.1 hmem).resolve_left (by simp)
      -- code is the outermost function: the interrupt lies below `rad_task_yield` only
      have hy : f = .yielding := by
        rcases hf with hf | hf
        · rcases hst with ⟨-, rfl⟩ | ⟨hret, -⟩
          · exact absurd (List.mem_singleton.1 (hsub _ hirq')).symm hnotirq
          · cases f <;> simp_all [Returning, Frame.runsCode]
        · exact hf
      obtain ⟨hp, hfin⟩ := hirq hy (hc.yielding (by simp [hstack, hy]))
      exact ⟨hp, hpinned hp, hfin⟩
  · rintro j hj hr d hd
    have hji : s.thread c = some j := by
      rcases hj with rfl | hj
      · exact hthread
      · exact hj
    exact absurd (by simpa [State.thread] using hji) (hd.1 c)
  · intro hflag
    rcases h.unstuck c (by simpa [Core.leave] using hflag) with
      hin | ⟨j, hj, -⟩ | ⟨g, hg, hret, hx⟩ | ⟨j, hj⟩
    · left
      rw [InInterrupt, setBoth_core, hstack']
      exact mem_cons_of_mem _ (hback (by simpa [InInterrupt, hstack] using hin))
    · have : f = .picked j ∨ f = .owned j := by simpa [top, hstack] using hj
      rcases this with rfl | rfl <;> simp [Frame.plain] at hplain
    · refine .inr (.inr (.inl ⟨.leaving i, by simp [top, hstack'], rfl, ?_⟩))
      simpa using hx
    · exact .inr (.inr (.inr ⟨j, hj.setBoth h (hpre c j hj) hth⟩))

/-- A task's stack is stored. If the interrupt is on it, the task is pinned to the core. -/
theorem PreInv.switchAway (hret : (s.cores c).returning f = true)
    (hf : f = .leaving i ∨ f = .ended c (some i) ∧ rest = []) (hthread : s.thread c = some i)
    (hon : (s.tasks i).onCpu) (hcur : (s.cores c).currentTaskId = 0)
    (hreturns : Returns s.tasks (s.cores c) i)
    (hframes : frames = [] ∧ f = .leaving i ∨ frames = [.halted] ∧ rest = []) :
    PreInv (switchAway s c i c frames) := by
  have hc := h.core c
  have hspecial : f.plain = false := by rcases hf with rfl | ⟨rfl, -⟩ <;> rfl
  have hhandled : f.handled = none := by rcases hf with rfl | ⟨rfl, -⟩ <;> rfl
  obtain ⟨hyield, hbody, hown⟩ := h.below hstack hspecial
  obtain ⟨thread, rest', hctx, -, hbusy⟩ := hreturns
  have hold : (s.cores c).holdings = i :: thread.toList := by
    rw [Core.holdings_eq hstack, Core.heldIn, hhandled, Core.waiting, if_pos hret, hctx,
      show (s.cores c).cpu.thread = some i from hthread]
    rfl
  have hne : thread ≠ some i := by
    rintro rfl
    have hnodup := (hinv.core c).nodup
    simp [hold] at hnodup
  have hfree : ∀ c' ≠ c, i ∉ (s.cores c').holdings :=
    fun c' hc' hi' => hc' (hinv.apart c' c i hi' (by simp [hold]))
  obtain ⟨hsyield, hsbody⟩ := hc.settled _ hctx
  have hsirq : ∀ d, .irq d ∈ rest' → d = c := fun d hd =>
    hc.returning f (by simp [hstack]) hret _ hctx d (mem_cons_of_mem _ hd)
  have hstored : ∀ d, .irq d ∈ frames ++ rest → .irq d ∈ rest := by
    intro d hd
    rcases hframes with ⟨rfl, -⟩ | ⟨rfl, rfl⟩
    · exact hd
    · simp at hd
  have hpinned : ∀ d, .irq d ∈ rest → f = .leaving i ∧ d = c ∧ (s.tasks i).preemptPinned ∧
      (s.tasks i).targetCore = (c : Int) ∧ (s.tasks i).finished = false := by
    intro d hd
    obtain rfl := hown d hd
    rcases hf with rfl | ⟨-, rfl⟩
    · have hleft := (hc.left i (by simp [hstack])).2 (by rw [hstack]; exact mem_cons_of_mem _ hd)
      exact ⟨rfl, rfl, hleft⟩
    · exact absurd hd not_mem_nil
  have hth : ∀ j, thread = some j → s.thread c = some j ∨ (s.tasks j).running :=
    fun j hj => .inr (hbusy j hj).1
  have hpre : ∀ d j, Preempted s d j → j ≠ i := by
    rintro d j hj rfl
    exact hj.stored.1 c hthread
  simp only [Sched.switchAway, hctx, hstack, tail_cons]
  refine h.setBoth hinv hfree ⟨(h.slot i).pinned, ?_⟩ ?_ hth ?_ ?_ ?_
  · intro x hx
    obtain rfl := Option.mem_some_iff.1 hx
    rcases hframes with ⟨rfl, -⟩ | ⟨rfl, rfl⟩
    · exact ⟨hyield, hbody⟩
    · simp [Settled]
  · exact fun d _ hd => absurd rfl (hpre d i hd)
  · refine .of_cons (show _ = .resumed i :: rest' from rfl) (by simp) ?_ ?_ ?_ hc.settled
      (by simp [Core.returning]) (by simp) (by simp) ?_
    · exact fun hx => hsyield (mem_cons_of_mem _ hx)
    · intro k hk
      exact absurd (mem_cons_of_mem _ ((List.mem_cons.1 hk).resolve_left (by simp))) (hsbody k)
    · exact fun d hd => hsirq d ((List.mem_cons.1 hd).resolve_left (by simp))
    · intro j hj hrun x hx d hd
      obtain rfl := Frame.resumed.inj hj
      simp only [update_self, Option.mem_some_iff] at hrun hx
      subst hx
      obtain ⟨rfl, -⟩ := hpinned d (hstored d hd)
      have hleft := (hc.left i (by simp [hstack])).1
      rw [hleft] at hrun
      exact Bool.noConfusion hrun
  · intro j hj hrun d hd
    obtain rfl : j = i := by
      rcases hj with rfl | hj
      · rfl
      · exact Option.some.inj (hj.symm.trans hthread)
    obtain ⟨x, hx, hd⟩ := hd.2
    simp only [setBoth_task, update_self, Option.mem_some_iff] at hx
    subst hx
    obtain ⟨-, rfl, hp, ht, -⟩ := hpinned d (hstored d hd)
    simpa using ⟨hp, ht⟩
  · intro hflag
    rcases h.unstuck c hflag with hin | ⟨j, hj, -⟩ | ⟨g, hg, -, x, hx, hd⟩ | ⟨j, hj⟩
    · -- the interrupt goes with the task
      have hirq : .irq c ∈ rest := by
        have hin' : .irq c ∈ f :: rest := by simpa [InInterrupt, hstack] using hin
        exact (List.mem_cons.1 hin').resolve_left (by rcases hf with rfl | ⟨rfl, -⟩ <;> simp)
      obtain ⟨hfl, -, hp, ht, hfin⟩ := hpinned c hirq
      have hnil : frames = [] := by
        rcases hframes with ⟨rfl, -⟩ | ⟨-, rfl⟩
        · rfl
        · exact absurd hirq not_mem_nil
      refine .inr (.inr (.inr ⟨i, ?_, ?_, ?_, ?_, fun c' hc' => ?_, ?_⟩))
      · simpa using (hinv.slot i).idle (.inr hon)
      · simpa using hfin
      · simpa using hp
      · simpa using ht
      · by_cases hcc : c' = c
        · subst hcc
          exact hne (by simpa [State.thread, Core.load] using hc')
        · rw [setBoth_thread hcc] at hc'
          exact hcc (hinv.executed hc' hthread)
      · exact ⟨_, by simp [hnil]; rfl, hirq⟩
    · have : f = .picked j ∨ f = .owned j := by simpa [State.top, hstack] using hj
      rcases hf with rfl | ⟨rfl, -⟩ <;> simp at this
    · obtain rfl := Option.some.inj (hctx.symm.trans hx)
      exact .inl (by rw [InInterrupt, setBoth_core]; exact hd)
    · exact .inr (.inr (.inr ⟨j, hj.setBoth h (hpre c j hj) hth⟩))

end

theorem PreInv.unstuck_outermost (hstack : (s.cores c).cpu.stack = [f])
    (hf : f.handled = none ∧ ∀ d, f ≠ .irq d) (hflag : (s.cores c).inIrq) :
    Nested s c ∨ ∃ j, Preempted s c j := by
  rcases h.unstuck c hflag with hin | ⟨j, hj, -⟩ | hn
  · have : .irq c = f := by simpa [InInterrupt, hstack] using hin
    exact absurd this.symm (hf.2 c)
  · have : f = .picked j ∨ f = .owned j := by simpa [top, hstack] using hj
    rcases this with rfl | rfl <;> exact absurd hf.1 (by simp [Frame.handled])
  · exact hn

section
variable (hinv : Inv s)
include hinv

theorem PreInv.outermost
    (hstack : (s.cores c).cpu.stack = [f]) (hf : f.handled = none ∧ ∀ d, f ≠ .irq d)
    (hstack' : core'.cpu.stack = [g]) (hg : g = .halted ∨ ∃ k task, g = .ended k task)
    (hthread : core'.cpu.thread = (s.cores c).cpu.thread) (hflag : core'.inIrq = (s.cores c).inIrq)
    (hsettled : ∀ x ∈ core'.schedulerContext, Settled x.stack)
    (hreturning : core'.returning g → core'.schedulerContext = (s.cores c).schedulerContext ∧
      (s.cores c).returning f)
    (hnested : (s.cores c).returning f → core'.returning g) : PreInv (s.setCore c core') := by
  have hc := h.core c
  have hcore : (s.setCore c core').cores c = core' := by simp [setCore]
  have hth : (s.setCore c core').thread c = s.thread c := by rw [State.thread, hcore, hthread]; rfl
  refine h.of_local c hinv (fun c' hc' => update_of_ne hc' _ _)
    (fun j hne => absurd rfl hne) (fun _ _ _ _ => rfl) (fun j hj => .inl (hth ▸ hj)) ?_ ?_ ?_
  · rw [hcore]
    refine .of_cons hstack' ?_ (by simp) ?_ ?_ hsettled ?_ ?_ ?_ ?_
    · rintro rfl; simp at hg
    · intro k hk
      obtain rfl : .body k none = g := by simpa using hk
      simp at hg
    · intro d hd
      obtain rfl : .irq d = g := by simpa using hd
      simp at hg
    · intro hret
      obtain ⟨hsame, hold⟩ := hreturning hret
      rw [hsame]
      exact hc.returning f (by simp [hstack]) hold
    · rintro j (rfl | rfl) <;> simp at hg
    · rintro j rfl; simp at hg
    · rintro j rfl; simp at hg
  · rintro j (hne | hj) hrun d hd
    · exact absurd rfl hne
    · exact absurd (hth.trans hj) (hd.1 c)
  · rw [hcore, hflag]
    intro hi
    rcases h.unstuck_outermost hstack hf hi with ⟨f', hf', hret, hx⟩ | ⟨j, hj⟩
    · obtain rfl : f' = f := by simpa [top, hstack, eq_comm] using hf'
      have hret' := hnested hret
      refine .inr (.inr (.inl ⟨g, by simp [top, hcore, hstack'], ?_, ?_⟩))
      · rw [hcore]; exact hret'
      · rw [hcore, (hreturning hret').1]; exact hx
    · refine .inr (.inr (.inr ⟨j, hj.of_pin rfl fun c' hc' => hj.stored.1 c' ?_⟩))
      by_cases hcc : c' = c
      · subst hcc; exact hth ▸ hc'
      · simpa [State.thread, setCore, hcc] using hc'

theorem PreInv.finish_some (hstack : (s.cores c).cpu.stack = .body k (some i) :: rest)
    (hcur : (s.cores c).currentTaskId = (s.tasks i).id) : PreInv (stepFinish s c c (some i)) := by
  obtain ⟨hst, hbusy, -⟩ := hinv.plain hstack rfl
  obtain ⟨houter, rfl⟩ := hst.resolve_right (·.1)
  have hthread : s.thread c = some i := by simpa [Outermost, eq_comm] using houter.2
  have hpos := ((hinv.slot i).id ((hinv.slot i).idle (.inl (hbusy i hthread).1))).1
  have hne : (s.cores c).currentTaskId ≠ 0 := by omega
  have hunpinned := (h.slot i).unpinned (hbusy i hthread).1
  have hmark : PreInv (s.setTask i (finishTask (s.tasks i))) := by
    refine h.mark ⟨rfl, rfl⟩ (.inr fun hsus => ?_)
    rw [hsus.1] at hunpinned
    exact Bool.noConfusion hunpinned
  have hinv' : Inv (s.setTask i (finishTask (s.tasks i))) := hinv.mark _ rfl
  rw [stepFinish_some]
  refine hmark.outermost hinv' hstack ⟨rfl, by simp⟩ (by simp [Core.replace, hstack])
    (.inr ⟨c, some i, rfl⟩) rfl rfl ((h.core c).settled) ?_ ?_
  · exact fun _ => ⟨rfl, (returning_of_plain rfl).2 hne⟩
  · exact fun _ => rfl

theorem PreInv.finish_none
    (hstack : (s.cores c).cpu.stack = .body k none :: rest) : PreInv (stepFinish s c c none) := by
  obtain ⟨hone, hcur⟩ := (h.core c).unknown k (by simp [hstack])
  rw [stepFinish_none]
  refine h.outermost hinv hone ⟨rfl, by simp⟩ (by simp [Core.replace, hone])
    (.inr ⟨c, none, rfl⟩) rfl rfl ((h.core c).settled) ?_ ?_
  · exact fun hret => Bool.noConfusion hret
  · exact fun hret => absurd hcur ((returning_of_plain rfl).1 hret)

theorem PreInv.switchNowhere
    (hstack : (s.cores c).cpu.stack = .ended c none :: rest) : PreInv (switchNowhere s c c) := by
  obtain ⟨-, rfl, -, -, hcur⟩ := hinv.inFrame hstack
  rw [switchNowhere_self]
  refine h.outermost hinv hstack ⟨rfl, by simp⟩ (by simp [Core.replace, Core.store, hstack])
    (.inl rfl) rfl rfl ?_ ?_ ?_
  · intro x hx
    simp only [Core.store, hstack, tail_cons, Option.mem_some_iff] at hx
    subst hx
    simp [Settled]
  · intro hret
    simp [Core.returning, Core.store, Core.replace, hcur] at hret
  · exact fun hret => Bool.noConfusion hret

/-- A new task is neither pinned nor stored. -/
theorem PreInv.create {n : Nat}
    (hi : ∀ c, i ∉ (s.cores c).holdings) (hfree : (s.tasks i).entry = false ∨ (s.tasks i).finished)
    (hpinned : task.preemptPinned = false) (hctx : task.context = none) :
    PreInv { s.setTask i task with nextTaskId := n } := by
  have hpre : ∀ c, ¬Preempted s c i := by
    intro c hp
    rcases hfree with he | hfin
    · rw [hp.entry] at he; exact Bool.noConfusion he
    · rw [hp.unfinished] at hfin; exact Bool.noConfusion hfin
  have hkeep : ∀ {c j}, Preempted s c j →
      Preempted { s.setTask i task with nextTaskId := n } c j := by
    intro c j hp
    have hji : j ≠ i := fun he => hpre c (he ▸ hp)
    exact hp.of_pin (by simp [State.setTask, hji]) hp.stored.1
  refine ⟨fun c => ?_, fun j => ?_, fun j hr d hd => ?_, fun c hflag => ?_⟩
  · refine (h.core c).congr (hinv.core c) fun j hj => ?_
    exact update_of_ne (fun he => hi c (by rw [← he]; exact hj)) _ _
  · by_cases hji : j = i
    · subst hji
      exact ⟨by simp [State.setTask, hpinned], by simp [State.setTask, hctx]⟩
    · simpa [State.setTask, hji] using h.slot j
  · by_cases hji : j = i
    · subst hji
      obtain ⟨x, hx, -⟩ := hd.2
      simp [State.setTask, hctx] at hx
    · have hd' : Stored s d j := ⟨hd.1, by simpa [State.setTask, hji] using hd.2⟩
      simp only [State.setTask, update_of_ne hji] at hr ⊢
      exact h.stored j hr d hd'
  · rcases h.unstuck c hflag with hin | ⟨j, hj, hx⟩ | hn | ⟨j, hj⟩
    · exact .inl hin
    · have hji : j ≠ i := by
        rintro rfl
        obtain ⟨f, rest, hstack, -⟩ := (hinv.core c).frame
        simp only [State.top, hstack, List.head?_cons, Option.some.injEq] at hj
        refine hi c ?_
        rw [Core.holdings_eq hstack]
        exact Core.mem_heldIn.2 (.inr (.inl (by rcases hj with rfl | rfl <;> rfl)))
      exact .inr (.inl ⟨j, hj, by simpa [State.setTask, hji] using hx⟩)
    · exact .inr (.inr (.inl hn))
    · exact .inr (.inr (.inr ⟨j, hkeep hj⟩))

end

end

end RadKernel.Sched
