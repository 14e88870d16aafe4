import RadKernel.Sched.Holdings

/-!
# The steps of a core

Each step of the scheduler keeps the invariant. A task that ends does so on the core it started
on and as its current task, an interrupt yields for the task that executes, and a slot is recycled
that no core holds.
-/

namespace RadKernel.Sched

open Function List
open Core (holdings_eq waiting heldIn returning mem_heldIn load)
open State (setTask setCore)

variable {s : State} {c i id now k : Nat} {core core' : Core} {tasks : Nat → Task}
  {task : Task} {f g : Frame}

variable {rest : List Frame}

section
variable (h : Inv s)
include h

theorem Inv.start (hstack : (s.cores c).cpu.stack = .start :: rest) :
    Inv (s.setCore c
      ((s.cores c).replace [.body c (findTaskById s (s.cores c).currentTaskId)])) := by
  obtain ⟨hst, -, -⟩ := h.plain hstack rfl
  obtain ⟨hthread, hnil⟩ := hst.resolve_right (·.1)
  refine h.setCore_reframe hstack rfl rfl rfl rfl ?_
  simp only [Core.replace, hstack, tail_cons, cons_append, nil_append]
  refine .inl ⟨⟨hthread, ?_⟩, hnil⟩
  cases hfind : findTaskById s (s.cores c).currentTaskId with
  | none => exact .inl rfl
  | some i => exact .inr (h.current hstack rfl hfind).1.symm

theorem Inv.plain_of_current
    (hstack : (s.cores c).cpu.stack = f :: rest) (hf : ∀ i, f ≠ .picked i ∧ f ≠ .owned i)
    (hcur : (s.cores c).currentTaskId ≠ 0) : f.plain := by
  have hin := h.inFrame hstack
  cases f
  case ended _ task => cases task <;> simp_all [InFrame]
  all_goals simp_all [Frame.plain, InFrame]

theorem Inv.irq {b : Bool} (hstack : (s.cores c).cpu.stack = f :: rest) (hplain : f.plain) :
    Inv (s.setCore c { (s.cores c).push [.yielding, .irq c] with inIrq := b }) := by
  obtain ⟨hst, -, -⟩ := h.plain hstack hplain
  refine h.setCore_reframe hstack hplain rfl rfl rfl ?_
  simp only [Core.push, hstack, cons_append, nil_append]
  exact .inr ⟨trivial, .inr ⟨trivial, hst⟩⟩

theorem Inv.setCore_same (hcpu : core'.cpu = (s.cores c).cpu)
    (hcur : core'.currentTaskId = (s.cores c).currentTaskId)
    (hctx : core'.schedulerContext = (s.cores c).schedulerContext) : Inv (s.setCore c core') := by
  obtain ⟨hcore, hholds⟩ := (h.core c).congr_core hcpu hcur hctx
  exact h.setCore hcore (fun j hj => hholds ▸ hj) fun j hj _ _ => hholds ▸ hj

/-- A function that may have interrupted others returns. -/
theorem Inv.pop (hstack : (s.cores c).cpu.stack = f :: rest) (hf : Returning f) :
    Inv (s.setCore c ((s.cores c).replace [])) := by
  have hplain := Frame.plain_of_returning hf
  obtain ⟨hst, -, -⟩ := h.plain hstack hplain
  refine h.setCore_reframe hstack hplain rfl rfl rfl ?_
  simpa [Core.replace, hstack, State.thread] using hst.tail hf

theorem Inv.irqEnd (hstack : (s.cores c).cpu.stack = .irq k :: rest) : Inv (stepIrqEnd s c k) :=
  (h.pop hstack trivial).setCore_same rfl rfl rfl

/-- A core in code or in `rad_task_yield` goes on with plain frames. -/
theorem Inv.enter (hstack : (s.cores c).cpu.stack = f :: rest) (hf : f.runsCode ∨ Returning f)
    (frames : List Frame) (hframes : ∀ g ∈ frames, Returning g) :
    Inv (s.setCore c ((s.cores c).enter f frames)) := by
  have hplain := hf.elim Frame.plain_of_runsCode Frame.plain_of_returning
  obtain ⟨hst, -, -⟩ := h.plain hstack hplain
  obtain ⟨below, hbelow, hstacked⟩ := Stacked.enter hstack hst hf frames
  refine h.setCore_reframe hstack hplain (by simp) (by simp) (by simp) ?_
  rw [hbelow]
  clear hbelow
  induction frames with
  | nil => exact hstacked
  | cons g frames ih =>
    simp only [mem_cons, forall_eq_or_imp] at hframes
    exact .inr ⟨hframes.1, ih hframes.2⟩

theorem Inv.leave (task : Task)
    (hstack : (s.cores c).cpu.stack = f :: rest) (hf : f.runsCode ∨ Returning f)
    (hi : findTaskById s (s.cores c).currentTaskId = some i)
    (hsame : task.id = (s.tasks i).id ∧ task.entry = (s.tasks i).entry ∧
      task.onCpu = (s.tasks i).onCpu ∧ task.context = (s.tasks i).context) :
    Inv ((s.setTask i task).setCore c ((s.cores c).leave.enter f [.leaving i])) := by
  have hplain := hf.elim Frame.plain_of_runsCode Frame.plain_of_returning
  obtain ⟨hst, hbusy, -⟩ := h.plain hstack hplain
  obtain ⟨hthread, hret⟩ := h.current hstack hplain hi
  obtain ⟨hne, hentry, hid⟩ := findTaskById_some hi
  have hon := (hbusy i hthread).2
  obtain ⟨below, hbelow, hstacked⟩ :=
    Stacked.enter (show (s.cores c).leave.cpu.stack = f :: rest from hstack) hst hf [.leaving i]
  have hholds : ((s.cores c).leave.enter f [.leaving i]).holdings = (s.cores c).holdings := by
    rw [holdings_eq hstack, holdings_eq hbelow, heldIn_of_plain hplain, if_pos hne]
    simp [heldIn, Frame.handled, waiting, returning, Core.leave]
  have hmem : i ∈ (s.cores c).holdings := by
    rw [holdings_eq hstack]
    exact mem_heldIn.2 (.inl hthread)
  have hwait : ∀ j ∈ (s.cores c).schedulerContext.bind Context.thread, j ≠ i := by
    rintro j hj rfl
    have hnodup := (h.core c).nodup
    rw [holdings_eq hstack, heldIn_of_plain hplain, if_pos hne, show
      (s.cores c).cpu.thread = some j from hthread, Option.mem_def.1 hj] at hnodup
    simp at hnodup
  refine h.setBoth ?_ hsame.2.1 hsame.1 ?_ ⟨⟨_, _, hbelow, ?_⟩, ?_⟩ ?_ ?_
  · exact fun c' hc' hi' => hc' (h.apart c' c i hi' hmem)
  · obtain ⟨h₁, h₂, h₃⟩ := h.slot i
    refine ⟨?_, ?_, ?_⟩
    · rw [hsame.1, hsame.2.1]; exact h₁
    · rw [hsame.2.1]; exact fun _ => hentry
    · rw [hsame.2.2.2]; exact h₃
  · refine ⟨by simpa using hstacked, by simpa [State.thread] using hthread, ?_, by simp, ?_⟩
    · simpa [hsame.2.2.1] using hon
    · simpa [Returns] using hret.congr fun j hj => update_of_ne (hwait j hj) task s.tasks
  · rw [hholds]; exact (h.core c).nodup
  · rw [hholds]; exact fun j hj => .inr hj
  · rw [hholds]
    rintro j (rfl | hj) - -
    · exact hmem
    · exact hj

end

theorem taskMatchesCore_true (h : taskMatchesCore s task c now = true) :
    task.entry ∧ task.finished = false ∧ task.running = false ∧ task.onCpu = false ∧
      (task.targetCore = coreAny ∨ task.targetCore = (c : Int)) := by
  unfold taskMatchesCore at h
  split_ifs at h <;> simp_all

theorem selectTask_some (h : selectTask s c now = some i) :
    taskMatchesCore s (s.tasks i) c now = true := by
  exact List.find?_some (p := fun i => taskMatchesCore s (s.tasks i) c now) h

theorem Inv.not_held (h : Inv s) (hrun : (s.tasks i).running = false)
    (hon : (s.tasks i).onCpu = false) : i ∉ (s.cores c).holdings := by
  intro hi
  rcases (h.core c).busy hi with hbusy | hbusy
  · rw [hrun] at hbusy; exact Bool.noConfusion hbusy
  · rw [hon] at hbusy; exact Bool.noConfusion hbusy

@[simp] theorem selectedTask_owner :
    (selectedTask task c).id = task.id ∧ (selectedTask task c).entry = task.entry ∧
      (selectedTask task c).running = true ∧ (selectedTask task c).onCpu = task.onCpu ∧
      (selectedTask task c).context = task.context := by
  unfold selectedTask
  dsimp only
  split_ifs <;> simp

section
variable (h : Inv s)
include h

theorem Inv.pick (hstack : (s.cores c).cpu.stack = f :: rest) (hf : f.runsCode ∨ Returning f)
    (hi : selectTask s c now = some i) (hcpu : core'.cpu = (s.cores c).cpu)
    (hcur : core'.currentTaskId = (s.tasks i).id) :
    Inv ((s.setTask i (selectedTask (s.tasks i) c)).setCore c
      (core'.enter f [.picked i])) := by
  have hplain := hf.elim Frame.plain_of_runsCode Frame.plain_of_returning
  obtain ⟨hentry, -, hrun, hon, -⟩ := taskMatchesCore_true (selectTask_some hi)
  obtain ⟨hst, hbusy, -⟩ := h.plain hstack hplain
  have hfree : ∀ c', i ∉ (s.cores c').holdings := fun c' => h.not_held hrun hon
  have hne : ∀ j ∈ s.thread c, j ≠ i := by
    rintro j hj rfl
    exact hfree c (by rw [holdings_eq hstack]; exact mem_heldIn.2 (.inl hj))
  obtain ⟨below, hbelow, hstacked⟩ := Stacked.enter (hcpu ▸ hstack) (hcpu ▸ hst) hf [.picked i]
  have hholds : (core'.enter f [.picked i]).holdings = (s.thread c).toList ++ [i] := by
    rw [holdings_eq hbelow]
    simp [heldIn, Frame.handled, waiting, returning, hcpu, State.thread]
  obtain ⟨h₁, h₂, h₃, h₄, h₅⟩ := @selectedTask_owner c (s.tasks i)
  refine h.setBoth (fun c' _ => hfree c') h₂ h₁ ?_ ⟨⟨_, _, hbelow, ?_⟩, ?_⟩ ?_ ?_
  · obtain ⟨hid, hidle, hctx⟩ := h.slot i
    refine ⟨?_, ?_, ?_⟩
    · rw [h₁, h₂]; exact hid
    · rw [h₂]; exact fun _ => hentry
    · rw [h₅]; exact hctx
  · refine ⟨by simpa using hstacked, ?_, by simpa [h₁] using hcur, by simp⟩
    simp only [Core.enter_thread, hcpu]
    exact hbusy.congr fun j hj => update_of_ne (hne j hj) _ _
  · rw [hholds]
    cases hthread : s.thread c with
    | none => simp
    | some j => simp [hne j hthread]
  · intro j hj
    rw [hholds] at hj
    rw [holdings_eq hstack, mem_heldIn]
    simp only [mem_append, Option.mem_toList, mem_singleton] at hj
    exact hj.symm.imp_right .inl
  · rintro j (rfl | hj) hon' hrun'
    · simp [hholds]
    · -- the slots that were held run
      have hji : j ≠ i := fun he => hfree c (he ▸ hj)
      rw [update_of_ne hji] at hon' hrun'
      rcases (h.core c).running hj with hr | ⟨-, g, hg, hgj⟩
      · rw [hrun'] at hr; exact Bool.noConfusion hr
      · rw [hstack, List.head?_cons, Option.mem_some_iff] at hg
        subst hg
        rcases hgj with rfl | rfl | rfl <;> simp [Frame.plain] at hplain

theorem Inv.handle (hstack : (s.cores c).cpu.stack = f :: rest) (hf : f.handled = some i)
    (hg : g.handled = some i) (hsame : task.id = (s.tasks i).id ∧ task.entry = (s.tasks i).entry)
    (hslot : SlotInv s.nextTaskId i task)
    (hframe : InFrame (update s.tasks i task) c ((s.cores c).replace [g]) rest g) :
    Inv ((s.setTask i task).setCore c ((s.cores c).replace [g])) := by
  obtain ⟨hmem, hfree, -⟩ := h.handled hstack hf
  have hwaiting : ∀ {core : Core} {f : Frame}, f.handled = some i → core.waiting f = none := by
    intro core f hf
    cases f <;> simp_all [Frame.handled, waiting, returning]
  have hstack' : ((s.cores c).replace [g]).cpu.stack = g :: rest := by
    simp [Core.replace, hstack]
  have hholds : ((s.cores c).replace [g]).holdings = (s.cores c).holdings := by
    rw [holdings_eq hstack, holdings_eq hstack', heldIn, heldIn, hf, hg, hwaiting hf, hwaiting hg]
    rfl
  refine h.setBoth hfree hsame.2 hsame.1 hslot ⟨⟨g, rest, hstack', hframe⟩, ?_⟩ ?_ ?_
  · rw [hholds]; exact (h.core c).nodup
  · rw [hholds]; exact fun j hj => .inr hj
  · rw [hholds]
    rintro j (rfl | hj) - -
    · exact hmem
    · exact hj

theorem Inv.own (hstack : (s.cores c).cpu.stack = .picked i :: rest) :
    Inv ((s.setTask i (takeOwnership (s.tasks i) i)).setCore c
      ((s.cores c).replace [.owned i])) := by
  obtain ⟨hst, hbusy, hcur, hrun⟩ := h.inFrame hstack
  obtain ⟨-, -, hthread⟩ := h.handled hstack rfl
  obtain ⟨hid, hidle, hctx⟩ := h.slot i
  refine h.handle hstack rfl rfl ⟨rfl, rfl⟩ ⟨hid, fun _ => hidle (.inl hrun), ?_⟩ ?_
  · intro x hx
    cases hc : (s.tasks i).context with
    | none =>
      simp only [takeOwnership, hc, Option.getD_none, Option.mem_some_iff] at hx
      subst hx
      exact ⟨rfl, .inl ⟨by simp [Outermost], rfl⟩⟩
    | some y =>
      simp only [takeOwnership, hc, Option.getD_some, Option.mem_some_iff] at hx
      subst hx
      exact hctx _ hc
  · refine ⟨hst, hbusy.update hthread, by simpa [takeOwnership, Core.replace] using hcur, ?_, ?_⟩
    · simpa [Busy, takeOwnership] using hrun
    · simp [takeOwnership]

theorem Inv.settle (hstack : (s.cores c).cpu.stack = .resumed i :: rest) :
    Inv ((s.setTask i (settle (s.tasks i))).setCore c ((s.cores c).replace [.released i])) := by
  obtain ⟨hst, hbusy, hcur, hon⟩ := h.inFrame hstack
  obtain ⟨-, -, hthread⟩ := h.handled hstack rfl
  have hsame : (Sched.settle (s.tasks i)).id = (s.tasks i).id ∧
      (Sched.settle (s.tasks i)).entry = (s.tasks i).entry ∧
      (Sched.settle (s.tasks i)).onCpu = (s.tasks i).onCpu ∧
      (Sched.settle (s.tasks i)).context = (s.tasks i).context := by
    unfold Sched.settle
    split_ifs <;> simp
  obtain ⟨hid, hidle, hctx⟩ := h.slot i
  refine h.handle hstack rfl rfl ⟨hsame.1, hsame.2.1⟩ ⟨?_, ?_, ?_⟩ ?_
  · rw [hsame.1, hsame.2.1]; exact hid
  · rw [hsame.2.1]; exact fun _ => hidle (.inr hon)
  · rw [hsame.2.2.2]; exact hctx
  · exact ⟨hst, hbusy.update hthread, hcur, by simpa [hsame.2.2.1] using hon⟩

theorem Inv.release (hstack : (s.cores c).cpu.stack = .released i :: rest) :
    Inv ((s.setTask i { s.tasks i with onCpu := false }).setCore c
      ((s.cores c).replace [])) := by
  obtain ⟨hst, hbusy, hcur, -⟩ := h.inFrame hstack
  obtain ⟨-, hfree, hthread⟩ := h.handled hstack rfl
  obtain ⟨hid, hidle, hctx⟩ := h.slot i
  obtain ⟨g, rest', rfl⟩ := hst.ne_nil
  have hstack' : ((s.cores c).replace []).cpu.stack = g :: rest' := by
    simp [Core.replace, hstack]
  have hholds : ((s.cores c).replace []).holdings = (s.thread c).toList := by
    rw [holdings_eq hstack', heldIn_of_plain hst.plain, if_neg (by simpa [Core.replace])]
    simp [Core.replace, State.thread]
  refine h.setBoth hfree rfl rfl ⟨hid, fun hr => hidle (.inl (by simpa using hr)), hctx⟩
    ⟨⟨g, rest', hstack', (inFrame_of_plain hst.plain).2 ⟨hst, hbusy.update hthread, ?_⟩⟩, ?_⟩ ?_ ?_
  · exact fun hne => absurd hcur hne
  · rw [hholds]; cases s.thread c <;> simp
  · rw [hholds, holdings_eq hstack]
    exact fun j hj => .inr (mem_heldIn.2 (.inl (by simpa [State.thread] using hj)))
  · rintro j hj hon -
    by_cases hji : j = i
    · subst hji; simp at hon
    · rw [hholds]
      have hj' := mem_heldIn.1 (holdings_eq hstack ▸ hj.resolve_left hji)
      simpa [State.thread, Frame.handled, waiting, returning, Ne.symm hji] using hj'

theorem Inv.switchTo (hstack : (s.cores c).cpu.stack = .owned i :: rest) :
    Inv (s.setCore c (switchTo (s.cores c) (s.tasks i) i)) := by
  obtain ⟨hst, hbusy, hcur, hi, hctx⟩ := h.inFrame hstack
  obtain ⟨hmem, -, hthread⟩ := h.handled hstack rfl
  obtain ⟨x, hx⟩ := Option.ne_none_iff_exists'.1 hctx
  obtain ⟨hxthread, hxstack⟩ := (h.slot i).context x hx
  have hne : (s.cores c).currentTaskId ≠ 0 := by
    have hpos := ((h.slot i).id ((h.slot i).idle (.inl (hi i rfl).1))).1
    omega
  obtain ⟨g, rest', hg⟩ := hxstack.ne_nil
  have hplain := (hg ▸ hxstack).plain
  simp only [Sched.switchTo, hx, hstack, tail_cons]
  have hholds : (((s.cores c).store ⟨(s.cores c).cpu.thread, .resumed i :: rest⟩).load x).holdings =
      i :: (s.thread c).toList := by
    rw [holdings_eq hg, heldIn_of_plain hplain]
    simp [load, Core.store, hne, hxthread, State.thread]
  refine h.setCore ⟨⟨g, rest', hg, (inFrame_of_plain hplain).2 ?_⟩, ?_⟩ ?_ ?_
  · refine ⟨?_, ?_, fun _ => ⟨i, hxthread, hcur.symm, _, rest, rfl, hst, hbusy⟩⟩
    · simpa [load, hxthread, ← hg] using hxstack
    · simpa [load, hxthread] using hi
  · rw [hholds]
    cases ht : s.thread c with
    | none => simp
    | some j =>
      have hji : j ≠ i := fun he => hthread (by rw [ht, he])
      simp [Ne.symm hji]
  · rw [hholds]
    intro j hj
    rcases List.mem_cons.1 hj with rfl | hj
    · exact hmem
    · rw [holdings_eq hstack]
      exact mem_heldIn.2 (.inl (by simpa [State.thread] using hj))
  · rintro j hj - -
    rw [hholds]
    have hj' := mem_heldIn.1 (holdings_eq hstack ▸ hj)
    simpa [State.thread, Frame.handled, waiting, returning, or_comm, eq_comm] using hj'

theorem Inv.switchAway {frames : List Frame}
    (hstack : (s.cores c).cpu.stack = f :: rest) (hret : (s.cores c).returning f = true)
    (hf : f.handled = none) (hthread : s.thread c = some i) (hon : (s.tasks i).onCpu)
    (hcur : (s.cores c).currentTaskId = 0) (hreturns : Returns s.tasks (s.cores c) i)
    (hframes : Stacked (some i) (frames ++ rest)) : Inv (switchAway s c i c frames) := by
  obtain ⟨thread, rest', hctx, hst, hbusy⟩ := hreturns
  have hold : (s.cores c).holdings = i :: thread.toList := by
    rw [holdings_eq hstack, heldIn, hf, waiting, if_pos hret, hctx,
      show (s.cores c).cpu.thread = some i from hthread]
    rfl
  have hnodup := (h.core c).nodup
  rw [hold] at hnodup
  have hne : thread ≠ some i := by
    rintro rfl
    simp at hnodup
  obtain ⟨hid, hidle, -⟩ := h.slot i
  simp only [Sched.switchAway, hctx, hstack, tail_cons]
  have hholds : ((s.cores c).load ⟨thread, .resumed i :: rest'⟩).holdings =
      thread.toList ++ [i] := by
    rw [holdings_eq rfl]
    simp [heldIn, Frame.handled, waiting, returning, load]
  refine h.setBoth ?_ rfl rfl ⟨hid, hidle, ?_⟩ ⟨⟨_, _, rfl, hst, hbusy.update hne, hcur, ?_⟩, ?_⟩
    ?_ ?_
  · exact fun c' hc' hi' => hc' (h.apart c' c i hi' (by simp [hold]))
  · intro x hx
    simp only [Option.mem_some_iff] at hx
    subst hx
    exact ⟨hthread, hframes⟩
  · simpa using hon
  · rw [hholds]
    exact (perm_append_singleton i thread.toList).nodup_iff.2 hnodup
  · rw [hholds, hold]
    intro j hj
    simp only [mem_append, mem_singleton] at hj
    exact hj.symm.imp_right (mem_cons_of_mem i)
  · rw [hholds, hold]
    rintro j hj - -
    simp only [mem_append, mem_singleton]
    exact hj.elim .inr fun hj => (List.mem_cons.1 hj).symm

end

@[simp] theorem State.setCore_setCore (core core' : Core) :
    (s.setCore c core).setCore c core' = s.setCore c core' := by
  simp [setCore]

theorem stepFinish_some (s : State) (c i : Nat) :
    stepFinish s c c (some i) = (s.setTask i (finishTask (s.tasks i))).setCore c
      ((s.cores c).replace [.ended c (some i)]).leave := by
  simp [stepFinish, setCore]

theorem stepFinish_none (s : State) (c : Nat) :
    stepFinish s c c none = s.setCore c ((s.cores c).replace [.ended c none]).leave := by
  simp [stepFinish, setCore]

theorem switchNowhere_self (s : State) (c : Nat) :
    switchNowhere s c c = s.setCore c (((s.cores c).replace [.halted]).store
      ⟨s.thread c, .halted :: (s.cores c).cpu.stack.tail⟩) := by
  simp [switchNowhere, setCore]

section
variable (h : Inv s)
include h

theorem Inv.finish_some (hstack : (s.cores c).cpu.stack = .body k (some i) :: rest)
    (hcur : (s.cores c).currentTaskId = (s.tasks i).id) : Inv (stepFinish s c c (some i)) := by
  obtain ⟨hst, hbusy, hret⟩ := h.plain hstack rfl
  obtain ⟨houter, hnil⟩ := hst.resolve_right (·.1)
  have hthread : s.thread c = some i := by simpa [Outermost, eq_comm] using houter.2
  have hpos := ((h.slot i).id ((h.slot i).idle (.inl (hbusy i hthread).1))).1
  have hne : (s.cores c).currentTaskId ≠ 0 := by omega
  obtain ⟨j, hj, -, hreturns⟩ := hret hne
  obtain rfl := Option.some.inj (hthread.symm.trans hj)
  rw [stepFinish_some]
  have h' : Inv (s.setTask i (finishTask (s.tasks i))) := h.congr rfl rfl fun j => by
    by_cases hji : j = i
    · subst hji; simp [setTask, finishTask, Task.owner]
    · simp [setTask, hji]
  have hbusy' : ∀ thread, Busy s.tasks thread →
      Busy (s.setTask i (finishTask (s.tasks i))).tasks thread := by
    intro thread hb k hk
    by_cases hki : k = i
    · subst hki; simpa [setTask, finishTask] using hb k hk
    · simpa [setTask, hki] using hb k hk
  have hstack' : ((s.cores c).replace [.ended c (some i)]).leave.cpu.stack =
      .ended c (some i) :: rest := by
    simp [Core.replace, hstack]
  have hholds : ((s.cores c).replace [.ended c (some i)]).leave.holdings =
      (s.cores c).holdings := by
    rw [holdings_eq hstack', holdings_eq hstack]
    simp [heldIn, Frame.handled, waiting, returning, Core.leave, Core.replace, hne]
  refine h'.setCore ⟨⟨_, _, hstack', rfl, hnil, hthread, ?_, rfl, ?_⟩, ?_⟩ ?_ ?_
  · exact hbusy' _ (hthread ▸ hbusy)
  · obtain ⟨thread, rest', hctx, hst', hb⟩ := hreturns
    exact ⟨thread, rest', hctx, hst', hbusy' _ hb⟩
  · rw [hholds]; exact (h.core c).nodup
  · exact fun j hj => hholds ▸ hj
  · exact fun j hj _ _ => hholds ▸ hj

/-- A core that neither returns to a stored context nor handles a slot holds its stack only. -/
theorem Inv.setCore_thread {rest' : List Frame} (hstack : (s.cores c).cpu.stack = f :: rest)
    (hf : ∀ i, f ≠ .leaving i ∧ f ≠ .resumed i ∧ f ≠ .released i)
    (hthread : core'.cpu.thread = (s.cores c).cpu.thread) (hstack' : core'.cpu.stack = g :: rest')
    (hg : g.handled = none) (hret : core'.returning g = false)
    (hframe : InFrame s.tasks c core' rest' g) : Inv (s.setCore c core') := by
  have hholds : core'.holdings = (s.thread c).toList := by
    rw [Core.holdings_eq hstack', Core.heldIn, hg, Core.waiting, hret, hthread]
    simp [State.thread]
  refine h.setCore ⟨⟨g, rest', hstack', hframe⟩, ?_⟩ ?_ ?_
  · rw [hholds]; cases s.thread c <;> simp
  · rw [hholds, Core.holdings_eq hstack]
    exact fun j hj => Core.mem_heldIn.2 (.inl (by simpa [State.thread] using hj))
  · rintro j hj - hrun
    rcases (h.core c).running hj with hr | ⟨-, f', hf', hfj⟩
    · rw [hrun] at hr; exact Bool.noConfusion hr
    · rw [hstack, List.head?_cons, Option.mem_some_iff] at hf'
      subst hf'
      have := hf j
      tauto

theorem Inv.finish_none
    (hstack : (s.cores c).cpu.stack = .body k none :: rest) : Inv (stepFinish s c c none) := by
  obtain ⟨hst, hbusy, -⟩ := h.plain hstack rfl
  obtain ⟨⟨hthread, -⟩, hnil⟩ := hst.resolve_right (·.1)
  have hstack' : ((s.cores c).replace [.ended c none]).leave.cpu.stack = .ended c none :: rest := by
    simp [Core.replace, hstack]
  rw [stepFinish_none]
  exact h.setCore_thread hstack (by simp) rfl hstack' rfl rfl ⟨rfl, hnil, hthread, hbusy, rfl⟩

theorem Inv.switchNowhere
    (hstack : (s.cores c).cpu.stack = .ended c none :: rest) : Inv (switchNowhere s c c) := by
  obtain ⟨-, hnil, hthread, hbusy, hcur⟩ := h.inFrame hstack
  rw [switchNowhere_self]
  generalize hcore' : ((s.cores c).replace [.halted]).store
    ⟨s.thread c, .halted :: (s.cores c).cpu.stack.tail⟩ = core'
  have hcpu : core'.cpu = ⟨s.thread c, .halted :: rest⟩ := by
    simp [← hcore', Core.replace, Core.store, hstack, State.thread]
  have hcur' : core'.currentTaskId = 0 := by
    rw [← hcore']; exact hcur
  refine h.setCore_thread hstack (by simp) (by rw [hcpu]; rfl) (by rw [hcpu]) rfl ?_ ?_
  · simp [returning, hcur']
  · refine (inFrame_of_plain rfl).2 ⟨?_, ?_, fun hne => absurd hcur' hne⟩
    · rw [hcpu]; exact .inl ⟨hthread, hnil⟩
    · rw [hcpu]; exact hbusy

/-! ## Recycling a slot -/

theorem freeTask_some (hi : freeTask s = some i) : (s.tasks i).running = false := by
  have hp := List.find?_some hi
  have hidle := (h.slot i).idle
  cases hrun : (s.tasks i).running with
  | false => rfl
  | true => simp [hrun, hidle (.inl hrun)] at hp

/-- A slot that no core leaves or clears up after is held by none and was released. -/
theorem Inv.not_onCpu (hrun : (s.tasks i).running = false)
    (hfree : ∀ c, s.thread c ≠ some i ∧ s.top c ≠ some (.resumed i) ∧
      s.top c ≠ some (.released i)) :
    (∀ c, i ∉ (s.cores c).holdings) ∧ (s.tasks i).onCpu = false := by
  have hnot : ∀ c, i ∉ (s.cores c).holdings := by
    intro c hi
    rcases (h.core c).running hi with hr | ⟨-, f, hf, rfl | rfl | rfl⟩
    · rw [hrun] at hr; exact Bool.noConfusion hr
    · obtain ⟨f', rest, hstack, hin⟩ := (h.core c).frame
      rw [hstack, List.head?_cons, Option.mem_some_iff] at hf
      subst hf
      exact (hfree c).1 hin.2.1
    · exact (hfree c).2.1 hf
    · exact (hfree c).2.2 hf
  refine ⟨hnot, ?_⟩
  cases hon : (s.tasks i).onCpu with
  | false => rfl
  | true =>
    obtain ⟨c, hc⟩ := h.held i hon hrun
    exact absurd hc (hnot c)

theorem Inv.create (hi : ∀ c, i ∉ (s.cores c).holdings) (hlt : i < maxTasks)
    (hid : task.id = s.nextTaskId) (hrun : task.running = false) (hon : task.onCpu = false)
    (hctx : task.context = none) :
    Inv { s.setTask i task with nextTaskId := s.nextTaskId + 1 } where
  core c := (h.core c).congr fun j hj =>
    update_of_ne (fun he => hi c (by rw [← he]; exact hj)) _ _
  apart := h.apart
  slot j := by
    by_cases hj : j = i
    · subst hj
      refine ⟨?_, ?_, ?_⟩
      · simpa [setTask, hid] using fun _ => ⟨h.next, hlt⟩
      · simp [setTask, hrun, hon]
      · simp [setTask, hctx]
    · obtain ⟨hid, hidle, hctx⟩ := h.slot j
      simp only [setTask, update_of_ne hj]
      exact ⟨fun he => ⟨(hid he).1, Nat.lt_succ_of_lt (hid he).2.1, (hid he).2.2⟩, hidle, hctx⟩
  distinct j k hj hk heq := by
    have hnext : ∀ l, (s.tasks l).entry → (s.tasks l).id < s.nextTaskId :=
      fun l hl => ((h.slot l).id hl).2.1
    simp only [setTask] at hj hk heq
    by_cases hji : j = i <;> by_cases hki : k = i
    · rw [hji, hki]
    · subst hji
      rw [update_of_ne hki] at hk heq
      rw [update_self, hid] at heq
      exact absurd (hnext k hk) (by omega)
    · subst hki
      rw [update_of_ne hji] at hj heq
      rw [update_self, hid] at heq
      exact absurd (hnext j hj) (by omega)
    · rw [update_of_ne hji] at hj heq
      rw [update_of_ne hki] at hk heq
      exact h.distinct j k hj hk heq
  held j honj hrunj := by
    by_cases hj : j = i
    · subst hj
      simp [setTask, hon] at honj
    · simp only [setTask, update_of_ne hj] at honj hrunj
      exact h.held j honj hrunj
  next := Nat.succ_pos _

section
variable (hstack : (s.cores c).cpu.stack = f :: rest) (hf : f.runsCode ∨ Returning f)
include hstack hf

theorem Inv.runOne (now : Nat) : Inv (stepRunOne s c f now) := by
  unfold stepRunOne runOneTaskOnCore
  cases hi : selectTask s c now with
  | none => exact h.enter hstack hf [] (by simp)
  | some i =>
    simp only [dispatch, State.setCore_setCore]
    have hcore : ∀ core : Core, ((s.setTask i (selectedTask (s.tasks i) c)).setCore c core).cores c =
        core := fun core => by simp [State.setCore]
    rw [hcore]
    exact h.pick hstack hf hi rfl (by simp)

theorem Inv.yield (busy : Bool) : Inv (stepYield s c f busy) := by
  unfold stepYield
  split
  case h_1 => exact h.enter hstack hf [.falling] (by simp [Returning])
  case h_2 i hi =>
    unfold yieldedTask at hi
    split_ifs at hi
    refine h.leave _ hstack hf (Option.filter_eq_some_iff.1 hi).1 ?_
    unfold yieldTask
    dsimp only
    split_ifs <;> simp

end

theorem Inv.mark (task : Task) (htask : task.owner = (s.tasks i).owner) :
    Inv (s.setTask i task) := by
  refine h.congr rfl rfl fun j => ?_
  by_cases hj : j = i
  · subst hj; simpa [setTask] using htask
  · simp [setTask, hj]

theorem Inv.sleep
    (hstack : (s.cores c).cpu.stack = f :: rest) (hf : f.runsCode) (now microseconds : Nat) :
    Inv (stepSleep s c now microseconds) := by
  have henter : ∀ frames, (s.cores c).enter f frames = (s.cores c).push frames :=
    fun frames => by simp [Core.enter, hf]
  unfold stepSleep
  split
  case h_1 i hi =>
    unfold sleptTask at hi
    split_ifs at hi
    have hleave := h.leave (sleepTask (s.tasks i) now microseconds) hstack (.inl hf)
      (Option.filter_eq_some_iff.1 hi).1 ⟨rfl, rfl, rfl, rfl⟩
    simpa [Core.enter, hf] using hleave
  case h_2 =>
    dsimp only
    cases hd : dozingTask s (s.cores c).currentTaskId with
    | none =>
      simpa [henter] using h.enter hstack (.inl hf) [.dozing _] (by simp [Returning])
    | some j =>
      have h' := h.mark { s.tasks j with state := .sleeping, wakeMicros := now + microseconds } rfl
      have := h'.enter hstack (.inl hf) [.dozing (s.cores c).currentTaskId] (by simp [Returning])
      simpa [setTask, henter] using this

theorem Inv.wake (hstack : (s.cores c).cpu.stack = .dozing id :: rest) : Inv (stepWake s c id) := by
  unfold stepWake
  cases hd : dozingTask s id with
  | none => exact h.pop hstack trivial
  | some j =>
    have h' := h.mark { s.tasks j with state := .running } rfl
    exact h'.pop hstack trivial

end

def newTask (s : State) (targetCore : Int) : Task :=
  { id := s.nextTaskId
    entry := true
    state := .ready
    targetCore := targetCore
    currentCore := coreAny }

theorem radTaskCreateConfig_cases (s : State) (targetCore : Int) :
    ((radTaskCreateConfig s targetCore).1 ≠ .ok ∧ (radTaskCreateConfig s targetCore).2 = s) ∨
    ∃ i, freeTask s = some i ∧ radTaskCreateConfig s targetCore =
      (.ok, { s.setTask i (newTask s targetCore) with nextTaskId := s.nextTaskId + 1 }) := by
  unfold radTaskCreateConfig
  split_ifs
  · exact .inl ⟨by simp, rfl⟩
  · exact .inl ⟨by simp, rfl⟩
  · cases hi : freeTask s with
    | none => exact .inl ⟨by simp, rfl⟩
    | some i => exact .inr ⟨i, rfl, rfl⟩

theorem Inv.createConfig (h : Inv s) (targetCore : Int)
    (hfree : ∀ i ∈ freeTask s, ∀ c, s.thread c ≠ some i ∧
      s.top c ≠ some (.resumed i) ∧ s.top c ≠ some (.released i)) :
    Inv (radTaskCreateConfig s targetCore).2 := by
  rcases radTaskCreateConfig_cases s targetCore with ⟨-, heq⟩ | ⟨i, hi, heq⟩
  · rw [heq]; exact h
  · rw [heq]
    have hheld := (h.not_onCpu (freeTask_some h hi) (hfree i hi)).1
    have hlt : i < maxTasks := List.mem_range.1 (mem_of_find?_eq_some hi)
    exact h.create hheld hlt rfl rfl rfl rfl

end RadKernel.Sched
