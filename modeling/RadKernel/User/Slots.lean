import RadKernel.User.Steps

/-!
# Slots and cores

The steps by which a task gets onto a core or off it, and by which a slot and a process record are
taken and given back.
-/

namespace RadKernel.User

open Kernel Fd Process Function

variable {s s' : Machine} {c c' t t' u x : Nat}

theorem Holds.congr (h : Holds s t) (huser : (s'.tasks t).user = (s.tasks t).user)
    (hslot : s'.users (s.tasks t).user = s.users (s.tasks t).user) : Holds s' t where
  lt := huser ▸ h.lt
  used := by
    rw [huser, hslot]
    exact h.used
  task := by
    rw [huser, hslot]
    exact h.task

theorem Owner.congr (h : Owner s u t) (hslot : s'.users u = s.users u)
    (huser : (s'.tasks t).user = (s.tasks t).user) (hpoint : (s'.tasks t).point = (s.tasks t).point)
    (hcount : s.taskCount ≤ s'.taskCount)
    (hrecord : ∀ i < maxProcesses, (s.kernel.processes i).used = true → s.attached i = some t →
      (s.kernel.processes i).pid = (s.users u).pid → (s'.kernel.processes i).used = true ∧
        (s'.kernel.processes i).pid = (s.kernel.processes i).pid ∧ s'.attached i = some t) :
    Owner s' u t where
  task := hslot ▸ h.task
  lt := Nat.lt_of_lt_of_le h.lt hcount
  user := huser.trans h.user
  live := hpoint ▸ h.live
  pid := hslot ▸ h.pid
  record := by
    obtain ⟨i, hi, hused, hpid, hit⟩ := h.record
    obtain ⟨hused', hpid', hit'⟩ := hrecord i hi hused hit hpid
    exact ⟨i, hi, hused', by rw [hpid', hpid, hslot], hit'⟩
  context := hslot ▸ h.context
  entered := by
    rw [hpoint, hslot]
    exact h.entered
  loaded := by
    rw [hpoint, hslot]
    exact h.loaded
  gone := by
    rw [hpoint, hslot]
    exact h.gone

theorem OnCore.congr (h : OnCore s c t) (htask : s'.tasks t = s.tasks t)
    (hslot : s'.users (s.tasks t).user = s.users (s.tasks t).user) (hcore : s'.cores c = s.cores c)
    (hcount : s.taskCount ≤ s'.taskCount)
    (hapart : ∀ x, (s.users (s.tasks t).user).space = some x → ∀ c' < maxCores, c' ≠ c →
      (s'.cores c').space ≠ some x) : OnCore s' c t where
  lt := Nat.lt_of_lt_of_le h.lt hcount
  live := htask ▸ h.live
  running := htask ▸ h.running
  holds := h.holds.congr (by rw [htask]) hslot
  pid := by
    rw [htask, hslot, hcore]
    exact h.pid
  away := by
    rw [htask, hslot, hcore]
    exact h.away
  own := by
    rw [htask, hslot, hcore]
    exact h.own
  apart := by
    rw [htask, hslot]
    exact hapart

namespace Inv

/-! ## The scheduler -/

section
variable (h : Inv s) (core : Core) (hcore : core.task = none)
  (hspace : core.space = (s.cores c).space ∨ core.space = none)
include h core hcore hspace

theorem offCore {running : Nat → Bool}
    (hrunning : ∀ t, (∃ c' < maxCores, c' ≠ c ∧ (s.cores c').task = some t) →
      running t = (s.tasks t).running) :
    Inv { s.setCore c core with tasks := fun t => { s.tasks t with running := running t } } := by
  have hother : ∀ c' < maxCores, ∀ x, (update s.cores c core c').space = some x →
      (s.cores c').space = some x := by
    intro c' _ x hx
    by_cases hcc : c' = c
    · subst hcc
      rw [update_self] at hx
      rcases hspace with heq | heq <;> rw [heq] at hx
      · exact hx
      · cases hx
    · rwa [update_of_ne hcc] at hx
  have htask : ∀ c' t, (update s.cores c core c').task = some t →
      c' ≠ c ∧ (s.cores c').task = some t := by
    intro c' t ht
    by_cases hcc : c' = c
    · subst hcc
      rw [update_self, hcore] at ht
      cases ht
    · exact ⟨hcc, by rwa [update_of_ne hcc] at ht⟩
  refine
    { range := h.range, distinct := h.distinct, ended := h.ended, unattached := h.unattached
      owner := fun u hu hused => ?_, waiting := fun t hlt hlive hfinished => ?_
      attach := fun i hi hused t hit => ?_, onCore := fun c' hc' t ht => ?_, single := ?_
      bound := h.bound, unique := h.unique, coreBound := ?_, safe := h.safe }
  · obtain ⟨t, ho⟩ := h.owner u hu hused
    exact ⟨t, ho.congr rfl rfl rfl le_rfl fun i _ hiused hit _ => ⟨hiused, rfl, hit⟩⟩
  · exact (h.waiting t hlt hlive hfinished).congr rfl rfl
  · obtain ⟨hlt, hpos, hholds⟩ := h.attach i hi hused t hit
    exact ⟨hlt, hpos, fun hlive => ⟨(hholds hlive).1.congr rfl rfl, (hholds hlive).2⟩⟩
  · obtain ⟨hcc, ht'⟩ := htask c' t ht
    have hon := h.onCore c' hc' t ht'
    refine hon.congr ?_ rfl (update_of_ne hcc ..) le_rfl fun x hx c'' hc'' hne hx' =>
      hon.apart x hx c'' hc'' hne (hother c'' hc'' x hx')
    dsimp only
    rw [hrunning t ⟨c', hc', hcc, ht'⟩]
  · intro c₁ hc₁ c₂ hc₂ t h₁ h₂
    exact h.single c₁ hc₁ c₂ hc₂ t (htask c₁ t h₁).2 (htask c₂ t h₂).2
  · intro c' hc' x hx
    exact h.coreBound c' hc' x (hother c' hc' x hx)

theorem setCoreFree : Inv (s.setCore c core) :=
  h.offCore core hcore hspace fun _ _ => rfl

end

theorem leave (h : Inv s) (hc : c < maxCores) (ht : (s.cores c).task = some t) :
    Inv (s.leave c t) := by
  have hrunning : ∀ t', (∃ c' < maxCores, c' ≠ c ∧ (s.cores c').task = some t') →
      (if t' = t then false else (s.tasks t').running) = (s.tasks t').running := by
    rintro t' ⟨c', hc', hcc, ht'⟩
    rw [if_neg]
    rintro rfl
    exact hcc (h.single c' hc' c hc t' ht' ht)
  have hleft := h.offCore { s.cores c with task := none, pid := 0 } rfl (.inl rfl) hrunning
  have htasks : (fun t' => { s.tasks t' with
      running := if t' = t then false else (s.tasks t').running }) =
      update s.tasks t { s.tasks t with running := false } := by
    funext t'
    by_cases htt : t' = t
    · subst htt
      simp
    · simp [htt]
  rw [htasks] at hleft
  exact hleft

/-- A task was dispatched on a core, which then has the address space and the pid. -/
structure Dispatched (s : Machine) (c t : Nat) (loaded : Option Nat) (pid : Int) : Prop where
  space : loaded = (s.cores c).space ∧ (s.users (s.tasks t).user).contextPid = 0 ∨
    loaded = (s.users (s.tasks t).user).space.or (s.cores c).space ∧
      (s.users (s.tasks t).user).contextPid ≠ 0
  current : pid = 0 ∨ pid = (s.users (s.tasks t).user).pid
  eq : s.dispatch c t = { s.setCore c ⟨loaded, pid, some t⟩ with
    tasks := Function.update s.tasks t { s.tasks t with running := true, processPid := pid } }

theorem dispatched (h : Inv s) (hholds : Holds s t) (ho : Owner s (s.tasks t).user t) :
    ∃ space pid, Dispatched s c t space pid := by
  set process := s.users (s.tasks t).user with hprocess
  have hmax : max process.contextPid 0 = 0 ∨ max process.contextPid 0 = process.pid := by
    rcases ho.context with hcontext | hcontext <;> rw [hcontext]
    · exact .inl rfl
    · exact .inr (max_eq_left ho.pid.le)
  refine ⟨if process.contextPid = 0 then (s.cores c).space else process.space.or (s.cores c).space,
    max process.contextPid 0, ?_, hmax, ?_⟩
  · split_ifs with hzero
    · exact .inl ⟨rfl, hzero⟩
    · exact .inr ⟨rfl, hzero⟩
  · have hfind : s.findUserProcess process.contextPid =
        if process.contextPid = 0 then none else some (s.tasks t).user := by
      rcases ho.context with hcontext | hcontext
      · rw [hcontext, if_pos rfl, h.findUserProcess_zero]
      · have hne : process.pid ≠ 0 := ho.pid.ne'
        rw [hcontext, if_neg hne, h.findUserProcess hholds.lt hholds.used]
    set s₁ := (s.setCore c { s.cores c with task := some t, pid := max (s.tasks t).processPid 0 }).setTask
      t { s.tasks t with running := true } with hs₁
    have hfind₁ : s₁.findUserProcess process.contextPid =
        if process.contextPid = 0 then none else some (s.tasks t).user := hfind
    have hcore₁ : (s₁.cores c).task = some t := by simp [hs₁]
    have hunfold : s.dispatch c t = ((s₁.findUserProcess process.contextPid).elim s₁
        (s₁.activate c)).setCurrentPid c process.contextPid := by
      have hcontext : (s₁.users (s₁.tasks t).user).contextPid = process.contextPid := by
        simp [hs₁, hprocess]
      rw [← hcontext]
      unfold Machine.dispatch
      dsimp only
      split
      · next hnone =>
        have hnone : s₁.findUserProcess (s₁.users (s₁.tasks t).user).contextPid = none := hnone
        rewrite [hnone]
        rfl
      · next u hsome =>
        have hsome : s₁.findUserProcess (s₁.users (s₁.tasks t).user).contextPid = some u := hsome
        rewrite [hsome]
        rfl
    rw [hunfold, hfind₁]
    split_ifs with hzero
    · dsimp only [Option.elim]
      rw [Machine.setCurrentPid_eq hcore₁]
      simp [hs₁, Machine.setCore, Machine.setTask]
    · dsimp only [Option.elim]
      rw [Machine.setCurrentPid_eq (by rw [Machine.activate_eq]; simpa using hcore₁),
        Machine.activate_eq]
      simp [hs₁, Machine.setCore, Machine.setTask, Machine.setSpace, hprocess]

theorem dispatch (h : Inv s) (hc : c < maxCores) (hfree : (s.cores c).task = none)
    (hlt : t < s.taskCount) (hrunning : (s.tasks t).running = false)
    (hfinished : (s.tasks t).finished = false)
    (haway : (s.tasks t).point.Away → ∀ x, (s.users (s.tasks t).user).space = some x →
      (s.users (s.tasks t).user).contextPid = 0 ∧ (s.cores c).space ≠ some x)
    (hapart : ∀ x, (s.users (s.tasks t).user).space = some x → ∀ c' < maxCores, c' ≠ c →
      (s.cores c').space ≠ some x) : Inv (s.dispatch c t) := by
  have hlive : (s.tasks t).point ≠ .done := fun hdone => by
    rw [h.ended t hdone] at hfinished
    cases hfinished
  have hholds := h.waiting t hlt hlive hfinished
  have ho : Owner s (s.tasks t).user t := by
    obtain ⟨t', ho⟩ := h.owner _ hholds.lt hholds.used
    obtain rfl : t' = t := Option.some.inj (ho.task.symm.trans hholds.task)
    exact ho
  obtain ⟨space, pid, hspace, hpid, hdispatch⟩ := h.dispatched hholds ho
  set process := s.users (s.tasks t).user with hprocess
  rw [hdispatch]
  have hspace_old : ∀ x, space = some x → (s.cores c).space = some x ∨ process.space = some x := by
    intro x hx
    rcases hspace with ⟨heq, -⟩ | ⟨heq, -⟩
    · exact .inl (heq ▸ hx)
    · rw [heq, Option.or_eq_some_iff] at hx
      exact hx.elim .inr fun hx => .inl hx.2
  have hcore : ∀ c' < maxCores, ∀ x, (update s.cores c ⟨space, pid, some t⟩ c').space = some x →
        (s.cores c').space = some x ∨ c' = c ∧ process.space = some x := by
    intro c' _ x hx
    by_cases hcc : c' = c
    · subst hcc
      rw [update_self] at hx
      exact (hspace_old x hx).imp_right fun hx => ⟨rfl, hx⟩
    · rw [update_of_ne hcc] at hx
      exact .inl hx
  have hnotOn : ∀ c' < maxCores, (s.cores c').task ≠ some t := by
    intro c' hc' ht'
    rw [(h.onCore c' hc' t ht').running] at hrunning
    cases hrunning
  have htask : ∀ c' < maxCores, ∀ t', (update s.cores c ⟨space, pid, some t⟩ c').task = some t' →
      c' = c ∧ t' = t ∨ c' ≠ c ∧ t' ≠ t ∧ (s.cores c').task = some t' := by
    intro c' hc' t' ht'
    by_cases hcc : c' = c
    · subst hcc
      rw [update_self] at ht'
      exact .inl ⟨rfl, (Option.some.inj ht').symm⟩
    · rw [update_of_ne hcc] at ht'
      exact .inr ⟨hcc, fun heq => hnotOn c' hc' (heq ▸ ht'), ht'⟩
  have hpoint : ∀ t', (update s.tasks t
      { s.tasks t with running := true, processPid := pid } t').point = (s.tasks t').point := by
    intro t'
    by_cases htt : t' = t
    · subst htt
      simp
    · simp [htt]
  have huser : ∀ t', (update s.tasks t
      { s.tasks t with running := true, processPid := pid } t').user = (s.tasks t').user := by
    intro t'
    by_cases htt : t' = t
    · subst htt
      simp
    · simp [htt]
  have hfin : ∀ t', (update s.tasks t
      { s.tasks t with running := true, processPid := pid } t').finished = (s.tasks t').finished := by
    intro t'
    by_cases htt : t' = t
    · subst htt
      simp
    · simp [htt]
  refine
    { range := h.range, distinct := h.distinct, unattached := h.unattached
      owner := fun u hu hused => ?_, waiting := fun t' hlt' hlive' hfinished' => ?_
      ended := fun t' hdone => ?_, attach := fun i hi hused t' hit => ?_
      onCore := fun c' hc' t' ht' => ?_, single := ?_
      bound := h.bound, unique := h.unique, coreBound := ?_, safe := h.safe }
  · obtain ⟨t', ho'⟩ := h.owner u hu hused
    exact ⟨t', ho'.congr rfl (huser t') (hpoint t') le_rfl
      fun i _ hiused hit _ => ⟨hiused, rfl, hit⟩⟩
  · rw [hpoint] at hlive'
    rw [hfin] at hfinished'
    exact (h.waiting t' hlt' hlive' hfinished').congr (huser t') rfl
  · rw [hpoint] at hdone
    rw [hfin]
    exact h.ended t' hdone
  · obtain ⟨hlt', hpos, hholds'⟩ := h.attach i hi hused t' hit
    refine ⟨hlt', hpos, fun hlive' => ?_⟩
    rw [hpoint] at hlive'
    refine ⟨(hholds' hlive').1.congr (huser t') rfl, ?_⟩
    rw [huser]
    exact (hholds' hlive').2
  · rcases htask c' hc' t' ht' with ⟨rfl, rfl⟩ | ⟨hcc, htt, ht'⟩
    · refine ⟨hlt, ?_, ?_, hholds.congr (huser _) rfl, fun _ _ => ?_, ?_, ?_, ?_⟩
      · rw [hpoint]
        exact hlive
      · simp
      · simpa using hpid
      · rw [hpoint, huser]
        intro hgone x hx
        obtain ⟨hzero, hne⟩ := haway hgone x hx
        simp only [Machine.setCore_cores, update_self]
        rcases hspace with ⟨heq, -⟩ | ⟨-, hnonzero⟩
        · rwa [heq]
        · exact absurd hzero hnonzero
      · rw [hpoint, huser]
        intro hentered x hx
        obtain ⟨y, hy⟩ := Option.isSome_iff_exists.1
          (ho.loaded (hentered.elim (fun hp => .inr (.inl hp)) fun hp => .inr (.inr (.inl hp))))
        have hcontext := ho.entered hentered
        simp only [Machine.setCore_cores, update_self] at hx
        rcases hspace with ⟨-, hzero⟩ | ⟨heq, -⟩
        · have hpos := ho.pid
          have hctx : process.contextPid = process.pid := hcontext
          rw [hprocess] at hctx hzero
          omega
        · rw [heq, hprocess, hy, Option.some_or] at hx
          exact hy.trans hx
      · rw [huser]
        intro x hx c'' hc'' hne hx'
        simp only [Machine.setCore_cores, update_of_ne hne] at hx'
        exact hapart x hx c'' hc'' hne hx'
    · have hon := h.onCore c' hc' t' ht'
      have hslots : (s.tasks t').user ≠ (s.tasks t).user := by
        intro heq
        have htask' := hon.holds.task
        rw [heq, hholds.task] at htask'
        exact htt (Option.some.inj htask').symm
      refine hon.congr (update_of_ne htt ..) rfl (update_of_ne hcc ..) le_rfl
        fun x hx c'' hc'' hne hx' => ?_
      rcases hcore c'' hc'' x hx' with hold | ⟨-, hmine⟩
      · exact hon.apart x hx c'' hc'' hne hold
      · exact hslots (h.unique _ hon.holds.lt _ hholds.lt hon.holds.used hholds.used x hx hmine)
  · intro c₁ hc₁ c₂ hc₂ t' h₁ h₂
    rcases htask c₁ hc₁ t' h₁ with ⟨rfl, rfl⟩ | ⟨-, hne, h₁⟩ <;>
      rcases htask c₂ hc₂ t' h₂ with ⟨rfl, heq⟩ | ⟨-, hne', h₂⟩
    · rfl
    · exact absurd rfl hne'
    · exact absurd heq hne
    · exact h.single c₁ hc₁ c₂ hc₂ t' h₁ h₂
  · intro c' hc' x hx
    rcases hcore c' hc' x hx with hold | ⟨-, hmine⟩
    · exact h.coreBound c' hc' x hold
    · exact h.bound _ hholds.lt hholds.used x hmine

/-! ## The end of a task -/

/-- A slot is given back, and the task that held it will not run any more. -/
theorem freeSlot (h : Inv s) (ho : Owner s u t) {process : UserProcess}
    (hunused : process.used = false)
    {tasks : Nat → Task} (hother : ∀ t', t' ≠ t → tasks t' = s.tasks t')
    (huser : (tasks t).user = (s.tasks t).user)
    (hover : (tasks t).point = .done ∨ (tasks t).finished = true)
    (hended : (tasks t).point = .done → (tasks t).finished = true)
    (hoff : ∀ c' < maxCores, (s.cores c').task ≠ some t) {kernel : KernelState}
    {attached : Nat → Option Nat} (hrange : InRange kernel.nextPid) (hdistinct : Distinct kernel)
    (hrecords : ∀ i < maxProcesses, (kernel.processes i).used = true →
      (s.kernel.processes i).used = true ∧ (kernel.processes i).pid = (s.kernel.processes i).pid ∧
        attached i = s.attached i)
    (hkept : ∀ i < maxProcesses, (s.kernel.processes i).used = true → s.attached i ≠ some t →
      (kernel.processes i).used = true ∧ (kernel.processes i).pid = (s.kernel.processes i).pid ∧
        attached i = s.attached i)
    (hattached : ∀ i < maxProcesses, (kernel.processes i).used = false → attached i = none)
    (hgone : (tasks t).point = .done ∨ ∀ i < maxProcesses, (kernel.processes i).used = true →
      s.attached i ≠ some t)
    {log : List Event} (hsafe : ∀ e ∈ log, e.Safe) :
    Inv { s.setUser u process with tasks, kernel, attached, log } := by
  have hused : ∀ u', (update s.users u process u').used = true →
      u' ≠ u ∧ (s.users u').used = true := by
    intro u' hu'
    by_cases heq : u' = u
    · subst heq
      rw [update_self, hunused] at hu'
      cases hu'
    · exact ⟨heq, by rwa [update_of_ne heq] at hu'⟩
  have hholds : ∀ t', t' ≠ t → Holds s t' →
      Holds { s.setUser u process with tasks, kernel, attached, log } t' := by
    intro t' htt hh
    refine hh.congr (by rw [← hother t' htt]) (update_of_ne ?_ ..)
    rintro heq
    have htask := hh.task
    rw [heq, ho.task] at htask
    exact htt (Option.some.inj htask).symm
  refine
    { range := hrange, distinct := hdistinct, unattached := hattached
      owner := fun u' hu' hu'used => ?_, waiting := fun t' hlt hlive hfinished => ?_
      ended := fun t' hdone => ?_, attach := fun i hi hiused t' hit => ?_
      onCore := fun c' hc' t' ht' => ?_, single := h.single, bound := fun u' hu' hu'used x hx => ?_
      unique := fun u₁ hu₁ u₂ hu₂ hused₁ hused₂ x hx₁ hx₂ => ?_
      coreBound := h.coreBound, safe := hsafe }
  · obtain ⟨hne, hold⟩ := hused u' hu'used
    obtain ⟨t', ho'⟩ := h.owner u' hu' hold
    have htt : t' ≠ t := by
      rintro rfl
      exact hne (ho'.user.symm.trans ho.user)
    refine ⟨t', ho'.congr (update_of_ne hne ..) (by rw [← hother t' htt])
      (by rw [← hother t' htt]) le_rfl fun i hi hiused hit _ => ?_⟩
    have hnot : s.attached i ≠ some t := fun heq => htt (Option.some.inj (hit.symm.trans heq))
    obtain ⟨hiused', hipid', hit'⟩ := hkept i hi hiused hnot
    exact ⟨hiused', hipid', hit'.trans hit⟩
  · by_cases htt : t' = t
    · subst htt
      rcases hover with hdone | hfin
      · exact absurd hdone hlive
      · exact absurd (hfin.symm.trans hfinished) (by decide)
    · dsimp only at hlive hfinished
      rw [hother t' htt] at hlive hfinished
      exact hholds t' htt (h.waiting t' hlt hlive hfinished)
  · by_cases htt : t' = t
    · subst htt
      exact hended hdone
    · dsimp only at hdone ⊢
      rw [hother t' htt] at hdone ⊢
      exact h.ended t' hdone
  · obtain ⟨hiold, hipid, hieq⟩ := hrecords i hi hiused
    have hit' : s.attached i = some t' := hieq ▸ hit
    obtain ⟨hlt, hpos, hlives⟩ := h.attach i hi hiold t' hit'
    refine ⟨hlt, by rw [hipid]; exact hpos, fun hlive => ?_⟩
    by_cases htt : t' = t
    · subst htt
      rcases hgone with hdone | hnone
      · exact absurd hdone hlive
      · exact absurd hit' (hnone i hi hiused)
    · dsimp only at hlive
      rw [hother t' htt] at hlive
      obtain ⟨hh, hpid⟩ := hlives hlive
      refine ⟨hholds t' htt hh, ?_⟩
      have hne : (s.tasks t').user ≠ u := by
        rintro heq
        have htask := hh.task
        rw [heq, ho.task] at htask
        exact htt (Option.some.inj htask).symm
      dsimp only
      rw [hother t' htt, hipid, ← hpid, Machine.setUser_users, update_of_ne hne]
  · have htt : t' ≠ t := by
      rintro rfl
      exact hoff c' hc' ht'
    have hon := h.onCore c' hc' t' ht'
    refine hon.congr (hother t' htt) (update_of_ne ?_ ..) rfl le_rfl hon.apart
    intro heq
    have htask := hon.holds.task
    rw [heq, ho.task] at htask
    exact htt (Option.some.inj htask).symm
  · obtain ⟨hne, hold⟩ := hused u' hu'used
    simp only [Machine.setUser_users, update_of_ne hne] at hx
    exact h.bound u' hu' hold x hx
  · obtain ⟨hne₁, hold₁⟩ := hused u₁ hused₁
    obtain ⟨hne₂, hold₂⟩ := hused u₂ hused₂
    simp only [Machine.setUser_users, update_of_ne hne₁] at hx₁
    simp only [Machine.setUser_users, update_of_ne hne₂] at hx₂
    exact h.unique u₁ hu₁ u₂ hu₂ hold₁ hold₂ x hx₁ hx₂

end Inv

end RadKernel.User
