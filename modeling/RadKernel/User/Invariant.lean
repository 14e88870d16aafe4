import RadKernel.Process.Records
import RadKernel.User.Model

/-!
# Tasks and the slots they hold

A task that can still run holds its slot, and a slot that is in use is held by one task, whose process
is in the process table. What a core has loaded is the address space of its own task, unless the core
is between two processes.
-/

namespace RadKernel.User

open Kernel Fd Process

variable {s s' : Machine} {c c' t t' u x : Nat}

/-! ## Events and conditions -/

def Event.Safe : Event → Prop
  | .destroyed space loaded => ∀ c < maxCores, loaded c ≠ some space
  | .cleared task owner | .stateSet task owner => owner = none ∨ owner = some task

/-- The core is in user mode or in a system call of its task, or comes out of it. -/
def Machine.InProcess (s : Machine) (c : Nat) : Prop :=
  ∃ t ∈ (s.cores c).task, ((s.tasks t).point = .user ∨ (s.tasks t).point = .returned)

/-- The points at which the kernel address space is active and the process still has its own. -/
def Point.Away (point : Point) : Prop := point = .back ∨ point = .looping ∨ point = .leaving

instance (point : Point) : Decidable point.Away :=
  inferInstanceAs (Decidable (_ ∨ _))

/-- The task of a process record is over, and no core that is between two processes has its address
space loaded. -/
def Machine.Unused (s : Machine) (i : Nat) : Prop :=
  ∀ t ∈ s.attached i, ((s.tasks t).point = .done ∨ (s.tasks t).finished = true) ∧
    (s.tasks t).running = false ∧ ∀ x ∈ (s.users (s.tasks t).user).space, ∀ c < maxCores,
      ¬s.InProcess c → (s.cores c).space ≠ some x

/-- The address space is going to be used again. -/
def NeedsSpace (point : Point) (process : UserProcess) : Prop :=
  point = .start ∨ point = .user ∨ point = .returned ∨
    point = .looping ∧ process.execPending = true ∧ process.exiting = false

/-! ## The invariant -/

/-- The slot belongs to the task, and to the process record with its pid. -/
structure Owner (s : Machine) (u t : Nat) : Prop where
  task : (s.users u).task = some t
  lt : t < s.taskCount
  user : (s.tasks t).user = u
  live : (s.tasks t).point ≠ .done
  pid : 0 < (s.users u).pid
  record : ∃ i < maxProcesses, (s.kernel.processes i).used = true ∧
    (s.kernel.processes i).pid = (s.users u).pid ∧ s.attached i = some t
  context : (s.users u).contextPid = 0 ∨ (s.users u).contextPid = (s.users u).pid
  entered : (s.tasks t).point = .user ∨ (s.tasks t).point = .returned →
    (s.users u).contextPid = (s.users u).pid
  loaded : NeedsSpace (s.tasks t).point (s.users u) → (s.users u).space.isSome = true
  gone : (s.tasks t).point = .reloading → (s.users u).space = none

structure Holds (s : Machine) (t : Nat) : Prop where
  lt : (s.tasks t).user < maxUserProcesses
  used : (s.users (s.tasks t).user).used = true
  task : (s.users (s.tasks t).user).task = some t

/-- What holds of a task that is on a core. -/
structure OnCore (s : Machine) (c t : Nat) : Prop where
  lt : t < s.taskCount
  live : (s.tasks t).point ≠ .done
  running : (s.tasks t).running = true
  holds : Holds s t
  pid : (s.tasks t).point ≠ .start → (s.tasks t).point ≠ .clearing →
    (s.cores c).pid = 0 ∨ (s.cores c).pid = (s.users (s.tasks t).user).pid
  /-- The core does not have the address space loaded that the task is about to destroy. -/
  away : (s.tasks t).point.Away → ∀ x, (s.users (s.tasks t).user).space = some x →
    (s.cores c).space ≠ some x
  own : (s.tasks t).point = .user ∨ (s.tasks t).point = .returned → ∀ x, (s.cores c).space = some x →
    (s.users (s.tasks t).user).space = some x
  apart : ∀ x, (s.users (s.tasks t).user).space = some x → ∀ c' < maxCores, c' ≠ c →
    (s.cores c').space ≠ some x

/-- The invariant. -/
structure Inv (s : Machine) : Prop where
  range : InRange s.kernel.nextPid
  distinct : Distinct s.kernel
  owner : ∀ u < maxUserProcesses, (s.users u).used = true → ∃ t, Owner s u t
  waiting : ∀ t < s.taskCount, (s.tasks t).point ≠ .done → (s.tasks t).finished = false → Holds s t
  ended : ∀ t, (s.tasks t).point = .done → (s.tasks t).finished = true
  attach : ∀ i < maxProcesses, (s.kernel.processes i).used = true → ∀ t, s.attached i = some t →
    t < s.taskCount ∧ 0 < (s.kernel.processes i).pid ∧ ((s.tasks t).point ≠ .done → Holds s t ∧
      (s.users (s.tasks t).user).pid = (s.kernel.processes i).pid)
  unattached : ∀ i < maxProcesses, (s.kernel.processes i).used = false → s.attached i = none
  onCore : ∀ c < maxCores, ∀ t, (s.cores c).task = some t → OnCore s c t
  single : ∀ c < maxCores, ∀ c' < maxCores, ∀ t, (s.cores c).task = some t →
    (s.cores c').task = some t → c = c'
  bound : ∀ u < maxUserProcesses, (s.users u).used = true → ∀ x, (s.users u).space = some x →
    x < s.spaceCount
  unique : ∀ u < maxUserProcesses, ∀ u' < maxUserProcesses, (s.users u).used = true →
    (s.users u').used = true → ∀ x, (s.users u).space = some x → (s.users u').space = some x → u = u'
  coreBound : ∀ c < maxCores, ∀ x, (s.cores c).space = some x → x < s.spaceCount
  safe : ∀ e ∈ s.log, e.Safe

namespace Inv

/-- A slot in use is the only one with its pid. -/
theorem pid_unique (h : Inv s) {u' : Nat} (hu : u < maxUserProcesses) (hu' : u' < maxUserProcesses)
    (hused : (s.users u).used = true) (hused' : (s.users u').used = true)
    (hpid : (s.users u).pid = (s.users u').pid) : u = u' := by
  obtain ⟨t, ho⟩ := h.owner u hu hused
  obtain ⟨t', ho'⟩ := h.owner u' hu' hused'
  obtain ⟨i, hi, hiused, hipid, hit⟩ := ho.record
  obtain ⟨j, hj, hjused, hjpid, hjt⟩ := ho'.record
  have hij : i = j := h.distinct i hi j hj hiused hjused (hipid.trans (hpid.trans hjpid.symm))
  subst hij
  have htt : t = t' := Option.some.inj (hit.symm.trans hjt)
  subst htt
  exact ho.user.symm.trans ho'.user

theorem findUserProcess (h : Inv s) (hu : u < maxUserProcesses) (hused : (s.users u).used = true) :
    s.findUserProcess (s.users u).pid = some u := by
  cases hfind : s.findUserProcess (s.users u).pid with
  | none =>
    have hnone := List.find?_eq_none.1 hfind u (List.mem_range.2 hu)
    simp [hused] at hnone
  | some u' =>
    have hmem := List.mem_range.1 (List.mem_of_find?_eq_some hfind)
    have hp := List.find?_some hfind
    simp only [decide_eq_true_eq] at hp
    exact congrArg some (h.pid_unique hmem hu hp.1 hused hp.2)

theorem findUserProcess_zero (h : Inv s) : s.findUserProcess 0 = none := by
  refine List.find?_eq_none.2 fun u hu => ?_
  simp only [decide_eq_true_eq, not_and]
  intro hused hpid
  obtain ⟨t, ho⟩ := h.owner u (List.mem_range.1 hu) hused
  have hpos := ho.pid
  omega

theorem findUserProcess_some {pid : Int} (h : s.findUserProcess pid = some u) :
    u < maxUserProcesses ∧ (s.users u).used = true ∧ (s.users u).pid = pid := by
  have hp := List.find?_some h
  simp only [decide_eq_true_eq] at hp
  exact ⟨List.mem_range.1 (List.mem_of_find?_eq_some h), hp⟩

/-- The record with the pid of a slot is that of its task. -/
theorem writes_owner (h : Inv s) (ho : Owner s u t) : s.writes (s.users u).pid = some t := by
  obtain ⟨i, hi, hused, hpid, hit⟩ := ho.record
  unfold Machine.writes
  cases hfind : findProcess s.kernel (s.users u).pid with
  | none => exact absurd hpid (findProcess_none hfind hi hused)
  | some j =>
    obtain ⟨hj, hjused, hjpid⟩ := findProcess_some hfind
    rw [h.distinct j hj i hi hjused hused (hjpid.trans hpid.symm)]
    exact hit

theorem writes_zero (h : Inv s) : s.writes 0 = none := by
  unfold Machine.writes
  cases hfind : findProcess s.kernel 0 with
  | none => rfl
  | some i =>
    obtain ⟨hi, hused, hpid⟩ := findProcess_some hfind
    by_contra hne
    obtain ⟨t, hit⟩ := Option.ne_none_iff_exists'.1 hne
    have hpos := (h.attach i hi hused t hit).2.1
    omega

theorem ownerOnCore (h : Inv s) (hc : c < maxCores) (ht : (s.cores c).task = some t) :
    Owner s (s.tasks t).user t := by
  have hon := h.onCore c hc t ht
  obtain ⟨t', ho⟩ := h.owner _ hon.holds.lt hon.holds.used
  obtain rfl : t' = t := Option.some.inj (ho.task.symm.trans hon.holds.task)
  exact ho

end Inv

/-! ## Steps of a task in its own slot -/

/-- Slot, record and core of the task on core `c` stay its own, and nothing is done to others. -/
structure Stays (s s' : Machine) (c t : Nat) : Prop where
  records : SameRecords s.kernel s'.kernel
  attached : s'.attached = s.attached
  taskCount : s'.taskCount = s.taskCount
  spaceCount : s.spaceCount ≤ s'.spaceCount
  otherUsers : ∀ u, u ≠ (s.tasks t).user → s'.users u = s.users u
  otherTasks : ∀ t', t' ≠ t → s'.tasks t' = s.tasks t'
  otherCores : ∀ c', c' ≠ c → s'.cores c' = s.cores c'
  user : (s'.tasks t).user = (s.tasks t).user
  running : (s'.tasks t).running = (s.tasks t).running
  finished : (s'.tasks t).finished = (s.tasks t).finished
  used : (s'.users (s.tasks t).user).used = (s.users (s.tasks t).user).used
  pid : (s'.users (s.tasks t).user).pid = (s.users (s.tasks t).user).pid
  task : (s'.users (s.tasks t).user).task = (s.users (s.tasks t).user).task
  core : (s'.cores c).task = (s.cores c).task

/-- The task of core `c` changes its slot and what the core has loaded. -/
structure OwnStep (s s' : Machine) (c t : Nat) : Prop extends Stays s s' c t where
  live : (s'.tasks t).point ≠ .done
  context : (s'.users (s.tasks t).user).contextPid = 0 ∨
    (s'.users (s.tasks t).user).contextPid = (s.users (s.tasks t).user).pid
  entered : (s'.tasks t).point = .user ∨ (s'.tasks t).point = .returned →
    (s'.users (s.tasks t).user).contextPid = (s.users (s.tasks t).user).pid
  loaded : NeedsSpace (s'.tasks t).point (s'.users (s.tasks t).user) →
    (s'.users (s.tasks t).user).space.isSome = true
  gone : (s'.tasks t).point = .reloading → (s'.users (s.tasks t).user).space = none
  space : (s'.users (s.tasks t).user).space = (s.users (s.tasks t).user).space ∨
    (s'.users (s.tasks t).user).space = none ∨
    (s'.users (s.tasks t).user).space = some s.spaceCount ∧ s.spaceCount < s'.spaceCount
  coreSpace : (s'.cores c).space = (s.cores c).space ∨ (s'.cores c).space = none ∨
    (s'.cores c).space = (s'.users (s.tasks t).user).space
  corePid : (s'.tasks t).point ≠ .start → (s'.tasks t).point ≠ .clearing →
    (s'.cores c).pid = 0 ∨ (s'.cores c).pid = (s.users (s.tasks t).user).pid
  away : (s'.tasks t).point.Away → ∀ x, (s'.users (s.tasks t).user).space = some x →
    (s'.cores c).space ≠ some x
  own : (s'.tasks t).point = .user ∨ (s'.tasks t).point = .returned → ∀ x,
    (s'.cores c).space = some x → (s'.users (s.tasks t).user).space = some x
  safe : ∀ e ∈ s'.log, e.Safe

namespace OwnStep

section
variable (h : OwnStep s s' c t)
include h

theorem used_eq (u : Nat) : (s'.users u).used = (s.users u).used := by
  by_cases hu : u = (s.tasks t).user
  · rw [hu, h.used]
  · rw [h.otherUsers u hu]

theorem pid_eq (u : Nat) : (s'.users u).pid = (s.users u).pid := by
  by_cases hu : u = (s.tasks t).user
  · rw [hu, h.pid]
  · rw [h.otherUsers u hu]

theorem task_eq (u : Nat) : (s'.users u).task = (s.users u).task := by
  by_cases hu : u = (s.tasks t).user
  · rw [hu, h.task]
  · rw [h.otherUsers u hu]

theorem user_eq (t' : Nat) : (s'.tasks t').user = (s.tasks t').user := by
  by_cases ht : t' = t
  · rw [ht, h.user]
  · rw [h.otherTasks t' ht]

theorem coreTask_eq (c' : Nat) : (s'.cores c').task = (s.cores c').task := by
  by_cases hc : c' = c
  · rw [hc, h.core]
  · rw [h.otherCores c' hc]

theorem holds (hh : Holds s t') : Holds s' t' where
  lt := by
    rw [h.user_eq]
    exact hh.lt
  used := by
    rw [h.user_eq, h.used_eq]
    exact hh.used
  task := by
    rw [h.user_eq, h.task_eq]
    exact hh.task

/-- The address space that a slot has after the step it had before, or it is a new one. -/
theorem space_old (hx : (s'.users u).space = some x) :
    (s.users u).space = some x ∨ u = (s.tasks t).user ∧ x = s.spaceCount ∧ x < s'.spaceCount := by
  by_cases hu : u = (s.tasks t).user
  · subst hu
    rcases h.space with heq | heq | ⟨heq, hlt⟩
    · exact .inl (heq ▸ hx)
    · rw [heq] at hx
      cases hx
    · rw [heq] at hx
      cases hx
      exact .inr ⟨rfl, rfl, hlt⟩
  · rw [h.otherUsers u hu] at hx
    exact .inl hx

theorem coreSpace_old (hx : (s'.cores c').space = some x) :
    (s.cores c').space = some x ∨ c' = c ∧ (s'.users (s.tasks t).user).space = some x := by
  by_cases hc : c' = c
  · subst hc
    rcases h.coreSpace with heq | heq | heq
    · exact .inl (heq ▸ hx)
    · rw [heq] at hx
      cases hx
    · exact .inr ⟨rfl, heq ▸ hx⟩
  · rw [h.otherCores c' hc] at hx
    exact .inl hx

end

end OwnStep

namespace Inv

theorem own (h : Inv s) (hc : c < maxCores) (ht : (s.cores c).task = some t)
    (hs : OwnStep s s' c t) : Inv s' := by
  have hon := h.onCore c hc t ht
  have howner := h.ownerOnCore hc ht
  have hbound : ∀ u < maxUserProcesses, (s.users u).used = true → ∀ x, (s'.users u).space = some x →
      x < s'.spaceCount := by
    intro u hu hused x hx
    rcases hs.space_old hx with hold | ⟨-, -, hlt⟩
    · exact Nat.lt_of_lt_of_le (h.bound u hu hused x hold) hs.spaceCount
    · exact hlt
  -- another slot does not have the address space that this one has now
  have hforeign : ∀ u < maxUserProcesses, (s.users u).used = true → u ≠ (s.tasks t).user → ∀ x,
      (s'.users u).space = some x → (s'.users (s.tasks t).user).space ≠ some x := by
    intro u hu hused hne x hx hx'
    have hold : (s.users u).space = some x := by rwa [hs.otherUsers u hne] at hx
    rcases hs.space_old hx' with hold' | ⟨-, rfl, -⟩
    · exact hne (h.unique u hu _ hon.holds.lt hused hon.holds.used x hold hold')
    · exact absurd (h.bound u hu hused _ hold) (Nat.lt_irrefl _)
  refine
    { range := hs.records.nextPid h.range
      distinct := hs.records.distinct h.distinct
      owner := ?_, waiting := ?_, ended := ?_, attach := ?_, unattached := ?_, onCore := ?_, single := ?_
      bound := ?_, unique := ?_, coreBound := ?_, safe := hs.safe }
  · intro u hu hused
    rw [hs.used_eq] at hused
    obtain ⟨t', ho⟩ := h.owner u hu hused
    have hrecord : ∃ i < maxProcesses, (s'.kernel.processes i).used = true ∧
        (s'.kernel.processes i).pid = (s'.users u).pid ∧ s'.attached i = some t' := by
      obtain ⟨i, hi, hiused, hipid, hit⟩ := ho.record
      refine ⟨i, hi, ?_, ?_, hs.attached ▸ hit⟩
      · rw [(hs.records.record i).used, hiused]
      · rw [(hs.records.record i).pid, hs.pid_eq, hipid]
    by_cases htt : t' = t
    · subst htt
      obtain rfl := ho.user
      refine ⟨t', ?_, hs.taskCount ▸ ho.lt, hs.user, hs.live, ?_, hrecord, ?_, ?_, hs.loaded, hs.gone⟩
      · rw [hs.task, ho.task]
      · rw [hs.pid]
        exact ho.pid
      · rw [hs.pid]
        exact hs.context
      · rw [hs.pid]
        exact hs.entered
    · have hne : u ≠ (s.tasks t).user := by
        rintro rfl
        exact htt (Option.some.inj (ho.task.symm.trans howner.task))
      have husers := hs.otherUsers u hne
      have htasks := hs.otherTasks t' htt
      refine ⟨t', ?_, hs.taskCount ▸ ho.lt, ?_, ?_, ?_, hrecord, ?_, ?_, ?_, ?_⟩
      · rw [husers, ho.task]
      · rw [htasks, ho.user]
      · rw [htasks]
        exact ho.live
      · rw [husers]
        exact ho.pid
      · rw [husers]
        exact ho.context
      · rw [husers, htasks]
        exact ho.entered
      · rw [husers, htasks]
        exact ho.loaded
      · rw [husers, htasks]
        exact ho.gone
  · intro t' hlt hlive hfinished
    rw [hs.taskCount] at hlt
    refine hs.holds ?_
    by_cases htt : t' = t
    · exact htt ▸ hon.holds
    · rw [hs.otherTasks t' htt] at hlive hfinished
      exact h.waiting t' hlt hlive hfinished
  · intro t' hdone
    by_cases htt : t' = t
    · exact absurd (htt ▸ hdone) hs.live
    · rw [hs.otherTasks t' htt] at hdone ⊢
      exact h.ended t' hdone
  · intro i hi hused t' hit
    rw [(hs.records.record i).used] at hused
    rw [hs.attached] at hit
    obtain ⟨hlt, hpos, hholds⟩ := h.attach i hi hused t' hit
    refine ⟨hs.taskCount ▸ hlt, (hs.records.record i).pid ▸ hpos, fun hlive => ?_⟩
    have hlive' : (s.tasks t').point ≠ .done := by
      by_cases htt : t' = t
      · exact htt ▸ hon.live
      · rwa [hs.otherTasks t' htt] at hlive
    obtain ⟨hh, hpid⟩ := hholds hlive'
    refine ⟨hs.holds hh, ?_⟩
    rw [hs.user_eq, hs.pid_eq, (hs.records.record i).pid, hpid]
  · intro i hi hunused
    rw [(hs.records.record i).used] at hunused
    rw [hs.attached]
    exact h.unattached i hi hunused
  · intro c' hc' t' ht'
    rw [hs.coreTask_eq] at ht'
    by_cases hcc : c' = c
    · subst hcc
      obtain rfl : t' = t := Option.some.inj (ht'.symm.trans ht)
      refine ⟨hs.taskCount ▸ hon.lt, hs.live, ?_, hs.holds hon.holds, ?_, ?_, ?_, ?_⟩
      · rw [hs.running]
        exact hon.running
      · rw [hs.user_eq, hs.pid]
        exact hs.corePid
      · rw [hs.user_eq]
        exact hs.away
      · rw [hs.user_eq]
        exact hs.own
      · rw [hs.user_eq]
        intro x hx c'' hc'' hne hx'
        rw [hs.otherCores c'' hne] at hx'
        rcases hs.space_old hx with hold | ⟨-, rfl, -⟩
        · exact hon.apart x hold c'' hc'' hne hx'
        · exact absurd (h.coreBound c'' hc'' _ hx') (Nat.lt_irrefl _)
    · have htt : t' ≠ t := by
        rintro rfl
        exact hcc (h.single c' hc' c hc t' ht' ht)
      have hon' := h.onCore c' hc' t' ht'
      have hne : (s.tasks t').user ≠ (s.tasks t).user := by
        intro heq
        have htask := hon'.holds.task
        rw [heq, hon.holds.task] at htask
        exact htt (Option.some.inj htask).symm
      have htasks := hs.otherTasks t' htt
      have husers := hs.otherUsers _ hne
      have hcores := hs.otherCores c' hcc
      refine ⟨hs.taskCount ▸ hon'.lt, ?_, ?_, hs.holds hon'.holds, ?_, ?_, ?_, ?_⟩
      · rw [htasks]
        exact hon'.live
      · rw [htasks]
        exact hon'.running
      · rw [htasks, hcores, husers]
        exact hon'.pid
      · rw [htasks, hcores, husers]
        exact hon'.away
      · rw [htasks, hcores, husers]
        exact hon'.own
      · rw [htasks]
        intro x hx c'' hc'' hne' hx'
        rcases hs.coreSpace_old hx' with hold | ⟨-, hmine⟩
        · rw [husers] at hx
          exact hon'.apart x hx c'' hc'' hne' hold
        · exact hforeign _ hon'.holds.lt hon'.holds.used hne x hx hmine
  · intro c₁ hc₁ c₂ hc₂ t'
    rw [hs.coreTask_eq, hs.coreTask_eq]
    exact h.single c₁ hc₁ c₂ hc₂ t'
  · intro u hu hused
    rw [hs.used_eq] at hused
    exact hbound u hu hused
  · intro u hu u' hu' hused hused' x hx hx'
    rw [hs.used_eq] at hused hused'
    by_cases hut : u = (s.tasks t).user
    · by_contra hne
      subst hut
      exact hforeign u' hu' hused' (fun heq => hne heq.symm) x hx' hx
    · by_cases hut' : u' = (s.tasks t).user
      · subst hut'
        exact absurd hx' (hforeign u hu hused hut x hx)
      · rw [hs.otherUsers u hut] at hx
        rw [hs.otherUsers u' hut'] at hx'
        exact h.unique u hu u' hu' hused hused' x hx hx'
  · intro c' hc' x hx
    rcases hs.coreSpace_old hx with hold | ⟨-, hmine⟩
    · exact Nat.lt_of_lt_of_le (h.coreBound c' hc' x hold) hs.spaceCount
    · exact hbound _ hon.holds.lt hon.holds.used x hmine

end Inv

end RadKernel.User
