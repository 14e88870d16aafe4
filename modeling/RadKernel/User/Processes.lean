import RadKernel.User.Slots

/-!
# Processes that begin and end

A new process gets a record, a slot and a task at once. A process that ends gives them back in two
places: its task gives back the slot, and a wait of the parent the record and the slot.
-/

namespace RadKernel.User

open Kernel Fd Process Function

variable {s : Machine} {c t u i : Nat}

theorem Machine.reaped_eq (s : Machine) (pid : Int) :
    ∃ users log, s.reaped pid = { s with users, log } := by
  unfold reaped
  cases s.findUserProcess pid with
  | none => exact ⟨s.users, s.log, rfl⟩
  | some u =>
    obtain ⟨log, hlog⟩ := s.destroySpace_eq u
    dsimp only
    rw [hlog]
    exact ⟨_, log, rfl⟩

namespace Inv

/-! ## Records -/

variable {kernel : KernelState}

section
variable (h : Inv s)
include h

/-- The process records change without a process that begins or ends, and tasks are told to end. -/
theorem sameRecords (hkernel : SameRecords s.kernel kernel) (killed : Nat → Bool) :
    Inv { s with
      kernel
      tasks := fun t => { s.tasks t with finished := (s.tasks t).finished || killed t } } := by
  refine
    { range := hkernel.nextPid h.range, distinct := hkernel.distinct h.distinct
      owner := fun u hu hused => ?_, waiting := fun t hlt hlive hfinished => ?_
      ended := fun t hdone => ?_, attach := fun i hi hused t hit => ?_
      unattached := fun i hi hunused => ?_, onCore := fun c hc t ht => ?_, single := h.single
      bound := h.bound, unique := h.unique, coreBound := h.coreBound, safe := h.safe }
  · obtain ⟨t, ho⟩ := h.owner u hu hused
    refine ⟨t, ho.congr rfl rfl rfl le_rfl fun i _ hiused hit _ => ⟨?_, (hkernel.record i).pid, hit⟩⟩
    rw [(hkernel.record i).used, hiused]
  · have hfin : (s.tasks t).finished = false := (Bool.or_eq_false_iff.1 hfinished).1
    exact (h.waiting t hlt hlive hfin).congr rfl rfl
  · have hfin := h.ended t hdone
    simp [hfin]
  · rw [(hkernel.record i).used] at hused
    obtain ⟨hlt, hpos, hholds⟩ := h.attach i hi hused t hit
    rw [(hkernel.record i).pid]
    exact ⟨hlt, hpos, fun hlive => ⟨(hholds hlive).1.congr rfl rfl, (hholds hlive).2⟩⟩
  · rw [(hkernel.record i).used] at hunused
    exact h.unattached i hi hunused
  · have hon := h.onCore c hc t ht
    exact ⟨hon.lt, hon.live, hon.running, hon.holds.congr rfl rfl, hon.pid, hon.away, hon.own, hon.apart⟩

theorem kill (c : Nat) (pid signal : Int) : Inv (s.kill c pid signal) :=
  h.sameRecords (.kill s.kernel (s.cores c).pid pid signal) _

theorem withKernel (hkernel : SameRecords s.kernel kernel) : Inv { s with kernel } := by
  have hsame := h.sameRecords hkernel fun _ => false
  simpa only [Bool.or_false] using hsame

/-! ## A new process -/

/-- A process begins in a slot that was free. -/
theorem newProcess (hu : u < maxUserProcesses) (hfree : (s.users u).used = false)
    {pid : Int} (hcreated : Created s.kernel kernel i pid) (hpos : 0 < pid)
    (hrange : InRange kernel.nextPid) {process : UserProcess}
    (hcontext : process.contextPid = 0 ∨ process.contextPid = pid) :
    Inv (s.newProcess u pid kernel process) := by
  have hfind := hcreated.findProcess h.distinct
  have hne : ∀ t, Holds s t → (s.tasks t).user ≠ u := fun t hh heq => by
    rw [← heq, hh.used] at hfree
    cases hfree
  have hslot : ∀ u', u' ≠ u → (s.newProcess u pid kernel process).users u' = s.users u' :=
    fun u' hu' => update_of_ne hu' ..
  have htask : ∀ t < s.taskCount, (s.newProcess u pid kernel process).tasks t = s.tasks t :=
    fun t ht => update_of_ne ht.ne ..
  have hnewSlot : (s.newProcess u pid kernel process).users u = { process with
      used := true, pid, space := some s.spaceCount, task := some s.taskCount } :=
    update_self ..
  have hnewTask : (s.newProcess u pid kernel process).tasks s.taskCount =
      { user := u, processPid := pid } :=
    update_self ..
  have hattached : ∀ j, (s.newProcess u pid kernel process).attached j =
      if j = i then some s.taskCount else s.attached j := by
    intro j
    change (if findProcess kernel pid = some j then some s.taskCount else s.attached j) = _
    simp only [hfind, Option.some.injEq, eq_comm]
  have hholds : ∀ t < s.taskCount, Holds s t → Holds (s.newProcess u pid kernel process) t :=
    fun t ht hh => hh.congr (by rw [htask t ht]) (hslot _ (hne t hh))
  have hnewHolds : Holds (s.newProcess u pid kernel process) s.taskCount := by
    refine ⟨?_, ?_, ?_⟩ <;> rw [hnewTask]
    · exact hu
    · rw [hnewSlot]
    · rw [hnewSlot]
  -- a slot in use is the new one, or it was in use before
  have hused : ∀ u', ((s.newProcess u pid kernel process).users u').used = true →
      u' = u ∨ u' ≠ u ∧ (s.users u').used = true := by
    intro u' hu'
    by_cases heq : u' = u
    · exact .inl heq
    · exact .inr ⟨heq, by rwa [hslot u' heq] at hu'⟩
  refine
    { range := hrange, distinct := hcreated.distinct h.distinct
      owner := fun u' hu' hu'used => ?_, waiting := fun t hlt hlive hfinished => ?_
      ended := fun t hdone => ?_, attach := fun j hj hjused t hjt => ?_
      unattached := fun j hj hunused => ?_, onCore := fun c hc t ht => ?_, single := h.single
      bound := fun u' hu' hu'used x hx => ?_, unique := fun u₁ hu₁ u₂ hu₂ hused₁ hused₂ x hx₁ hx₂ => ?_
      coreBound := fun c hc x hx => Nat.lt_succ_of_lt (h.coreBound c hc x hx), safe := h.safe }
  · rcases hused u' hu'used with rfl | ⟨hu'ne, hold⟩
    · refine ⟨s.taskCount, by rw [hnewSlot], Nat.lt_succ_self _, by rw [hnewTask], ?_, ?_, ?_, ?_, ?_,
        ?_, ?_⟩
      · rw [hnewTask]
        simp
      · rw [hnewSlot]
        exact hpos
      · refine ⟨i, hcreated.lt, hcreated.used, hcreated.pid.trans ?_, ?_⟩
        · rw [hnewSlot]
        · rw [hattached, if_pos rfl]
      · rw [hnewSlot]
        exact hcontext
      · rw [hnewTask]
        simp
      · intro _
        rw [hnewSlot]
        rfl
      · rw [hnewTask]
        simp
    · obtain ⟨t, ho⟩ := h.owner u' hu' hold
      refine ⟨t, ho.congr (hslot u' hu'ne) (by rw [htask t ho.lt]) (by rw [htask t ho.lt])
        (Nat.le_succ _) fun j _ hjused hjt _ => ?_⟩
      have hji : j ≠ i := by
        rintro rfl
        exact absurd (hjused.symm.trans hcreated.free) (by decide)
      refine ⟨?_, ?_, ?_⟩
      · exact (congrArg _ (hcreated.other j hji)).trans hjused
      · exact congrArg _ (hcreated.other j hji)
      · rw [hattached, if_neg hji, hjt]
  · rcases Nat.lt_succ_iff_lt_or_eq.1 hlt with hold | rfl
    · rw [htask t hold] at hlive hfinished
      exact hholds t hold (h.waiting t hold hlive hfinished)
    · exact hnewHolds
  · by_cases htt : t = s.taskCount
    · rw [htt, hnewTask] at hdone
      cases hdone
    · have hold : (s.newProcess u pid kernel process).tasks t = s.tasks t :=
        update_of_ne htt ..
      rw [hold] at hdone ⊢
      exact h.ended t hdone
  · rw [hattached] at hjt
    by_cases hji : j = i
    · rw [if_pos hji] at hjt
      cases hjt
      subst hji
      refine ⟨Nat.lt_succ_self _, hcreated.pid ▸ hpos, fun _ => ⟨hnewHolds, ?_⟩⟩
      rw [hnewTask, hnewSlot]
      exact hcreated.pid.symm
    · rw [if_neg hji] at hjt
      have hjsame : (s.newProcess u pid kernel process).kernel.processes j = s.kernel.processes j :=
        hcreated.other j hji
      rw [hjsame] at hjused ⊢
      obtain ⟨hlt, hjpos, hlives⟩ := h.attach j hj hjused t hjt
      refine ⟨Nat.lt_succ_of_lt hlt, hjpos, fun hlive => ?_⟩
      rw [htask t hlt] at hlive ⊢
      obtain ⟨hh, hpid⟩ := hlives hlive
      refine ⟨hholds t hlt hh, ?_⟩
      rw [hslot _ (hne t hh), hpid]
  · have hji : j ≠ i := by
      rintro rfl
      exact absurd (hcreated.used.symm.trans hunused) (by decide)
    have hjsame : (s.newProcess u pid kernel process).kernel.processes j = s.kernel.processes j :=
      hcreated.other j hji
    rw [hattached, if_neg hji]
    rw [hjsame] at hunused
    exact h.unattached j hj hunused
  · have hon := h.onCore c hc t ht
    exact hon.congr (htask t hon.lt) (hslot _ (hne t hon.holds)) rfl (Nat.le_succ _) hon.apart
  · rcases hused u' hu'used with rfl | ⟨hu'ne, hold⟩
    · rw [hnewSlot] at hx
      cases hx
      exact Nat.lt_succ_self _
    · rw [hslot u' hu'ne] at hx
      exact Nat.lt_succ_of_lt (h.bound u' hu' hold x hx)
  · rcases hused u₁ hused₁ with rfl | ⟨hne₁, hold₁⟩ <;> rcases hused u₂ hused₂ with rfl | ⟨hne₂, hold₂⟩
    · rfl
    · rw [hnewSlot] at hx₁
      rw [hslot u₂ hne₂] at hx₂
      cases hx₁
      exact absurd (h.bound u₂ hu₂ hold₂ _ hx₂) (Nat.lt_irrefl _)
    · rw [hnewSlot] at hx₂
      rw [hslot u₁ hne₁] at hx₁
      cases hx₂
      exact absurd (h.bound u₁ hu₁ hold₁ _ hx₁) (Nat.lt_irrefl _)
    · rw [hslot u₁ hne₁] at hx₁
      rw [hslot u₂ hne₂] at hx₂
      exact h.unique u₁ hu₁ u₂ hu₂ hold₁ hold₂ x hx₁ hx₂

/-- The record of a call that failed, and the slot that was cleared for it. -/
theorem newRecord (hfree : (s.users u).used = false) (hrange : InRange kernel.nextPid)
    (hkernel : (∃ i pid, Created s.kernel kernel i pid) ∨ kernel.processes = s.kernel.processes) :
    Inv { s.setUser u {} with kernel } := by
  have hne : ∀ u', (s.users u').used = true → update s.users u {} u' = s.users u' := by
    intro u' hused
    refine update_of_ne ?_ ..
    rintro rfl
    exact absurd (hused.symm.trans hfree) (by decide)
  have hused : ∀ u', (update s.users u {} u').used = true → (s.users u').used = true := by
    intro u' hu'
    by_cases heq : u' = u
    · subst heq
      rw [update_self] at hu'
      cases hu'
    · rwa [update_of_ne heq] at hu'
  have hdistinct : Distinct kernel := by
    rcases hkernel with ⟨i, pid, hcreated⟩ | hsame
    · exact hcreated.distinct h.distinct
    · unfold Distinct
      rw [hsame]
      exact h.distinct
  have hold : ∀ j < maxProcesses, (s.kernel.processes j).used = true →
      kernel.processes j = s.kernel.processes j := by
    rcases hkernel with ⟨i, pid, hcreated⟩ | hsame
    · intro j _ hjused
      refine hcreated.other j ?_
      rintro rfl
      exact absurd (hjused.symm.trans hcreated.free) (by decide)
    · intro j _ _
      rw [hsame]
  -- a record that was not in use has no task
  have hunattached : ∀ j < maxProcesses, (kernel.processes j).used = false ∨
      (s.kernel.processes j).used = false → s.attached j = none := by
    rintro j hj (hunused | hunused)
    · by_cases hjused : (s.kernel.processes j).used = true
      · rw [hold j hj hjused, hjused] at hunused
        cases hunused
      · exact h.unattached j hj (by simpa using hjused)
    · exact h.unattached j hj hunused
  refine
    { range := hrange, distinct := hdistinct
      owner := fun u' hu' hu'used => ?_, waiting := fun t hlt hlive hfinished => ?_
      ended := h.ended, attach := fun j hj _ t (hjt : s.attached j = some t) => ?_
      unattached := fun j hj hunused => hunattached j hj (.inl hunused), onCore := fun c hc t ht => ?_
      single := h.single, bound := fun u' hu' hu'used x hx => ?_
      unique := fun u₁ hu₁ u₂ hu₂ hused₁ hused₂ x hx₁ hx₂ => ?_
      coreBound := h.coreBound, safe := h.safe }
  · obtain ⟨t, ho⟩ := h.owner u' hu' (hused u' hu'used)
    refine ⟨t, ho.congr (hne u' (hused u' hu'used)) rfl rfl le_rfl fun j hj hjused hjt _ => ?_⟩
    exact ⟨(congrArg _ (hold j hj hjused)).trans hjused, congrArg _ (hold j hj hjused), hjt⟩
  · have hh := h.waiting t hlt hlive hfinished
    exact hh.congr rfl (hne _ hh.used)
  · have hjused : (s.kernel.processes j).used = true := by
      by_contra hunused
      rw [hunattached j hj (.inr (by simpa using hunused))] at hjt
      cases hjt
    obtain ⟨hlt, hpos, hlives⟩ := h.attach j hj hjused t hjt
    have hsame : kernel.processes j = s.kernel.processes j := hold j hj hjused
    refine ⟨hlt, (congrArg (fun p => 0 < p.pid) hsame).mpr hpos, fun hlive => ?_⟩
    obtain ⟨hh, hpid⟩ := hlives hlive
    refine ⟨hh.congr rfl (hne _ hh.used), ?_⟩
    rw [hsame, ← hpid]
    exact congrArg UserProcess.pid (hne _ hh.used)
  · have hon := h.onCore c hc t ht
    exact hon.congr rfl (hne _ hon.holds.used) rfl le_rfl hon.apart
  · have hx' : (s.users u').space = some x := hne u' (hused u' hu'used) ▸ hx
    exact h.bound u' hu' (hused u' hu'used) x hx'
  · have hx₁' : (s.users u₁).space = some x := hne u₁ (hused u₁ hused₁) ▸ hx₁
    have hx₂' : (s.users u₂).space = some x := hne u₂ (hused u₂ hused₂) ▸ hx₂
    exact h.unique u₁ hu₁ u₂ hu₂ (hused u₁ hused₁) (hused u₂ hused₂) x hx₁' hx₂'

end

theorem allocateUserProcess_some (h : s.allocateUserProcess = some u) :
    u < maxUserProcesses ∧ (s.users u).used = false :=
  ⟨List.mem_range.1 (List.mem_of_find?_eq_some h), by simpa using List.find?_some h⟩

section
variable (h : Inv s)
include h

theorem create (hu : u < maxUserProcesses) (hfree : (s.users u).used = false)
    (caller parentPid : Int) (path : List Char) :
    (0 ≤ (radProcessCreate s.kernel caller parentPid path).1 → ∀ process : UserProcess,
      (process.contextPid = 0 ∨
        process.contextPid = (radProcessCreate s.kernel caller parentPid path).1) →
      Inv ((s.setUser u {}).newProcess u (radProcessCreate s.kernel caller parentPid path).1
        (radProcessCreate s.kernel caller parentPid path).2 process)) ∧
    Inv { s.setUser u {} with kernel := (radProcessCreate s.kernel caller parentPid path).2 } := by
  obtain ⟨hrange, hrecords⟩ := radProcessCreate_records caller parentPid path h.range
  constructor
  · intro hpid process hcontext
    have hcleared : Inv (s.setUser u {}) := h.newRecord hfree h.range (.inr rfl)
    rcases hrecords with ⟨i, pid, hcreated, hne, heq⟩ | ⟨hneg, -⟩
    · rw [heq] at hpid hcontext ⊢
      have hpos : 0 < pid := by omega
      exact hcleared.newProcess hu (by simp) hcreated hpos hrange hcontext
    · omega
  · refine h.newRecord hfree hrange (hrecords.imp ?_ And.right)
    rintro ⟨i, pid, hcreated, -, -⟩
    exact ⟨i, pid, hcreated⟩

theorem fork (hc : c < maxCores) (ht : (s.cores c).task = some t)
    (hpoint : (s.tasks t).point = .user) (path : List Char) : Inv (s.fork c path) := by
  have hon := h.onCore c hc t ht
  have hpid := hon.pid (by simp [hpoint]) (by simp [hpoint])
  unfold Machine.fork
  rcases h.findOwn hc ht hpid with hfind | hfind <;> rw [hfind]
  · exact h
  cases hallocate : s.allocateUserProcess with
  | none => exact h
  | some u =>
    obtain ⟨hu, hfree⟩ := allocateUserProcess_some hallocate
    have hne : (s.tasks t).user ≠ u := by
      rintro rfl
      exact absurd (hon.holds.used.symm.trans hfree) (by decide)
    obtain ⟨hmade, hfailed⟩ := h.create hu hfree (s.cores c).pid (s.users (s.tasks t).user).pid path
    dsimp only
    generalize radProcessCreate s.kernel (s.cores c).pid (s.users (s.tasks t).user).pid path = made
      at hmade hfailed
    split_ifs with hneg
    · exact hfailed
    · set process :
    UserProcess := { parentPid := (s.users (s.tasks t).user).pid, contextPid := made.1 }
      have hchild := hmade (by omega) process (.inr rfl)
      set child := (s.setUser u {}).newProcess u made.1 made.2 process with hset
      have htask : child.tasks t = s.tasks t := update_of_ne hon.lt.ne ..
      have hparent : child.users (s.tasks t).user = s.users (s.tasks t).user := by
        simp [hset, Machine.newProcess, Machine.setUser, Machine.setTask, hne]
      have hcore : (child.cores c).task = some t := ht
      have hrestored := hchild.restore hc hcore (by rw [htask, hpoint])
      rwa [htask, hparent] at hrestored

theorem spawn (hfree : (s.cores c).task = none) (parentPid : Int) (path : List Char) :
    Inv (s.spawn c parentPid path) := by
  unfold Machine.spawn
  cases hallocate : s.allocateUserProcess with
  | none => exact h
  | some u =>
    obtain ⟨hu, hunused⟩ := allocateUserProcess_some hallocate
    obtain ⟨hmade, hfailed⟩ := h.create hu hunused (s.cores c).pid parentPid path
    dsimp only
    generalize radProcessCreate s.kernel (s.cores c).pid parentPid path = made at hmade hfailed
    have hspawned : 0 ≤ made.1 → ∀ parent : Int, Inv (((s.setUser u {}).newProcess u made.1
        (radProcessMarkExec made.2 made.1 path).2 { parentPid := parent }).setSpace c none) := by
      intro hpid parent
      have hmarked := (hmade hpid { parentPid := parent } (.inl rfl)).withKernel
        (.markExec made.2 made.1 path)
      have hrecords : SameRecords made.2 (radProcessMarkExec made.2 made.1 path).2 := .markExec ..
      have hsame : (s.setUser u {}).newProcess u made.1 (radProcessMarkExec made.2 made.1 path).2
          { parentPid := parent } = { (s.setUser u {}).newProcess u made.1 made.2
            { parentPid := parent } with kernel := (radProcessMarkExec made.2 made.1 path).2 } := by
        simp [Machine.newProcess, hrecords.findProcess]
      rw [hsame]
      exact hmarked.setCoreFree _ hfree (.inr rfl)
    split_ifs with hneg
    · exact hfailed
    · exact hspawned (by omega) _
    · exact hspawned (by omega) _

/-! ## The end of a process -/

theorem clear (hc : c < maxCores) (ht : (s.cores c).task = some t)
    (hpoint : (s.tasks t).point = .clearing) (path : List Char) (answer : LoadAnswer) :
    Inv (s.advance c t path answer) := by
  have hon := h.onCore c hc t ht
  have ho := h.ownerOnCore hc ht
  have hleft := h.leave hc ht
  have howner : Owner (s.leave c t) (s.tasks t).user t := by
    obtain ⟨t', ho'⟩ := hleft.owner _ hon.holds.lt hon.holds.used
    obtain rfl : t' = t := Option.some.inj (ho'.task.symm.trans ho.task)
    exact ho'
  have hoff : ∀ c' < maxCores, ((s.leave c t).cores c').task ≠ some t := by
    intro c' hc' ht'
    by_cases hcc : c' = c
    · subst hcc
      simp [Machine.leave] at ht'
    · rw [Machine.leave, Machine.setCore_cores, update_of_ne hcc] at ht'
      exact hcc (h.single c' hc' c hc t ht' ht)
  have hadvance : s.advance c t path answer =
      { (s.leave c t).setUser (s.tasks t).user { s.users (s.tasks t).user with used := false } with
        tasks := update s.tasks t
          { s.tasks t with point := .done, finished := true, running := false }
        log := .cleared t (some t) :: s.log } := by
    simp [Machine.advance, hpoint, Machine.finish, Machine.leave, Machine.note, Machine.setUser,
      Machine.setTask, Machine.setCore, hon.holds.used, ho.task]
  have hsafe : ∀ e ∈ Event.cleared t (some t) :: s.log, e.Safe := by
    intro e he
    rcases List.mem_cons.1 he with rfl | he
    · exact .inr rfl
    · exact h.safe e he
  rw [hadvance]
  refine hleft.freeSlot howner rfl (fun t' htt => ?_) ?_ (.inl ?_) (fun _ => ?_) hoff h.range h.distinct
    (fun i _ hused => ⟨hused, rfl, rfl⟩) (fun i _ hused _ => ⟨hused, rfl, rfl⟩) h.unattached (.inl ?_)
    hsafe
  · simp [Machine.leave, htt]
  all_goals simp [Machine.leave]

/-- A record is given back whose task is over. -/
theorem forget (hover : ∀ t, s.attached i = some t → (s.tasks t).point = .done)
    (hkernel : kernel.processes = update s.kernel.processes i {})
    (hrange : InRange kernel.nextPid) :
    Inv { s with kernel, attached := update s.attached i none } := by
  have hused : ∀ j, (kernel.processes j).used = true →
      j ≠ i ∧ kernel.processes j = s.kernel.processes j := by
    intro j hj
    rw [hkernel] at hj ⊢
    by_cases hji : j = i
    · subst hji
      rw [update_self] at hj
      cases hj
    · exact ⟨hji, update_of_ne hji ..⟩
  have hlive : ∀ t, (s.tasks t).point ≠ .done → ∀ j, s.attached j = some t → j ≠ i := by
    rintro t hlive j hjt rfl
    exact hlive (hover t hjt)
  refine
    { range := hrange, distinct := fun j hj k hk hjused hkused hpid => ?_
      owner := fun u hu huused => ?_, waiting := fun t hlt htlive hfinished => ?_
      ended := h.ended, attach := fun j hj hjused t hjt => ?_
      unattached := fun j hj hjunused => ?_, onCore := fun c hc t ht => ?_, single := h.single
      bound := h.bound, unique := h.unique, coreBound := h.coreBound, safe := h.safe }
  · obtain ⟨-, hjsame⟩ := hused j hjused
    obtain ⟨-, hksame⟩ := hused k hkused
    rw [hjsame] at hjused hpid
    rw [hksame] at hkused hpid
    exact h.distinct j hj k hk hjused hkused hpid
  · obtain ⟨t, ho⟩ := h.owner u hu huused
    refine ⟨t, ho.congr rfl rfl rfl le_rfl fun j hj hjused hjt _ => ?_⟩
    have hji := hlive t ho.live j hjt
    have hjsame : kernel.processes j = s.kernel.processes j := by
      rw [hkernel, update_of_ne hji]
    refine ⟨(congrArg _ hjsame).trans hjused, congrArg _ hjsame, ?_⟩
    exact (update_of_ne hji ..).trans hjt
  · exact (h.waiting t hlt htlive hfinished).congr rfl rfl
  · obtain ⟨hji, hjsame⟩ := hused j hjused
    dsimp only at hjused hjt ⊢
    rw [update_of_ne hji] at hjt
    rw [hjsame] at hjused ⊢
    obtain ⟨hlt, hpos, hlives⟩ := h.attach j hj hjused t hjt
    exact ⟨hlt, hpos, fun htlive => ⟨(hlives htlive).1.congr rfl rfl, (hlives htlive).2⟩⟩
  · dsimp only
    by_cases hji : j = i
    · rw [hji, update_self]
    · have hjsame : kernel.processes j = s.kernel.processes j := by
        rw [hkernel, update_of_ne hji]
      rw [update_of_ne hji]
      exact h.unattached j hj ((congrArg _ hjsame).symm.trans hjunused)
  · have hon := h.onCore c hc t ht
    exact hon.congr rfl rfl rfl le_rfl hon.apart

/-- The record of a process, its slot and its address space are given back. -/
theorem reap (hi : i < maxProcesses) (hiused : (s.kernel.processes i).used = true)
    (hunused : s.Unused i) (hkernel : kernel.processes = update s.kernel.processes i {})
    (hrange : InRange kernel.nextPid) :
    Inv { s.reaped (s.kernel.processes i).pid with
      kernel, attached := update s.attached i none } := by
  unfold Machine.reaped
  cases hfind : s.findUserProcess (s.kernel.processes i).pid with
  | none =>
    refine h.forget (fun t hit => ?_) hkernel hrange
    by_contra hlive
    obtain ⟨-, -, hlives⟩ := h.attach i hi hiused t hit
    obtain ⟨hh, hpid⟩ := hlives hlive
    rw [← hpid, h.findUserProcess hh.lt hh.used] at hfind
    cases hfind
  | some u =>
    obtain ⟨hu, huused, hupid⟩ := findUserProcess_some hfind
    obtain ⟨t, ho⟩ := h.owner u hu huused
    obtain ⟨hit, hself⟩ : s.attached i = some t ∧ ∀ j < maxProcesses,
        (s.kernel.processes j).used = true → s.attached j = some t → j = i := by
      obtain ⟨j, hj, hjused, hjpid, hjt⟩ := ho.record
      obtain rfl : j = i := h.distinct j hj i hi hjused hiused (hjpid.trans hupid)
      refine ⟨hjt, fun k hk hkused hkt => h.distinct k hk j hj hkused hjused ?_⟩
      obtain ⟨-, -, hlives⟩ := h.attach k hk hkused t hkt
      rw [← (hlives ho.live).2, ho.user, hjpid]
    obtain ⟨hover, hrunning, hloaded⟩ := hunused t hit
    have hoff : ∀ c < maxCores, (s.cores c).task ≠ some t := by
      intro c hc ht
      rw [(h.onCore c hc t ht).running] at hrunning
      cases hrunning
    have hsafe : ∀ e ∈ (s.destroySpace u).log, e.Safe := by
      refine Machine.destroySpace_safe h.safe fun x hx c hc hcx => ?_
      by_cases hin : s.InProcess c
      · -- the core has the address space of its own task loaded
        obtain ⟨t', ht', hpoint⟩ := hin
        have hon := h.onCore c hc t' ht'
        have hslot : (s.tasks t').user = u :=
          h.unique _ hon.holds.lt u hu hon.holds.used huused x (hon.own hpoint x hcx) hx
        have htask := hon.holds.task
        rw [hslot, ho.task] at htask
        exact hoff c hc (htask ▸ ht')
      · rw [ho.user] at hloaded
        exact hloaded x hx c hc hin hcx
    have hkept : ∀ j, j ≠ i → kernel.processes j = s.kernel.processes j := fun j hji => by
      rw [hkernel, update_of_ne hji]
    have hgone : (kernel.processes i).used = false := by
      rw [hkernel, update_self]
    have hne : ∀ j, (kernel.processes j).used = true → j ≠ i := by
      rintro j hj rfl
      exact absurd (hj.symm.trans hgone) (by decide)
    have hreaped : ∃ log, (∀ e ∈ log, e.Safe) ∧ (s.destroySpace u).setUser u
        { (s.destroySpace u).users u with exiting := true, used := false } =
          { s.setUser u { s.users u with space := none, exiting := true, used := false } with log } := by
      refine ⟨_, hsafe, ?_⟩
      obtain ⟨log, hlog⟩ := s.destroySpace_eq u
      rw [hlog]
      simp [Machine.setUser]
    obtain ⟨log, hlogsafe, hreaped⟩ := hreaped
    dsimp only
    rw [hreaped]
    have hdistinct : Distinct kernel := by
      intro j hj k hk hjused hkused hpid
      have hji := hne j hjused
      have hki := hne k hkused
      rw [hkept j hji] at hjused hpid
      rw [hkept k hki] at hkused hpid
      exact h.distinct j hj k hk hjused hkused hpid
    refine h.freeSlot ho rfl (fun _ _ => rfl) rfl hover (fun hdone => absurd hdone ho.live) hoff hrange
      hdistinct (fun j _ hjused => ?_) (fun j hj hjused hjt => ?_) (fun j hj hjunused => ?_)
      (.inr fun j hj hjused hjt => ?_) hlogsafe
    · have hji := hne j hjused
      rw [hkept j hji] at hjused
      exact ⟨hjused, congrArg _ (hkept j hji), update_of_ne hji ..⟩
    · have hji : j ≠ i := fun heq => hjt (heq ▸ hit)
      exact ⟨(congrArg _ (hkept j hji)).trans hjused, congrArg _ (hkept j hji), update_of_ne hji ..⟩
    · by_cases hji : j = i
      · rw [hji, update_self]
      · rw [update_of_ne hji]
        exact h.unattached j hj ((congrArg _ (hkept j hji)).symm.trans hjunused)
    · have hji := hne j hjused
      rw [hkept j hji] at hjused
      exact hji (hself j hj hjused hjt)

theorem waitpid (hc : c < maxCores) (hcall : s.MayCall c) (pid : Int)
    (hunused : ∀ i ∈ nextReaped s.kernel (s.cores c).pid pid, s.Unused i) : Inv (s.waitpid c pid) := by
  -- what the wait takes
  obtain ⟨s₁, hs₁, htasks, hcores, hwait⟩ : ∃ s₁, Inv s₁ ∧ s₁.tasks = s.tasks ∧ s₁.cores = s.cores ∧
      s.waitpid c pid = (s.findUserProcess (s.cores c).pid).elim s₁ fun u =>
        if (s₁.cores c).task.isSome then (s₁.setCurrentPid c (s₁.users u).pid).activate c u
        else s₁ := by
    cases hreaped : nextReaped s.kernel (s.cores c).pid pid with
    | none =>
      refine ⟨s, h, rfl, rfl, ?_⟩
      unfold Machine.waitpid
      rewrite [hreaped]
      dsimp only
      cases s.findUserProcess (s.cores c).pid <;> cases (s.cores c).task <;> rfl
    | some i =>
      obtain ⟨hi, hiused, hkernel, hnext⟩ := radProcessWaitpid_records hreaped
      have hgiven := h.reap hi hiused (hunused i hreaped) hkernel (hnext ▸ h.range)
      obtain ⟨users, log, hslot⟩ := s.reaped_eq (s.kernel.processes i).pid
      unfold Machine.waitpid
      rw [hreaped]
      dsimp only
      rw [hslot] at hgiven ⊢
      refine ⟨_, hgiven, rfl, rfl, ?_⟩
      cases s.findUserProcess (s.cores c).pid <;> cases (s.cores c).task <;> rfl
  rw [hwait, hcores]
  rcases hcall with hnone | hsome
  · rw [hnone]
    cases s.findUserProcess (s.cores c).pid <;> exact hs₁
  · obtain ⟨t, ht⟩ := Option.isSome_iff_exists.1 hsome
    obtain ⟨ht, hpoint⟩ := Option.filter_eq_some_iff.1 ht
    have hpoint : (s.tasks t).point = .user := by simpa using hpoint
    have hpid := (h.onCore c hc t ht).pid (by simp [hpoint]) (by simp [hpoint])
    rw [ht]
    rcases h.findOwn hc ht hpid with hfind | hfind <;> rw [hfind]
    · exact hs₁
    · have hrestored := hs₁.restore hc (hcores ▸ ht) (htasks ▸ hpoint)
      rwa [htasks] at hrestored

end

end Inv

end RadKernel.User
