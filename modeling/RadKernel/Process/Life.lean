import RadKernel.Process.Table
import RadKernel.Lib.Run

/-!
# The life of a process

A ledger is kept beside the kernel by watching it: every record in use belongs to one life,
numbered by the call that began it; the first time a life is seen as a zombie its death is
entered with pid, parent and status; and when `rad_process_waitpid` makes a record go, what it
returned is entered as the reaping of that life.
-/

namespace RadKernel.Process

open Kernel Fd

/-- The end of a life: who it was, whose child, and the exit status. -/
structure Death where
  life : Nat
  pid : Int
  parentPid : Int
  status : Int
  deriving DecidableEq, Repr

/-- The kernel with the history of its processes. -/
structure Ledger where
  kernel : KernelState
  /-- The life a record in use belongs to. -/
  life : Nat → Nat := fun _ => 0
  /-- The number of the next call. -/
  calls : Nat := 1
  deaths : List Death := []
  reaps : List Death := []

def isZombie (r : ProcessRecord) : Bool := r.used && r.state = .zombie

/-- What is entered when record `i` is seen as a zombie. -/
def deathOf (life : Nat → Nat) (s : KernelState) (i : Nat) : Death :=
  ⟨life i, (s.processes i).pid, (s.processes i).parentPid, (s.processes i).exitCode⟩

/-- Zombies of `s` whose life has no death entered. -/
def newDeaths (life : Nat → Nat) (deaths : List Death) (s : KernelState) : List Death :=
  ((List.range maxProcesses).filter fun i =>
    isZombie (s.processes i) && !deaths.any fun d => d.life = life i).map (deathOf life s)

/-- The record that was in use in `s` and is free in `t`. -/
def vanished (s t : KernelState) : Option Nat :=
  (List.range maxProcesses).find? fun i => (s.processes i).used && !(t.processes i).used

/-- What is entered when a call made a record go. -/
def newReaps (l : Ledger) (caller : Int) (call : Call) : List Death :=
  let result := (call.perform caller l.kernel).1
  match call, vanished l.kernel (call.perform caller l.kernel).2 with
  | .waitpid _, some i => [⟨l.life i, result.1, caller, result.2⟩]
  | _, _ => []

def Ledger.step (l : Ledger) (e : Int × Call) : Ledger :=
  let t := (e.2.perform e.1 l.kernel).2
  let life := fun i => if (l.kernel.processes i).used then l.life i else l.calls
  { kernel := t
    life := life
    calls := l.calls + 1
    deaths := l.deaths ++ newDeaths life l.deaths t
    reaps := l.reaps ++ newReaps l e.1 e.2 }

def Started (l : Ledger) : Prop :=
  l.kernel.processes = bootProcesses ∧ l.kernel.nextPid = 2 ∧ l.life = (fun _ => 0) ∧
    l.calls = 1 ∧ l.deaths = [] ∧ l.reaps = []

/-- A zombie's parent that waits for it gets its pid and status, and the record is freed. -/
def Reapable (s : KernelState) (i : Nat) : Prop :=
  let result := radProcessWaitpid s (s.processes i).parentPid (s.processes i).pid
  result.1 = ((s.processes i).pid, (s.processes i).exitCode) ∧ ¬(result.2.processes i).used

structure LifeCycle (l : Ledger) : Prop where
  distinct : Distinct l.kernel
  /-- A zombie's record is as it was when its death was entered, and a life dies once. -/
  entered : ∀ i < maxProcesses, isZombie (l.kernel.processes i) →
    deathOf l.life l.kernel i ∈ l.deaths
  first : ∀ d ∈ l.deaths, ∀ d' ∈ l.deaths, d.life = d'.life → d = d'
  /-- Until it is reaped, the dead process is in the table as a zombie with its status. -/
  stays : ∀ d ∈ l.deaths, d ∉ l.reaps →
    ∃ i < maxProcesses, isZombie (l.kernel.processes i) ∧ deathOf l.life l.kernel i = d
  /-- What a reaping returned to whom is what the death says. -/
  returned : ∀ d ∈ l.reaps, d ∈ l.deaths
  once : l.reaps.Nodup
  /-- The record of a reaped life is free. -/
  freed : ∀ d ∈ l.reaps, ∀ i < maxProcesses, (l.kernel.processes i).used → l.life i ≠ d.life
  reapable : ∀ i < maxProcesses, isZombie (l.kernel.processes i) →
    0 < (l.kernel.processes i).pid → Reapable l.kernel i

/-! ## The invariant -/

/-- What every call keeps: the life cycle, and how lives are numbered. -/
structure Inv (l : Ledger) : Prop where
  nextPid : InRange l.kernel.nextPid
  distinct : Distinct l.kernel
  begun : ∀ i < maxProcesses, (l.kernel.processes i).used → l.life i < l.calls
  lives : ∀ i < maxProcesses, ∀ j < maxProcesses, (l.kernel.processes i).used →
    (l.kernel.processes j).used → l.life i = l.life j → i = j
  past : ∀ d ∈ l.deaths, d.life < l.calls
  entered : ∀ i < maxProcesses, isZombie (l.kernel.processes i) →
    deathOf l.life l.kernel i ∈ l.deaths
  alive : ∀ i < maxProcesses, (l.kernel.processes i).used → ¬isZombie (l.kernel.processes i) →
    ∀ d ∈ l.deaths, d.life ≠ l.life i
  first : ∀ d ∈ l.deaths, ∀ d' ∈ l.deaths, d.life = d'.life → d = d'
  stays : ∀ d ∈ l.deaths, d ∉ l.reaps →
    ∃ i < maxProcesses, isZombie (l.kernel.processes i) ∧ deathOf l.life l.kernel i = d
  returned : ∀ d ∈ l.reaps, d ∈ l.deaths
  once : l.reaps.Nodup
  freed : ∀ d ∈ l.reaps, ∀ i < maxProcesses, (l.kernel.processes i).used → l.life i ≠ d.life

variable {l : Ledger} {s t : KernelState} {caller : Int} {call : Call} {i j : Nat}

theorem mem_newDeaths {life : Nat → Nat} {deaths : List Death} {d : Death} :
    d ∈ newDeaths life deaths s ↔ ∃ i < maxProcesses, isZombie (s.processes i) ∧
      (∀ d' ∈ deaths, d'.life ≠ life i) ∧ deathOf life s i = d := by
  simp [newDeaths, and_assoc]

theorem newReaps_eq_nil (h : ∀ i < maxProcesses, (l.kernel.processes i).used →
      ((call.perform caller l.kernel).2.processes i).used) : newReaps l caller call = [] := by
  have hnone : vanished l.kernel (call.perform caller l.kernel).2 = none := by
    refine List.find?_eq_none.2 fun i hi => ?_
    have := h i (List.mem_range.1 hi)
    simpa using this
  unfold newReaps
  rw [hnone]
  cases call <;> rfl

theorem started_inv (h : Started l) : Inv l := by
  obtain ⟨htable, hnext, hlife, hcalls, hdeaths, hreaps⟩ := h
  have hused : ∀ i, (l.kernel.processes i).used → i = 0 := by
    intro i hi
    rw [htable, bootProcesses] at hi
    by_contra hne
    simp [hne] at hi
  have hzombie : ∀ i, ¬isZombie (l.kernel.processes i) := by
    intro i hi
    rw [htable, bootProcesses, isZombie] at hi
    split_ifs at hi <;> simp at hi
  refine ⟨?_, ?_, ?_, ?_, ?_, ?_, ?_, ?_, ?_, ?_, ?_, ?_⟩
  · rw [hnext]
    unfold InRange
    omega
  · exact distinct_boot htable
  · intro i _ _
    rw [hlife, hcalls]
    exact Nat.zero_lt_one
  · intro i _ j _ hi hj _
    rw [hused i hi, hused j hj]
  · simp [hdeaths]
  · intro i _ hi
    exact absurd hi (hzombie i)
  all_goals simp [hdeaths, hreaps]

/-! ## Steps -/

/-- What the watcher sees of a call that overwrites no zombie: records in use stay with their
process, at most one record begins, and at most one zombie goes, whose reaping is entered. -/
structure Watched (l : Ledger) (caller : Int) (call : Call) (t : KernelState) : Prop where
  nextPid : InRange t.nextPid
  distinct : Distinct t
  old : ∀ i < maxProcesses, (l.kernel.processes i).used → (t.processes i).used →
    isZombie (l.kernel.processes i) → t.processes i = l.kernel.processes i
  new : ∀ i < maxProcesses, ¬(l.kernel.processes i).used → (t.processes i).used →
    ¬isZombie (t.processes i) ∧ ∀ j < maxProcesses, j ≠ i → (t.processes j).used →
      (l.kernel.processes j).used
  gone : (newReaps l caller call = [] ∧
      ∀ i < maxProcesses, (l.kernel.processes i).used → (t.processes i).used) ∨
    ∃ i < maxProcesses, isZombie (l.kernel.processes i) ∧ ¬(t.processes i).used ∧
      newReaps l caller call = [deathOf l.life l.kernel i] ∧
      ∀ j < maxProcesses, j ≠ i → (l.kernel.processes j).used → (t.processes j).used

theorem isZombie_used {r : ProcessRecord} (h : isZombie r) : r.used := by
  unfold isZombie at h
  simp_all

theorem vanished_eq (hi : i < maxProcesses) (hs : (s.processes i).used) (ht : ¬(t.processes i).used)
    (hothers : ∀ j < maxProcesses, j ≠ i → (s.processes j).used → (t.processes j).used) :
    vanished s t = some i := by
  cases hfind : vanished s t with
  | none =>
    have := List.find?_eq_none.1 hfind i (List.mem_range.2 hi)
    simp [hs, ht] at this
  | some j =>
    have hj := List.mem_range.1 (List.mem_of_find?_eq_some hfind)
    have hp := List.find?_some hfind
    simp only [Bool.and_eq_true, Bool.not_eq_true'] at hp
    by_contra hne
    have := hothers j hj (by simpa using hne) hp.1
    simp [hp.2] at this

theorem watched_of_effect (h : Inv l) (hleaves : call.LeavesZombies l.kernel caller)
    (hnext : InRange (call.perform caller l.kernel).2.nextPid)
    (he : Effect l.kernel (call.perform caller l.kernel).2 caller call
      (call.perform caller l.kernel).1) :
    Watched l caller call (call.perform caller l.kernel).2 := by
  have hdistinct := h.distinct.step he
  cases he with
  | kept same zombies =>
    have hused : ∀ i, (l.kernel.processes i).used →
        ((call.perform caller l.kernel).2.processes i).used := by
      intro i hi
      rw [(same i).used]
      exact hi
    refine ⟨hnext, hdistinct, fun i hi hs _ hz => ?_, fun i _ hs ht => ?_,
      .inl ⟨newReaps_eq_nil fun i _ hi => hused i hi, fun i _ hi => hused i hi⟩⟩
    · unfold isZombie at hz
      exact zombies hleaves i (by simp_all) hi hs
    · rw [(same i).used] at ht
      exact absurd ht hs
  | born parentPid path i r isCreate inTable free table used running fresh _ _ =>
    have hother : ∀ j, j ≠ i →
        (call.perform caller l.kernel).2.processes j = l.kernel.processes j := by
      intro j hj
      rw [table, Function.update_of_ne hj]
    have hself : (call.perform caller l.kernel).2.processes i = r := by
      rw [table, Function.update_self]
    have hused : ∀ j, (l.kernel.processes j).used →
        ((call.perform caller l.kernel).2.processes j).used := by
      intro j hj
      by_cases hji : j = i
      · rw [hji, hself]
        exact used
      · rw [hother j hji]
        exact hj
    refine ⟨hnext, hdistinct, fun j _ hs _ _ => ?_, fun j _ hs ht => ?_,
      .inl ⟨newReaps_eq_nil fun j _ hj => hused j hj, fun j _ hj => hused j hj⟩⟩
    · exact hother j fun hji => free (hji ▸ hs)
    · have hji : j = i := by
        by_contra hji
        rw [hother j hji] at ht
        exact hs ht
      subst hji
      rw [hself]
      refine ⟨by simp [isZombie, running], fun k hk hkj htk => ?_⟩
      rw [hother k hkj] at htk
      exact htk
  | reaped pid i isWaitpid inTable used zombie child returned table =>
    have hother : ∀ j, j ≠ i →
        (call.perform caller l.kernel).2.processes j = l.kernel.processes j := by
      intro j hj
      rw [table, Function.update_of_ne hj]
    have hself : ¬((call.perform caller l.kernel).2.processes i).used := by
      rw [table, Function.update_self]
      simp
    have hothers : ∀ j < maxProcesses, j ≠ i → (l.kernel.processes j).used →
        ((call.perform caller l.kernel).2.processes j).used := by
      intro j _ hji hj
      rw [hother j hji]
      exact hj
    refine ⟨hnext, hdistinct, fun j _ hs ht _ => ?_, fun j _ hs ht => ?_,
      .inr ⟨i, inTable, by simp [isZombie, used, zombie], hself, ?_, hothers⟩⟩
    · exact hother j fun hji => hself (hji ▸ ht)
    · have hji : j ≠ i := fun hji => hself (hji ▸ ht)
      rw [hother j hji] at ht
      exact absurd ht hs
    · have hvanished := vanished_eq inTable used hself hothers
      subst isWaitpid
      unfold newReaps
      rw [hvanished]
      simp only [returned, deathOf, child]

theorem step_life (hi : (l.kernel.processes i).used) :
    (l.step (caller, call)).life i = l.life i := by
  simp [Ledger.step, hi]

theorem step_life_new (hi : ¬(l.kernel.processes i).used) :
    (l.step (caller, call)).life i = l.calls := by
  simp [Ledger.step, hi]

theorem step_life_lt (e : Int × Call) (h : Inv l) (hi : i < maxProcesses) :
    (l.step e).life i < l.calls + 1 := by
  by_cases hs : (l.kernel.processes i).used
  · rw [step_life hs]
    have := h.begun i hi hs
    omega
  · rw [step_life_new hs]
    omega

theorem step_reaps (l : Ledger) (caller : Int) (call : Call) :
    (l.step (caller, call)).reaps = l.reaps ++ newReaps l caller call := rfl

namespace Watched

section
variable (w : Watched l caller call (call.perform caller l.kernel).2) (hi : i < maxProcesses)
include w hi

theorem used_of_zombie (hz : isZombie ((l.step (caller, call)).kernel.processes i)) :
    (l.kernel.processes i).used := by
  by_contra hs
  exact (w.new i hi hs (isZombie_used hz)).1 hz

/-- A zombie whose record is still there has the death it had. -/
theorem deathOf_old (hz : isZombie (l.kernel.processes i))
    (ht : ((l.step (caller, call)).kernel.processes i).used) :
    isZombie ((l.step (caller, call)).kernel.processes i) ∧
      deathOf (l.step (caller, call)).life (l.step (caller, call)).kernel i =
        deathOf l.life l.kernel i := by
  have hs := isZombie_used hz
  have hrec : (l.step (caller, call)).kernel.processes i = l.kernel.processes i :=
    w.old i hi hs ht hz
  rw [deathOf, hrec, step_life hs]
  exact ⟨hz, rfl⟩

end

variable (h : Inv l) (w : Watched l caller call (call.perform caller l.kernel).2)
include h w

variable {d : Death}

theorem mem_deaths : d ∈ (l.step (caller, call)).deaths ↔ d ∈ l.deaths ∨
    ∃ i < maxProcesses, (l.kernel.processes i).used ∧ ¬isZombie (l.kernel.processes i) ∧
      isZombie ((l.step (caller, call)).kernel.processes i) ∧
      deathOf (l.step (caller, call)).life (l.step (caller, call)).kernel i = d := by
  have happend : d ∈ (l.step (caller, call)).deaths ↔ d ∈ l.deaths ∨
      d ∈ newDeaths (l.step (caller, call)).life l.deaths (l.step (caller, call)).kernel :=
    List.mem_append
  rw [happend, mem_newDeaths]
  refine or_congr_right ⟨?_, ?_⟩
  · rintro ⟨i, hi, hz, hfresh, rfl⟩
    have hs := w.used_of_zombie hi hz
    refine ⟨i, hi, hs, fun hold => ?_, hz, rfl⟩
    exact hfresh _ (h.entered i hi hold) (step_life hs).symm
  · rintro ⟨i, hi, hs, hold, hz, rfl⟩
    refine ⟨i, hi, hz, fun d' hd' => ?_, rfl⟩
    rw [step_life hs]
    exact h.alive i hi hs hold d' hd'

theorem lives (hi : i < maxProcesses) (hj : j < maxProcesses)
    (hti : ((l.step (caller, call)).kernel.processes i).used)
    (htj : ((l.step (caller, call)).kernel.processes j).used)
    (heq : (l.step (caller, call)).life i = (l.step (caller, call)).life j) : i = j := by
  by_contra hne
  by_cases hsi : (l.kernel.processes i).used
  · by_cases hsj : (l.kernel.processes j).used
    · rw [step_life hsi, step_life hsj] at heq
      exact hne (h.lives i hi j hj hsi hsj heq)
    · rw [step_life hsi, step_life_new hsj] at heq
      have := h.begun i hi hsi
      omega
  · have hsj := (w.new i hi hsi hti).2 j hj (Ne.symm hne) htj
    rw [step_life_new hsi, step_life hsj] at heq
    have := h.begun j hj hsj
    omega

theorem alive (hi : i < maxProcesses) (ht : ((l.step (caller, call)).kernel.processes i).used)
    (hz : ¬isZombie ((l.step (caller, call)).kernel.processes i))
    (hd : d ∈ (l.step (caller, call)).deaths) : d.life ≠ (l.step (caller, call)).life i := by
  obtain hd | ⟨j, hj, hs, -, hzj, rfl⟩ := (mem_deaths h w).1 hd
  · by_cases hs : (l.kernel.processes i).used
    · rw [step_life hs]
      refine h.alive i hi hs (fun hold => hz ?_) d hd
      exact (w.deathOf_old hi hold ht).1
    · rw [step_life_new hs]
      exact (h.past d hd).ne
  · intro heq
    have := lives h w hj hi (isZombie_used hzj) ht heq
    exact hz (this ▸ hzj)

theorem first {d d' : Death} (hd : d ∈ (l.step (caller, call)).deaths)
    (hd' : d' ∈ (l.step (caller, call)).deaths) (heq : d.life = d'.life) : d = d' := by
  obtain hd | ⟨i, hi, hs, hold, hz, rfl⟩ := (mem_deaths h w).1 hd <;>
    obtain hd' | ⟨j, hj, hs', hold', hz', rfl⟩ := (mem_deaths h w).1 hd'
  · exact h.first d hd d' hd' heq
  · rw [deathOf, step_life hs'] at heq
    exact absurd heq (h.alive j hj hs' hold' d hd)
  · rw [deathOf, step_life hs] at heq
    exact absurd heq.symm (h.alive i hi hs hold d' hd')
  · rw [lives h w hi hj (isZombie_used hz) (isZombie_used hz') heq]

theorem entered (hi : i < maxProcesses)
    (hz : isZombie ((l.step (caller, call)).kernel.processes i)) :
    deathOf (l.step (caller, call)).life (l.step (caller, call)).kernel i ∈
      (l.step (caller, call)).deaths := by
  refine (mem_deaths h w).2 ?_
  by_cases hold : isZombie (l.kernel.processes i)
  · left
    rw [(w.deathOf_old hi hold (isZombie_used hz)).2]
    exact h.entered i hi hold
  · exact .inr ⟨i, hi, w.used_of_zombie hi hz, hold, hz, rfl⟩

theorem stays (hd : d ∈ (l.step (caller, call)).deaths) (hr : d ∉ (l.step (caller, call)).reaps) :
    ∃ i < maxProcesses, isZombie ((l.step (caller, call)).kernel.processes i) ∧
      deathOf (l.step (caller, call)).life (l.step (caller, call)).kernel i = d := by
  rw [step_reaps, List.mem_append, not_or] at hr
  obtain hd | ⟨i, hi, -, -, hz, rfl⟩ := (mem_deaths h w).1 hd
  · obtain ⟨i, hi, hz, rfl⟩ := h.stays d hd hr.1
    have ht : ((l.step (caller, call)).kernel.processes i).used := by
      obtain ⟨-, hall⟩ | ⟨k, -, -, -, hnew, hothers⟩ := w.gone
      · exact hall i hi (isZombie_used hz)
      · refine hothers i hi (fun hik => ?_) (isZombie_used hz)
        rw [hnew, hik] at hr
        exact hr.2 (List.mem_singleton_self _)
    exact ⟨i, hi, w.deathOf_old hi hz ht⟩
  · exact ⟨i, hi, hz, rfl⟩

theorem returned (hd : d ∈ (l.step (caller, call)).reaps) : d ∈ (l.step (caller, call)).deaths := by
  rw [step_reaps, List.mem_append] at hd
  refine (mem_deaths h w).2 (.inl ?_)
  obtain hd | hd := hd
  · exact h.returned d hd
  · obtain ⟨hnil, -⟩ | ⟨k, hk, hz, -, hnew, -⟩ := w.gone
    · simp [hnil] at hd
    · rw [hnew, List.mem_singleton] at hd
      exact hd ▸ h.entered k hk hz

theorem once : (l.step (caller, call)).reaps.Nodup := by
  rw [step_reaps]
  obtain ⟨hnil, -⟩ | ⟨k, hk, hz, -, hnew, -⟩ := w.gone
  · simpa [hnil] using h.once
  · rw [hnew, List.nodup_append]
    refine ⟨h.once, by simp, fun d hd d' hd' heq => ?_⟩
    rw [List.mem_singleton] at hd'
    -- a life with a record in use has not been reaped
    exact h.freed d hd k hk (isZombie_used hz) (by rw [heq, hd', deathOf])

theorem freed (hd : d ∈ (l.step (caller, call)).reaps) (hi : i < maxProcesses)
    (ht : ((l.step (caller, call)).kernel.processes i).used) :
    (l.step (caller, call)).life i ≠ d.life := by
  have hpast := h.past
  rw [step_reaps, List.mem_append] at hd
  by_cases hs : (l.kernel.processes i).used
  · rw [step_life hs]
    obtain hd | hd := hd
    · exact h.freed d hd i hi hs
    · obtain ⟨hnil, -⟩ | ⟨k, hk, hz, hgone, hnew, -⟩ := w.gone
      · simp [hnil] at hd
      · rw [hnew, List.mem_singleton] at hd
        intro heq
        rw [hd, deathOf] at heq
        obtain rfl := h.lives i hi k hk hs (isZombie_used hz) heq
        exact hgone ht
  · rw [step_life_new hs]
    have hdeath : d ∈ l.deaths := by
      obtain hd | hd := hd
      · exact h.returned d hd
      · obtain ⟨hnil, -⟩ | ⟨k, hk, hz, -, hnew, -⟩ := w.gone
        · simp [hnil] at hd
        · rw [hnew, List.mem_singleton] at hd
          exact hd ▸ h.entered k hk hz
    exact (h.past d hdeath).ne'

theorem inv : Inv (l.step (caller, call)) where
  nextPid := w.nextPid
  distinct := w.distinct
  begun _ hi _ := step_life_lt (caller, call) h hi
  lives _ hi _ hj := lives h w hi hj
  past d hd := by
    obtain hd | ⟨i, hi, -, -, -, rfl⟩ := (mem_deaths h w).1 hd
    · exact Nat.lt_succ_of_lt (h.past d hd)
    · exact step_life_lt (caller, call) h hi
  entered _ hi := entered h w hi
  alive _ hi ht hz _ := alive h w hi ht hz
  first _ hd _ := first h w hd
  stays _ := stays h w
  returned _ := returned h w
  once := once h w
  freed _ hd _ := freed h w hd

end Watched

theorem Inv.step (h : Inv l) (hleaves : call.LeavesZombies l.kernel caller) :
    Inv (l.step (caller, call)) := by
  obtain ⟨heffect, hnext⟩ := perform_effect caller call h.nextPid
  exact (watched_of_effect h hleaves hnext heffect).inv h

/-! ## Runs -/

theorem Distinct.reapable (h : Distinct s) (hi : i < maxProcesses)
    (hz : isZombie (s.processes i)) (hpid : 0 < (s.processes i).pid) : Reapable s i := by
  have hused := isZombie_used hz
  have hzombie : (s.processes i).state = .zombie := by
    unfold isZombie at hz
    simp_all
  have hfind : (List.range maxProcesses).find? (fun j =>
      ((s.processes j).used ∧ (s.processes j).parentPid = (s.processes i).parentPid ∧
        (0 < (s.processes i).pid → (s.processes j).pid = (s.processes i).pid)) ∧
      (s.processes j).state = .zombie) = some i := by
    cases hfind : (List.range maxProcesses).find? _ with
    | none =>
      have := List.find?_eq_none.1 hfind i (List.mem_range.2 hi)
      simp [hused, hzombie] at this
    | some j =>
      have hj := List.mem_range.1 (List.mem_of_find?_eq_some hfind)
      have hp := List.find?_some hfind
      simp only [decide_eq_true_eq] at hp
      rw [h j hj i hi hp.1.1 hused (hp.1.2.2 hpid)]
  have htable := (SameTable.closeProcessFds s (s.processes i).pid false).1
  unfold Reapable radProcessWaitpid
  simp only [hfind, htable, Function.update_self]
  simp

theorem Inv.lifeCycle (h : Inv l) : LifeCycle l :=
  ⟨h.distinct, h.entered, h.first, h.stays, h.returned, h.once, h.freed,
    fun _ hi => h.distinct.reapable hi⟩

/-- In every run whose calls do not overwrite zombies, every state has the life cycle. -/
theorem lifeCycle_of_run
    (h : Run (Obeys Ledger.step fun l e => e.2.LeavesZombies l.kernel e.1) Started l) :
    LifeCycle l := by
  refine Inv.lifeCycle (h.invariant (fun l => started_inv) ?_)
  rintro l ⟨caller, call⟩ _ hl ⟨hleaves, rfl⟩
  exact hl.step hleaves

/-- A kernel just started. -/
def bootLedger : Ledger := { kernel := { processes := bootProcesses } }

theorem started_boot : Started bootLedger := ⟨rfl, rfl, rfl, rfl, rfl, rfl⟩

/-- The first process begins a child, which exits with 3 and is reaped. -/
def waitedFor : List (Int × Call) :=
  [(0, .create 0 "/bin/init".toList), (1, .create 1 "/bin/sh".toList), (2, .exit 3),
    (1, .waitpid 2)]

theorem lifeCycle_waitedFor : LifeCycle (waitedFor.foldl Ledger.step bootLedger) :=
  lifeCycle_of_run (.along waitedFor (.start started_boot) (by decide +kernel))

/-- The child is killed with 9 and, still running, exits with 0: its status is lost. -/
theorem not_lifeCycle_exit_after_kill :
    ¬∀ l, Run (Obeys Ledger.step fun _ _ => True) Started l → LifeCycle l := by
  intro h
  have hrun := h _ (.along [(0, .create 0 "/bin/init".toList), (1, .create 1 "/bin/sh".toList),
    (1, .kill 2 9), (2, .exit 0)] (.start started_boot) (by simp [Along]))
  have hentered := hrun.entered 2 (by decide) (by decide +kernel)
  revert hentered
  decide +kernel

end RadKernel.Process
