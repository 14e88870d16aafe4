import RadKernel.Lib.Rotation
import RadKernel.Sched.Ownership

/-!
# Turns of the tasks

`run_one_task_on_core` searches the table in rotation, from the slot after the one the core
selected last. Only a selection of the core itself moves that mark, so a task that the core could
take at each of its selections is taken at one of any sixteen of them.
-/

namespace RadKernel.Sched

variable {s t : State} {c i j a now : Nat}

def searchStart (s : State) (c : Nat) : Nat := ((s.cores c).lastTaskIndex + 1) % maxTasks

theorem searchStart_lt : searchStart s c < maxTasks := Nat.mod_lt _ (by decide)

theorem selectTask_eq (s : State) (c now : Nat) : selectTask s c now =
    (rotation maxTasks (searchStart s c)).find? fun i => taskMatchesCore s (s.tasks i) c now := rfl

theorem selectTask_lt (h : selectTask s c now = some j) : j < maxTasks :=
  lt_of_mem_rotation (List.mem_of_find?_eq_some (selectTask_eq s c now ▸ h))

theorem selectTask_of_matches (hi : i < maxTasks)
    (hmatch : taskMatchesCore s (s.tasks i) c now = true) : ∃ j, selectTask s c now = some j := by
  rw [← Option.isSome_iff_exists, selectTask_eq, List.find?_isSome]
  exact ⟨i, mem_rotation hi searchStart_lt, hmatch⟩

/-! ## The mark -/

def SameMarks (s t : State) : Prop :=
  ∀ c, (t.cores c).lastTaskIndex = (s.cores c).lastTaskIndex

theorem SameMarks.of_cores (h : t.cores = s.cores) : SameMarks s t :=
  fun c => by rw [h]

theorem SameMarks.setCore {core : Core} (h : SameMarks s t)
    (hcore : core.lastTaskIndex = (t.cores j).lastTaskIndex) : SameMarks s (t.setCore j core) := by
  intro c
  by_cases hc : c = j
  · subst hc
    simpa [State.setCore, hcore] using h c
  · simpa [State.setCore, hc] using h c

@[simp] theorem Core.enter_lastTaskIndex (core : Core) (f : Frame) (frames : List Frame) :
    (core.enter f frames).lastTaskIndex = core.lastTaskIndex := by
  unfold Core.enter
  split <;> rfl

variable {core : Nat}

theorem sameMarks_switchAway {frames : List Frame} :
    SameMarks s (switchAway s c i core frames) := by
  unfold switchAway
  split
  · exact .of_cores rfl
  · exact SameMarks.setCore (.of_cores rfl) rfl

theorem sameMarks_switchNowhere : SameMarks s (switchNowhere s c core) :=
  SameMarks.setCore (SameMarks.setCore (.of_cores rfl) rfl) rfl

theorem sameMarks_yield {f : Frame} {busy : Bool} : SameMarks s (stepYield s c f busy) := by
  unfold stepYield
  split
  · exact SameMarks.setCore (.of_cores rfl) (by simp)
  · exact SameMarks.setCore (.of_cores rfl) (by simp [Core.leave, State.setTask])

theorem sameMarks_sleep {microseconds : Nat} : SameMarks s (stepSleep s c now microseconds) := by
  unfold stepSleep
  split
  · exact SameMarks.setCore (.of_cores rfl) rfl
  · refine SameMarks.setCore (.of_cores ?_) ?_
    · split <;> rfl
    · split <;> rfl

theorem sameMarks_wake {id : Nat} : SameMarks s (stepWake s c id) := by
  refine SameMarks.setCore (.of_cores ?_) ?_
  · split <;> rfl
  · split <;> rfl

theorem sameMarks_finish {task : Option Nat} : SameMarks s (stepFinish s c core task) := by
  refine SameMarks.setCore (SameMarks.setCore (.of_cores ?_) ?_) rfl
  · split <;> rfl
  · split <;> rfl

theorem sameMarks_create {targetCore : Int} : SameMarks s (radTaskCreateConfig s targetCore).2 := by
  apply SameMarks.of_cores
  obtain ⟨-, hsame⟩ | ⟨j, hj, hcreate⟩ := radTaskCreateConfig_cases s targetCore
  · rw [hsame]
  · rw [hcreate]
    rfl

variable {k : Nat × Op}

theorem sameMarks_step (hnone : dispatched s k = none) : SameMarks s (step s k) := by
  obtain ⟨c, op⟩ := k
  refine step_cases (.of_cores rfl) fun f rest t hstack hacts => ?_
  cases hacts with
  | runOne hf =>
    rw [dispatched, if_pos ⟨f, by simp [State.top, hstack], hf⟩] at hnone
    rw [stepRunOne, runOneTaskOnCore, hnone]
    exact SameMarks.setCore (.of_cores rfl) (by simp)
  | yield => exact sameMarks_yield
  | sleep => exact sameMarks_sleep
  | wake => exact sameMarks_wake
  | create => exact sameMarks_create
  | finish => exact sameMarks_finish
  | leave | halt => exact sameMarks_switchAway
  | nowhere => exact sameMarks_switchNowhere
  | switchTo =>
    refine SameMarks.setCore (.of_cores rfl) ?_
    rw [switchTo]
    split <;> rfl
  | irqEnd => exact SameMarks.setCore (SameMarks.setCore (.of_cores rfl) rfl) rfl
  | own | settle | release | start | irq => exact SameMarks.setCore (.of_cores rfl) rfl
  | kill | detach => exact .of_cores rfl

theorem dispatched_some (h : dispatched s k = some j) :
    ∃ now f, k.2 = .runOne now ∧ s.top k.1 = some f ∧ (f.runsCode ∨ f = .falling) ∧
      selectTask s k.1 now = some j := by
  obtain ⟨c, op⟩ := k
  cases op with
  | runOne now =>
    simp only [dispatched] at h
    split at h
    · next hf =>
      obtain ⟨f, htop, hf⟩ := hf
      exact ⟨now, f, rfl, htop, hf, h⟩
    · simp at h
  | _ => simp [dispatched] at h

theorem mark_selected (h : dispatched s k = some j) (c : Nat) :
    ((step s k).cores c).lastTaskIndex = if c = k.1 then j else (s.cores c).lastTaskIndex := by
  obtain ⟨now, f, hop, htop, hf, hselect⟩ := dispatched_some h
  obtain ⟨c', op⟩ := k
  subst hop
  have hstep : step s (c', .runOne now) =
      (dispatch s c' j).setCore c' (((dispatch s c' j).cores c').enter f [.picked j]) := by
    simp [step, htop, stepIn, hf, stepRunOne, runOneTaskOnCore, hselect]
  rw [hstep]
  by_cases hc : c = c'
  · subst hc
    simp [State.setCore, dispatch]
  · simp [State.setCore, dispatch, State.setTask, hc]

/-! ## Runs -/

/-- The selections of a core, each with the number of the selected task. -/
def selections (c : Nat) : State → List (Nat × Op) → List (Nat × Nat)
  | _, [] => []
  | s, k :: ops =>
    (if k.1 = c then (dispatched s k).toList.map fun j => (j, (s.tasks j).id) else []) ++
      selections c (step s k) ops

/-- When the core selects, it could take the task `a` in the slot `i`. -/
def Waits (c i a : Nat) (s : State) (k : Nat × Op) : Prop :=
  ∀ now, k = (c, .runOne now) → (∃ f ∈ s.top c, f.runsCode ∨ f = .falling) →
    (s.tasks i).id = a ∧ taskMatchesCore s (s.tasks i) c now = true

/-- Only the selections of the core itself count. -/
theorem waits_of_ne (hk : ∀ now, k ≠ (c, .runOne now)) : Waits c i a s k :=
  fun now h => absurd h (hk now)

theorem waits_runOne_iff {c' : Nat} : Waits c i a s (c', .runOne now) ↔
    (c' = c → (∃ f ∈ s.top c, f.runsCode ∨ f = .falling) →
      (s.tasks i).id = a ∧ taskMatchesCore s (s.tasks i) c now = true) := by
  unfold Waits
  grind

instance Waits.decidable (c i a : Nat) (s : State) : ∀ k, Decidable (Waits c i a s k) := fun
  | (_, .runOne _) => decidable_of_iff _ waits_runOne_iff.symm
  | (_, .own) | (_, .switchTo) | (_, .settle) | (_, .release) | (_, .yield _) | (_, .sleep _ _)
  | (_, .wake) | (_, .switchAway) | (_, .start) | (_, .finish) | (_, .irq _) | (_, .irqEnd)
  | (_, .create _) | (_, .kill _) | (_, .detach _) => isTrue (waits_of_ne (by simp))

theorem turns_selections (hi : i < maxTasks) (ops : List (Nat × Op))
    (h : Along step (Waits c i a) s ops) :
    Turns maxTasks i (searchStart s c) ((selections c s ops).map Prod.fst) := by
  induction ops generalizing s with
  | nil => trivial
  | cons k ops ih =>
    obtain ⟨hk, hops⟩ := h
    have hrest := ih hops
    cases hj : dispatched s k with
    | none =>
      have hstart : searchStart (step s k) c = searchStart s c := by
        rw [searchStart, searchStart, sameMarks_step hj c]
      simpa [selections, hj, hstart] using hrest
    | some j =>
      have hmark := mark_selected hj c
      by_cases hc : k.1 = c
      · obtain ⟨now, f, hop, htop, hf, hselect⟩ := dispatched_some hj
        have hmatch := (hk now (Prod.ext hc hop) ⟨f, hc ▸ htop, hf⟩).2
        rw [hc] at hselect
        rw [if_pos hc.symm] at hmark
        simp only [selections, hc, hj, if_true, Option.toList_some, List.map_cons, List.map_nil,
          List.cons_append, List.nil_append]
        have hfind := selectTask_eq s c now ▸ hselect
        refine ⟨selectTask_lt hselect, ahead_le_of_find searchStart_lt hfind hi hmatch, ?_⟩
        rw [searchStart, hmark] at hrest
        exact hrest
      · rw [if_neg (Ne.symm hc)] at hmark
        have hstart : searchStart (step s k) c = searchStart s c := by
          rw [searchStart, searchStart, hmark]
        simpa [selections, hc, hstart] using hrest

theorem id_of_selections (ops : List (Nat × Op)) (h : Along step (Waits c i a) s ops)
    {x : Nat × Nat} (hx : x ∈ selections c s ops) (hslot : x.1 = i) : x.2 = a := by
  induction ops generalizing s with
  | nil => simp [selections] at hx
  | cons k ops ih =>
    obtain ⟨hk, hops⟩ := h
    rw [selections, List.mem_append] at hx
    rcases hx with hnow | hlater
    · split at hnow
      · next hc =>
        obtain ⟨j, hj, rfl⟩ := List.mem_map.1 hnow
        obtain ⟨now, f, hop, htop, hf, -⟩ := dispatched_some (Option.mem_toList.1 hj)
        subst hslot
        exact (hk now (Prod.ext hc hop) ⟨f, hc ▸ htop, hf⟩).1
      · simp at hnow
    · exact ih hops hlater

/-- If a core could take the task at each of its selections, it takes it at one of any sixteen
selections, whatever else the cores do. -/
theorem turn_within (hi : i < maxTasks) (ops : List (Nat × Op))
    (h : Along step (Waits c i a) s ops) (hlength : maxTasks ≤ (selections c s ops).length) :
    (i, a) ∈ selections c s ops := by
  have hmem := mem_of_turns hi searchStart_lt (turns_selections hi ops h) (by simpa using hlength)
  obtain ⟨⟨j, b⟩, hx, hslot⟩ := List.mem_map.1 hmem
  have hid := id_of_selections ops h hx hslot
  subst hslot hid
  exact hx

/-- The worker runs a task until it yields. -/
def oneTurn : List (Nat × Op) :=
  [(1, .runOne 0), (1, .own), (1, .switchTo), (1, .start), (1, .yield false), (1, .switchAway),
    (1, .settle), (1, .release)]

/-- Two tasks take turns. -/
theorem turn_twoTasks : (0, 1) ∈ selections 1 ([(0, .create 1), (0, .create 1)].foldl step twoCores)
    (List.replicate 16 oneTurn).flatten :=
  turn_within (by decide) _ (by decide +kernel) (by decide +kernel)

end RadKernel.Sched
