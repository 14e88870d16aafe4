import Mathlib.Algebra.Order.Group.Multiset
import RadKernel.Radinit.Children

/-!
# Calls on one record

Starting, stopping and supervising a service work on its record and its child. Whatever exits
meanwhile, the key of the record is that of its child, no stopped service is started, and the
automatic restarts are those that the record counts.
-/

namespace RadKernel.Radinit

variable {s s' s'' : Service} {w w' w'' : World} {n : Name} {log : List Entry}
  {verb : List Char} {manual : Bool}

/-- What holds of a record and the kernel. -/
structure Good (s : Service) (w : World) : Prop where
  tidy : Tidy s
  held : s.holding ≤ w.keys
  ok : w.Ok
  count : restartCount s.name w.log = s.restarts
  bound : s.restarts ≤ maxRestarts
  quiet : Stopped s.name w.log → s.holding = 0
  obedient : Obedient w.log

/-- A call on one record that keeps it so and leaves other services alone. -/
structure Acts (s : Service) (w : World) (s' : Service) (w' : World) : Prop where
  name : s'.name = s.name
  balance : w'.keys + s.holding = w.keys + s'.holding
  stopped : ∀ n, n ≠ s.name → (Stopped n w'.log ↔ Stopped n w.log)
  counts : ∀ n, n ≠ s.name → restartCount n w'.log = restartCount n w.log
  good : Good s' w'

theorem holding_of_idle (h : s.pid = 0) : s.holding = 0 := by
  rw [Service.holding, if_neg]
  rintro ⟨-, hpos⟩
  omega

theorem tidy_of_idle (h : s.pid = 0) : Tidy s := fun hne => absurd h hne

theorem holding_of_running (hstate : s.state = .running) (hpid : 0 < s.pid) :
    s.holding = {(s.pid, s.name)} := if_pos ⟨hstate, hpid⟩

theorem Tidy.idle (h : Tidy s) (hnot : ¬ (s.state = .running ∧ 0 < s.pid)) : s.pid = 0 := by
  by_contra hne
  exact hnot (h hne)

theorem Acts.refl (h : Good s w) : Acts s w s w :=
  ⟨rfl, rfl, fun _ _ => Iff.rfl, fun _ _ => rfl, h⟩

theorem Acts.trans (h : Acts s w s' w') (h' : Acts s' w' s'' w'') : Acts s w s'' w'' where
  name := h'.name.trans h.name
  balance := by
    have hsum : w''.keys + s.holding + s'.holding = w.keys + s''.holding + s'.holding := by
      calc w''.keys + s.holding + s'.holding
          = w''.keys + s'.holding + s.holding := add_right_comm _ _ _
        _ = w'.keys + s.holding + s''.holding := by rw [h'.balance, add_right_comm]
        _ = w.keys + s''.holding + s'.holding := by rw [h.balance, add_right_comm]
    exact add_right_cancel hsum
  stopped n hn := (h'.stopped n (h.name ▸ hn)).trans (h.stopped n hn)
  counts n hn := (h'.counts n (h.name ▸ hn)).trans (h.counts n hn)
  good := h'.good

/-- The record still has a child when it had one before. -/
theorem held_of_balance (h : s.holding ≤ w.keys)
    (hbalance : w'.keys + s.holding = w.keys + s'.holding) : s'.holding ≤ w'.keys := by
  obtain ⟨rest, hrest⟩ := Multiset.le_iff_exists_add.1 h
  rw [hrest, add_assoc, add_comm s.holding] at hbalance
  rw [add_right_cancel hbalance]
  exact Multiset.le_add_left _ _

section
variable (h : Good s w)
include h

/-- A change of the record and its child that the log says nothing of. -/
theorem Good.acts (hname : s'.name = s.name) (hrestarts : s'.restarts = s.restarts)
    (htidy : Tidy s') (hbalance : w'.keys + s.holding = w.keys + s'.holding) (hok : w'.Ok)
    (hlog : w'.log = w.log) (hquiet : Stopped s.name w.log → s'.holding = 0) : Acts s w s' w' := by
  refine ⟨hname, hbalance, fun _ _ => by rw [hlog], fun _ _ => by rw [hlog], ?_⟩
  refine ⟨htidy, held_of_balance h.held hbalance, hok, ?_, ?_, ?_, ?_⟩
  · rw [hname, hlog, hrestarts]
    exact h.count
  · rw [hrestarts]
    exact h.bound
  · rwa [hname, hlog]
  · rw [hlog]
    exact h.obedient

/-- A record without a child whose other fields change. -/
theorem Good.idle (hpid : s.pid = 0) (hname : s'.name = s.name)
    (hrestarts : s'.restarts = s.restarts) (hpid' : s'.pid = 0) (hok : w'.Ok)
    (hkeys : w'.keys = w.keys) (hlog : w'.log = w.log) : Acts s w s' w' := by
  refine h.acts hname hrestarts (tidy_of_idle hpid') ?_ hok hlog fun _ => holding_of_idle hpid'
  rw [hkeys, holding_of_idle hpid, holding_of_idle hpid']

/-- The kernel moves on. -/
theorem Good.tick (hok : w'.Ok) (hkeys : w'.keys = w.keys)
    (hlog : w'.log = w.log) : Acts s w s w' :=
  h.acts rfl rfl h.tidy (by rw [hkeys]) hok hlog h.quiet

/-- The child of a record is reaped. -/
theorem Good.reaped (hheld : s.holding = {(s.pid, s.name)})
    (hname : s'.name = s.name) (hrestarts : s'.restarts = s.restarts) (hpid' : s'.pid = 0)
    (hok : w'.Ok) (hkeys : w.keys = (s.pid, s.name) ::ₘ w'.keys) (hlog : w'.log = w.log) :
    Acts s w s' w' := by
  refine h.acts hname hrestarts (tidy_of_idle hpid') ?_ hok hlog fun _ => holding_of_idle hpid'
  rw [hkeys, hheld, holding_of_idle hpid', add_zero, add_comm, Multiset.singleton_add]

theorem Good.mem_keys (hheld : s.holding = {(s.pid, s.name)}) : (s.pid, s.name) ∈ w.keys := by
  have hle := h.held
  rw [hheld] at hle
  exact Multiset.singleton_le.1 hle

end

/-! ## Starting -/

theorem waitReady_acts (polls : Nat) :
    ∀ (s : Service) (w : World), Good s w → s.holding = {(s.pid, s.name)} →
      Acts s w (waitReady polls s w).2.1 (waitReady polls s w).2.2 := by
  induction polls with
  | zero => exact fun s w h _ => Acts.refl h
  | succ polls ih =>
    intro s w h hheld
    have htick : Acts s w s w.tick :=
      h.tick (World.tick_ok h.ok) (World.tick_keys w) (World.tick_log w)
    rw [waitReady]
    split_ifs with hmarker hready
    · exact Acts.refl h
    · exact htick
    obtain ⟨hok, hlog, hwait⟩ :=
      waitpid_spec true htick.good.ok (htick.good.mem_keys hheld)
    generalize waitpid w.tick s.pid true = answer at hok hlog hwait
    obtain ⟨waited, status, w'⟩ := answer
    refine htick.trans ?_
    simp only at hok hlog hwait ⊢
    rcases hwait with ⟨hpid, hkeys⟩ | ⟨-, hzero, hkeys⟩
    · rw [if_pos hpid]
      exact htick.good.reaped hheld rfl rfl rfl hok hkeys hlog
    · have hmore : Acts s w.tick s w' := htick.good.tick hok hkeys hlog
      split_ifs with hpid
      · have hpos := htick.good.ok.pos
        obtain ⟨child, hchild, hkey⟩ := List.mem_map.1 (Multiset.mem_coe.1 (htick.good.mem_keys hheld))
        have hchildpid : child.pid = s.pid := congrArg Prod.fst hkey
        have := hpos child hchild
        omega
      · exact hmore.trans (ih s w' hmore.good hheld)

section
variable (h : Good s w)
include h

/-- A record gets a new child. -/
theorem Good.forked (hidle : s.pid = 0) (hstop : ¬ Stopped s.name w.log)
    {child : Int} (hchild : 0 < child) (hok : w'.Ok)
    (hkeys : w'.keys = (child, s.name) ::ₘ w.keys) (hlog : w'.log = .forked s.name :: w.log) :
    Acts s w { s with pid := child, exitStatus := 0, state := .running } w' := by
  have hholding : ({ s with pid := child, exitStatus := 0, state := .running } : Service).holding =
      {(child, s.name)} := holding_of_running rfl hchild
  have hbalance : w'.keys + s.holding =
      w.keys + ({ s with pid := child, exitStatus := 0, state := .running } : Service).holding := by
    rw [hkeys, hholding, holding_of_idle hidle, add_zero, add_comm, Multiset.singleton_add]
  refine ⟨rfl, hbalance, fun n _ => by rw [hlog]; rfl, fun n _ => ?_, ?_⟩
  · rw [hlog]
    exact List.count_cons_of_ne (by simp)
  · refine ⟨fun _ => ⟨rfl, hchild⟩, held_of_balance h.held hbalance, hok, ?_, h.bound, ?_, ?_⟩
    · rw [hlog]
      exact (List.count_cons_of_ne (by simp)).trans h.count
    · rw [hlog]
      exact fun hstopped => absurd hstopped hstop
    · rw [hlog]
      exact ⟨hstop, h.obedient⟩

theorem startService_acts (hidle : s.pid = 0)
    (hstop : s.isBuiltin = false → ¬ Stopped s.name w.log) :
    Acts s w (startService s manual w).2.1 (startService s manual w).2.2 := by
  rw [startService]
  split_ifs with hskip hbuiltin
  · exact Acts.refl h
  · exact h.idle hidle rfl rfl hidle h.ok rfl rfl
  obtain ⟨hok, hfork⟩ := fork_spec h.ok s.name
  generalize fork w s.name = answer at hok hfork
  obtain ⟨child, w₁⟩ := answer
  simp only at hok hfork ⊢
  rcases hfork with ⟨hneg, hkeys, hlog⟩ | ⟨hpos, hkeys, hlog⟩
  · rw [if_pos hneg]
    exact h.idle hidle rfl rfl hidle hok hkeys hlog
  · rw [if_neg (by omega)]
    have hforked := h.forked hidle (hstop (Bool.eq_false_of_not_eq_true hbuiltin)) hpos hok hkeys hlog
    have hheld : ({ s with pid := child, exitStatus := 0, state := .running } : Service).holding =
        {(child, s.name)} := holding_of_running rfl hpos
    refine hforked.trans ?_
    cases s.type with
    | simple => exact waitReady_acts _ _ _ hforked.good hheld
    | oneshot =>
      obtain ⟨hok₂, hlog₂, hwait⟩ :=
        waitpid_spec false hok (hforked.good.mem_keys hheld)
      generalize waitpid w₁ child false = answer at hok₂ hlog₂ hwait
      rcases hwait with ⟨hpid, hkeys₂⟩ | ⟨hfalse, -⟩
      · rw [if_pos hpid]
        exact hforked.good.reaped hheld rfl rfl rfl hok₂ hkeys₂ hlog₂
      · cases hfalse

/-! ## Stopping -/

theorem stopService_acts :
    Acts s w (stopService s w).2.1 (stopService s w).2.2 ∧
      (stopService s w).2.2.log = w.log ∧
      ((stopService s w).1 = 0 → (stopService s w).2.1.pid = 0) := by
  rw [stopService]
  by_cases hrunning : s.state = .running ∧ 0 < s.pid
  swap
  · have hidle := h.tidy.idle hrunning
    rw [if_pos (by rw [hidle]; exact .inr (Int.le_refl 0))]
    exact ⟨h.idle hidle rfl rfl rfl h.ok rfl rfl, rfl, fun _ => rfl⟩
  obtain ⟨hstate, hpos⟩ := hrunning
  rw [if_neg (by rw [hstate]; simpa using hpos)]
  have hheld := holding_of_running hstate hpos
  obtain ⟨hok, hlog, hkeys⟩ := kill_spec h.ok s.pid
  generalize kill w s.pid = answer at hok hlog hkeys
  obtain ⟨killed, w₁⟩ := answer
  simp only at hok hlog hkeys ⊢
  have hkilled : Acts s w s w₁ := h.tick hok hkeys hlog
  by_cases hneg : killed < 0
  · rw [if_pos hneg]
    exact ⟨hkilled, hlog, fun hzero => absurd hzero (by simp only; omega)⟩
  rw [if_neg hneg]
  obtain ⟨hok₂, hlog₂, hwait⟩ :=
    waitpid_spec false hok (hkilled.good.mem_keys hheld)
  generalize waitpid w₁ s.pid false = answer at hok₂ hlog₂ hwait
  simp only at hok₂ hlog₂ hwait ⊢
  rcases hwait with ⟨hpid, hkeys₂⟩ | ⟨hfalse, -⟩
  · exact ⟨hkilled.trans (hkilled.good.reaped hheld rfl rfl rfl hok₂ hkeys₂ hlog₂),
      hlog₂.trans hlog, fun _ => trivial⟩
  · cases hfalse

/-! ## Entries of the log -/

theorem Good.commanded : Acts s w s (w.record (.commanded s.name)) where
  name := rfl
  balance := rfl
  stopped n hn := ⟨fun hstopped => hstopped.2, fun hstopped => ⟨hn.symm, hstopped⟩⟩
  counts n _ := List.count_cons_of_ne (by simp)
  good :=
    { tidy := h.tidy
      held := h.held
      ok := World.record_ok h.ok _
      count := (List.count_cons_of_ne (by simp)).trans h.count
      bound := h.bound
      quiet := fun hstopped => absurd rfl hstopped.1
      obedient := h.obedient }

theorem Good.recordStopped (hidle : s.pid = 0) :
    Acts s w s (w.record (.stopped s.name)) where
  name := rfl
  balance := rfl
  stopped n hn := ⟨fun hstopped => hstopped.resolve_left hn.symm, .inr⟩
  counts n _ := List.count_cons_of_ne (by simp)
  good :=
    { tidy := h.tidy
      held := h.held
      ok := World.record_ok h.ok _
      count := (List.count_cons_of_ne (by simp)).trans h.count
      bound := h.bound
      quiet := fun _ => holding_of_idle hidle
      obedient := h.obedient }

theorem Good.recordRestarted (hidle : s.pid = 0) (hless : s.restarts < maxRestarts) :
    Acts s w { s with restarts := s.restarts + 1 } (w.record (.restarted s.name)) where
  name := rfl
  balance := rfl
  stopped n _ := Iff.rfl
  counts n hn := List.count_cons_of_ne (by simpa using hn.symm)
  good :=
    { tidy := h.tidy
      held := h.held
      ok := World.record_ok h.ok _
      count := by
        have hcount := h.count
        rw [restartCount] at hcount
        rw [restartCount, World.record, List.count_cons_self, hcount]
      bound := hless
      quiet := fun _ => holding_of_idle hidle
      obedient := h.obedient }

end

/-! ## Commands and supervision -/

theorem not_stopped_commanded (n : Name) (log : List Entry) :
    ¬ Stopped n (.commanded n :: log) := fun hstopped => hstopped.1 rfl

theorem Good.restarted (h : Good s w) (hidle : s.pid = 0) (hstop : ¬ Stopped s.name w.log) :
    Acts s w (startService { s with pid := 0, exitStatus := 0, state := .inactive } true w).2.1
      (startService { s with pid := 0, exitStatus := 0, state := .inactive } true w).2.2 := by
  have hreset : Acts s w { s with pid := 0, exitStatus := 0, state := .inactive } w :=
    h.idle hidle rfl rfl rfl h.ok rfl rfl
  exact hreset.trans (startService_acts hreset.good rfl fun _ => hstop)

theorem runCommand_acts (h : Good s w) :
    Acts s w (runCommand s verb w).1 (runCommand s verb w).2 := by
  have hcommanded := h.commanded
  rw [runCommand]
  by_cases hrestart : verb = ['r', 'e', 's', 't', 'a', 'r', 't']
  · rw [if_pos hrestart]
    by_cases hrunning : s.state = .running ∧ 0 < s.pid
    · simp only [if_pos hrunning]
      obtain ⟨hstop, hlog, hzero⟩ := stopService_acts hcommanded.good
      generalize stopService s (w.record (.commanded s.name)) = answer at hstop hlog hzero
      obtain ⟨stopped, s₁, w₁⟩ := answer
      by_cases hok : stopped = 0
      · rw [if_neg (not_not.2 hok)]
        refine (hcommanded.trans hstop).trans (hstop.good.restarted (hzero hok) ?_)
        rw [hlog, hstop.name]
        exact not_stopped_commanded _ _
      · rw [if_pos hok]
        exact hcommanded.trans hstop
    · simp only [if_neg hrunning]
      exact hcommanded.trans
        (hcommanded.good.restarted (h.tidy.idle hrunning) (not_stopped_commanded _ _))
  rw [if_neg hrestart]
  by_cases hstart : verb = ['s', 't', 'a', 'r', 't']
  · rw [if_pos hstart]
    by_cases hrunning : s.state = .running ∧ 0 < s.pid
    · simp only [if_pos hrunning]
      exact hcommanded
    · simp only [if_neg hrunning]
      exact hcommanded.trans (startService_acts hcommanded.good (h.tidy.idle hrunning)
        fun _ => not_stopped_commanded _ _)
  split_ifs with hverb
  · obtain ⟨hstop, -, hzero⟩ := stopService_acts h
    generalize stopService s w = answer at hstop hzero
    obtain ⟨status, s₁, w₁⟩ := answer
    simp only at hstop hzero ⊢
    by_cases hok : status = 0
    · rw [if_pos hok]
      exact hstop.trans (hstop.good.recordStopped (hzero hok))
    · rw [if_neg hok]
      exact hstop
  · exact Acts.refl h

theorem superviseService_acts (h : Good s w) :
    Acts s w (superviseService s w).1 (superviseService s w).2 := by
  rw [superviseService]
  by_cases hrunning : s.state = .running ∧ 0 < s.pid
  swap
  · rw [if_pos (by rw [h.tidy.idle hrunning]; exact .inr (Int.le_refl 0))]
    exact Acts.refl h
  obtain ⟨hstate, hpos⟩ := hrunning
  rw [if_neg (by rw [hstate]; simpa using hpos)]
  have hheld := holding_of_running hstate hpos
  have hawake : ¬ Stopped s.name w.log := by
    intro hstopped
    have hnone := h.quiet hstopped
    rw [hheld] at hnone
    exact Multiset.singleton_ne_zero _ hnone
  obtain ⟨hok, hlog, hwait⟩ := waitpid_spec true h.ok (h.mem_keys hheld)
  generalize waitpid w s.pid true = answer at hok hlog hwait
  obtain ⟨waited, status, w₁⟩ := answer
  simp only at hok hlog hwait ⊢
  rcases hwait with ⟨hpid, hkeys⟩ | ⟨-, hzero, hkeys⟩
  · rw [if_pos hpid]
    have hreaped : Acts s w (s.ended status) w₁ := h.reaped hheld rfl rfl rfl hok hkeys hlog
    split_ifs with hagain
    · have hcounted := hreaped.good.recordRestarted rfl hagain.2
      refine (hreaped.trans hcounted).trans (startService_acts hcounted.good rfl fun _ => ?_)
      intro hstopped
      exact hawake (hlog ▸ hstopped)
    · exact hreaped
  · rw [if_neg (by omega)]
    exact h.tick hok hkeys hlog

end RadKernel.Radinit
