import Mathlib.Algebra.BigOperators.Group.Finset.Basic
import RadKernel.Lib.Run
import RadKernel.Radinit.Records

/-!
# Supervision

The records of all services together hold the keys of the children. A call on one record
keeps it so, and a reload does when the new files have distinct names and none is missing of a
service with a child or with restarts.
-/

namespace RadKernel.Radinit

open List

variable {s s' : Service} {w w' : World} {n : Name} {services early later : List Service}
  {directory : Directory} {r : Manager} {i : Nat}

def names (services : List Service) : List Name := services.map fun s => s.name

/-- Each child is the pid of one record, which runs; the record of a running service has a
child; a stopped service has none and is not started; and none is restarted too often. -/
structure Supervised (r : Manager) : Prop where
  child : ∀ c ∈ r.world.children,
    ∃ s, r.services.filter (·.pid = c.pid) = [s] ∧ s.state = .running
  running : ∀ s ∈ r.services, s.state = .running → 0 < s.pid →
    ∃ c ∈ r.world.children, c.pid = s.pid
  stopped : ∀ n, Stopped n r.world.log → ∀ c ∈ r.world.children, c.service ≠ n
  obedient : Obedient r.world.log
  restarts : ∀ n, restartCount n r.world.log ≤ maxRestarts

/-! ## The invariant -/

structure Sound (services : List Service) (w : World) : Prop where
  nodup : (names services).Nodup
  balance : (services.map Service.holding).sum = w.keys
  ok : w.Ok
  obedient : Obedient w.log
  tidy : ∀ s ∈ services, Tidy s
  count : ∀ s ∈ services, restartCount s.name w.log = s.restarts
  bound : ∀ s ∈ services, s.restarts ≤ maxRestarts
  quiet : ∀ s ∈ services, Stopped s.name w.log → s.holding = 0
  absent : ∀ n, n ∉ names services → restartCount n w.log = 0

theorem Sound.good (h : Sound (early ++ s :: later) w) : Good s w := by
  have hs : s ∈ early ++ s :: later := by simp
  refine ⟨h.tidy s hs, ?_, h.ok, h.count s hs, h.bound s hs, h.quiet s hs, h.obedient⟩
  rw [← h.balance, map_append, map_cons, sum_append, sum_cons, add_left_comm]
  exact Multiset.le_add_right _ _

/-- A call on one record. -/
theorem Sound.acts (h : Sound (early ++ s :: later) w) (ha : Acts s w s' w') :
    Sound (early ++ s' :: later) w' := by
  have hnames : names (early ++ s' :: later) = names (early ++ s :: later) := by
    simp only [names, map_append, map_cons, ha.name]
  have hnodup := h.nodup
  rw [names, map_append, map_cons, nodup_middle, nodup_cons] at hnodup
  have hother : ∀ t, t ∈ early ∨ t ∈ later → t.name ≠ s.name := by
    intro t ht heq
    refine hnodup.1 ?_
    rw [← heq, ← map_append]
    exact mem_map_of_mem (List.mem_append.2 ht)
  have hcases : ∀ t ∈ early ++ s' :: later,
      t = s' ∨ t.name ≠ s.name ∧ t ∈ early ++ s :: later := by
    intro t ht
    rcases List.mem_append.1 ht with ht | ht
    · exact .inr ⟨hother t (.inl ht), mem_append_left _ ht⟩
    · rcases List.mem_cons.1 ht with rfl | ht
      · exact .inl rfl
      · exact .inr ⟨hother t (.inr ht), by simp [ht]⟩
  refine ⟨hnames ▸ h.nodup, ?_, ha.good.ok, ha.good.obedient, ?_, ?_, ?_, ?_, ?_⟩
  · have hbalance := ha.balance
    rw [← h.balance] at hbalance
    simp only [map_append, map_cons, sum_append, sum_cons] at hbalance ⊢
    refine add_right_cancel (b := s.holding) ?_
    rw [hbalance]
    ac_rfl
  · intro t ht
    rcases hcases t ht with rfl | ⟨-, hold⟩
    · exact ha.good.tidy
    · exact h.tidy t hold
  · intro t ht
    rcases hcases t ht with rfl | ⟨hne, hold⟩
    · exact ha.good.count
    · rw [ha.counts _ hne]
      exact h.count t hold
  · intro t ht
    rcases hcases t ht with rfl | ⟨-, hold⟩
    · exact ha.good.bound
    · exact h.bound t hold
  · intro t ht
    rcases hcases t ht with rfl | ⟨hne, hold⟩
    · exact ha.good.quiet
    · rw [ha.stopped _ hne]
      exact h.quiet t hold
  · intro n hn
    rw [hnames] at hn
    have hne : n ≠ s.name := by
      rintro rfl
      exact hn (by simp [names])
    rw [ha.counts n hne]
    exact h.absent n hn

section
variable (h : Sound services w) (hs : services[i]? = some s)
include h hs

theorem Sound.set (ha : Acts s w s' w') : Sound (services.set i s') w' := by
  obtain ⟨hi, hget⟩ := List.getElem?_eq_some_iff.1 hs
  have hsplit : services = services.take i ++ s :: services.drop (i + 1) := by
    rw [← hget, getElem_cons_drop, take_append_drop]
  rw [set_eq_take_append_cons_drop, if_pos hi]
  rw [hsplit] at h
  exact h.acts ha

theorem Sound.good_of_getElem? : Good s w := by
  obtain ⟨hi, hget⟩ := List.getElem?_eq_some_iff.1 hs
  have hsplit : services = services.take i ++ s :: services.drop (i + 1) := by
    rw [← hget, getElem_cons_drop, take_append_drop]
  rw [hsplit] at h
  exact h.good

end

theorem superviseServices_sound (services : List Service) :
    ∀ (early : List Service) (w : World), Sound (early ++ services) w →
      Sound (early ++ (superviseServices services w).1) (superviseServices services w).2 := by
  induction services with
  | nil => exact fun _ _ h => h
  | cons s services ih =>
    intro early w h
    have hacts := h.acts (superviseService_acts h.good)
    rw [append_cons] at hacts
    have hrest := ih _ _ hacts
    rw [superviseServices]
    rw [append_cons]
    exact hrest

/-! ## Reloads -/

theorem insertService_perm (value : Service) (services : List Service) :
    (insertService value services).Perm (value :: services) := by
  induction services with
  | nil => exact .refl _
  | cons last rest ih =>
    rw [insertService]
    split_ifs
    · exact (ih.cons last).trans (.swap _ _ _)
    · exact .refl _

theorem sortServices_perm (services : List Service) : (sortServices services).Perm services := by
  have hall : ∀ (services sorted : List Service),
      (services.foldl (fun sorted value => insertService value sorted) sorted).Perm
        (services ++ sorted) := by
    intro services
    induction services with
    | nil => exact fun _ => .refl _
    | cons value services ih =>
      intro sorted
      refine (ih _).trans ?_
      exact ((insertService_perm value sorted).append_left services).trans perm_middle
  refine (reverse_perm _).trans ?_
  have := hall services []
  rwa [append_nil] at this

/-- The records of the service files, in their order. -/
def fromFiles (directory : Directory) : List Service :=
  sortServices (loadServicesFromDir directory maxServices)

theorem of_mem_fromFiles (h : s ∈ fromFiles directory) : s.pid = 0 ∧ s.restarts = 0 := by
  have hload := (sortServices_perm _).mem_iff.1 h
  obtain ⟨entry, -, hentry⟩ := List.mem_filterMap.1 (mem_of_mem_take hload)
  unfold loadService at hentry
  split at hentry
  · cases hentry
  · split_ifs at hentry
    cases hentry
    exact ⟨rfl, rfl⟩

/-- The files have distinct names, and there is one for each service with a child or with
restarts. -/
structure Keeps (services : List Service) (directory : Directory) : Prop where
  distinct : (names (fromFiles directory)).Nodup
  kept : ∀ s ∈ services, s.pid ≠ 0 ∨ s.restarts ≠ 0 → s.name ∈ names (fromFiles directory)

/-- The record of a name, if there is one. -/
def recordOf (services : List Service) (n : Name) : Option Service :=
  services.find? (·.name = n)

theorem recordOf_mem (h : (names services).Nodup) (hs : s ∈ services) :
    recordOf services s.name = some s := by
  rw [recordOf]
  cases hfind : services.find? (·.name = s.name) with
  | none => exact absurd (decide_eq_true rfl) (List.find?_eq_none.1 hfind s hs)
  | some t =>
    have hname : t.name = s.name := by simpa using List.find?_some hfind
    rw [inj_on_of_nodup_map h (mem_of_find?_eq_some hfind) hs hname]

theorem recordOf_some (h : recordOf services n = some s) : s ∈ services ∧ s.name = n :=
  ⟨mem_of_find?_eq_some h, by simpa using List.find?_some h⟩

/-- The key of the child of the record of a name. -/
def holdingOf (services : List Service) (n : Name) : Multiset Key :=
  ((recordOf services n).map Service.holding).getD 0

theorem sum_holding (h : (names services).Nodup) :
    (services.map Service.holding).sum =
      ∑ n ∈ (names services).toFinset, holdingOf services n := by
  rw [sum_toFinset _ h, names, map_map]
  refine congrArg List.sum (map_congr_left fun s hs => ?_)
  rw [Function.comp, holdingOf, recordOf_mem h hs, Option.map_some, Option.getD_some]

def reloaded (services : List Service) (fresh : Service) : Service :=
  match recordOf services fresh.name with
  | none => fresh
  | some previous => preserveRuntimeState fresh previous

section
variable (services)

theorem reloadServices_eq (directory : Directory) :
    reloadServices services directory = (fromFiles directory).map (reloaded services) := rfl

theorem reloaded_name (fresh : Service) : (reloaded services fresh).name = fresh.name := by
  unfold reloaded
  split <;> rfl

/-- A record keeps its child, its restarts and its state, or is new. -/
theorem reloaded_cases (hs : s ∈ fromFiles directory) :
    recordOf services s.name = none ∧ (reloaded services s).pid = 0 ∧
        (reloaded services s).restarts = 0 ∨
      ∃ previous ∈ services, previous.name = s.name ∧
        recordOf services s.name = some previous ∧
        (reloaded services s).pid = previous.pid ∧
        (reloaded services s).restarts = previous.restarts ∧
        (reloaded services s).state = previous.state := by
  obtain ⟨hpid, hrestarts⟩ := of_mem_fromFiles hs
  unfold reloaded
  cases hrecord : recordOf services s.name with
  | none => exact .inl ⟨rfl, hpid, hrestarts⟩
  | some previous =>
    obtain ⟨hmem, hname⟩ := recordOf_some hrecord
    exact .inr ⟨previous, hmem, hname, rfl, rfl, rfl, rfl⟩

end

theorem reloaded_holding (hs : s ∈ fromFiles directory) :
    (reloaded services s).holding = holdingOf services s.name := by
  rw [holdingOf]
  rcases reloaded_cases services hs with
    ⟨hnone, hpid, -⟩ | ⟨previous, -, hname, hrecord, hpid, -, hstate⟩
  · rw [hnone, holding_of_idle hpid]
    rfl
  · rw [hrecord, Option.map_some, Option.getD_some, Service.holding, Service.holding, hpid, hstate,
      reloaded_name, hname]

theorem names_reloadServices (services : List Service) (directory : Directory) :
    names (reloadServices services directory) = names (fromFiles directory) := by
  rw [reloadServices_eq, names, map_map, names]
  exact map_congr_left fun s _ => reloaded_name services s

theorem reloadServices_sound (h : Sound services w) (hkeeps : Keeps services directory) :
    Sound (reloadServices services directory) w := by
  have hnames := names_reloadServices services directory
  have hmem : ∀ t ∈ reloadServices services directory, ∃ s ∈ fromFiles directory,
      t = reloaded services s := by
    intro t ht
    obtain ⟨s, hs, rfl⟩ := List.mem_map.1 ht
    exact ⟨s, hs, rfl⟩
  have hfresh : ∀ n, recordOf services n = none → restartCount n w.log = 0 := by
    intro n hnone
    refine h.absent n fun hn => ?_
    obtain ⟨s, hs, rfl⟩ := List.mem_map.1 hn
    rw [recordOf_mem h.nodup hs] at hnone
    cases hnone
  refine ⟨hnames ▸ hkeeps.distinct, ?_, h.ok, h.obedient, ?_, ?_, ?_, ?_, ?_⟩
  · rw [← h.balance, sum_holding h.nodup, reloadServices_eq, map_map]
    have hmap : (fromFiles directory).map (Service.holding ∘ reloaded services) =
        (names (fromFiles directory)).map (holdingOf services) := by
      rw [names, map_map]
      exact map_congr_left fun s hs => reloaded_holding hs
    rw [hmap, ← sum_toFinset _ hkeeps.distinct]
    refine Finset.sum_congr_of_eq_on_inter (fun n _ hn => ?_) (fun n hn hlost => ?_)
      fun _ _ _ => rfl
    · rw [mem_toFinset] at hn
      cases hrecord : recordOf services n with
      | none => rw [holdingOf, hrecord]; rfl
      | some s =>
        obtain ⟨hs, rfl⟩ := recordOf_some hrecord
        exact absurd (mem_map_of_mem hs) hn
    · rw [mem_toFinset] at hn hlost
      obtain ⟨s, hs, rfl⟩ := List.mem_map.1 hn
      rw [holdingOf, recordOf_mem h.nodup hs, Option.map_some, Option.getD_some]
      refine holding_of_idle ?_
      by_contra hpid
      exact hlost (hkeeps.kept s hs (.inl hpid))
  · intro t ht
    obtain ⟨s, hs, rfl⟩ := hmem t ht
    rcases reloaded_cases services hs with
      ⟨-, hpid, -⟩ | ⟨previous, hprevious, -, -, hpid, -, hstate⟩
    · exact tidy_of_idle hpid
    · intro hne
      rw [hpid] at hne ⊢
      rw [hstate]
      exact h.tidy previous hprevious hne
  · intro t ht
    obtain ⟨s, hs, rfl⟩ := hmem t ht
    rw [reloaded_name]
    rcases reloaded_cases services hs with
      ⟨hnone, -, hrestarts⟩ | ⟨previous, hprevious, hname, -, -, hrestarts, -⟩
    · rw [hrestarts]
      exact hfresh _ hnone
    · rw [hrestarts, ← hname]
      exact h.count previous hprevious
  · intro t ht
    obtain ⟨s, hs, rfl⟩ := hmem t ht
    rcases reloaded_cases services hs with
      ⟨-, -, hrestarts⟩ | ⟨previous, hprevious, -, -, -, hrestarts, -⟩
    · rw [hrestarts]
      exact Nat.zero_le _
    · rw [hrestarts]
      exact h.bound previous hprevious
  · intro t ht
    obtain ⟨s, hs, rfl⟩ := hmem t ht
    rw [reloaded_name, reloaded_holding hs, holdingOf]
    intro hstopped
    cases hrecord : recordOf services s.name with
    | none => rfl
    | some previous =>
      obtain ⟨hprevious, hname⟩ := recordOf_some hrecord
      exact h.quiet previous hprevious (hname ▸ hstopped)
  · intro n hn
    rw [hnames] at hn
    cases hrecord : recordOf services n with
    | none => exact hfresh n hrecord
    | some s =>
      obtain ⟨hs, rfl⟩ := recordOf_some hrecord
      rw [h.count s hs]
      by_contra hrestarts
      exact hn (hkeeps.kept s hs (.inr hrestarts))

end RadKernel.Radinit
