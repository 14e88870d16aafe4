import Mathlib.Data.Multiset.UnionInter
import RadKernel.Radinit.Model

/-!
# Records and children

A record that runs holds the key of a child: its pid and the name of the service. Forking
gives the record a key and the kernel a child, reaping takes both away. So the keys of the
children stay those that the records hold.
-/

namespace RadKernel.Radinit

variable {s : Service} {w w' : World} {pid : Int} {name n : Name} {log : List Entry}

abbrev Key := Int × Name

def Child.key (child : Child) : Key := (child.pid, child.service)

def World.keys (w : World) : Multiset Key := (w.children.map Child.key : List Key)

/-- The key of the child of a running record. -/
def Service.holding (s : Service) : Multiset Key :=
  if s.state = .running ∧ 0 < s.pid then {(s.pid, s.name)} else 0

/-- The pids of the children are positive, and no two are the same. -/
structure World.Ok (w : World) : Prop where
  nodup : (w.children.map Child.pid).Nodup
  pos : ∀ child ∈ w.children, 0 < child.pid

/-- Only a running record has a pid. -/
def Tidy (s : Service) : Prop := s.pid ≠ 0 → s.state = .running ∧ 0 < s.pid

/-! ## The log -/

/-- The service was stopped, and no command for it came since. -/
def Stopped (n : Name) : List Entry → Prop
  | [] => False
  | .stopped m :: log => m = n ∨ Stopped n log
  | .commanded m :: log => m ≠ n ∧ Stopped n log
  | _ :: log => Stopped n log

/-- No service was started while it was stopped. -/
def Obedient : List Entry → Prop
  | [] => True
  | .forked n :: log => ¬ Stopped n log ∧ Obedient log
  | _ :: log => Obedient log

/-- The number of automatic restarts of a service. -/
def restartCount (n : Name) (log : List Entry) : Nat := log.count (.restarted n)

/-! ## System calls -/

theorem Child.after_pid (exits : List (Int × Int)) (child : Child) :
    (child.after exits).pid = child.pid := by
  unfold Child.after
  split <;> rfl

theorem Child.after_key (exits : List (Int × Int)) (child : Child) :
    (child.after exits).key = child.key := by
  unfold Child.after
  split <;> rfl

theorem keys_after (children : List Child) (exits : List (Int × Int)) :
    (children.map (Child.after exits)).map Child.key = children.map Child.key := by
  rw [List.map_map]
  exact List.map_congr_left fun child _ => Child.after_key exits child

theorem pids_after (children : List Child) (exits : List (Int × Int)) :
    (children.map (Child.after exits)).map Child.pid = children.map Child.pid := by
  rw [List.map_map]
  exact List.map_congr_left fun child _ => Child.after_pid exits child

theorem World.Ok.after (h : w.Ok) (exits : List (Int × Int)) (hw : w'.children =
      w.children.map (Child.after exits)) : w'.Ok := by
  refine ⟨?_, ?_⟩
  · rw [hw, pids_after]
    exact h.nodup
  · intro child hchild
    rw [hw] at hchild
    obtain ⟨old, hold, rfl⟩ := List.mem_map.1 hchild
    rw [Child.after_pid]
    exact h.pos old hold

theorem World.tick_ok (h : w.Ok) : w.tick.Ok := h.after _ rfl

@[simp] theorem World.tick_keys (w : World) : w.tick.keys = w.keys :=
  congrArg (fun keys : List Key => (keys : Multiset Key)) (keys_after w.children _)

@[simp] theorem World.tick_log (w : World) : w.tick.log = w.log := rfl

theorem World.record_ok (h : w.Ok) (entry : Entry) : (w.record entry).Ok := ⟨h.nodup, h.pos⟩

/-- A fork fails, or there is one child more. -/
theorem fork_spec (hok : w.Ok) (name : Name) :
    (fork w name).2.Ok ∧
      ((fork w name).1 < 0 ∧ (fork w name).2.keys = w.keys ∧ (fork w name).2.log = w.log ∨
        0 < (fork w name).1 ∧ (fork w name).2.keys = ((fork w name).1, name) ::ₘ w.keys ∧
          (fork w name).2.log = .forked name :: w.log) := by
  rw [fork]
  split_ifs with hfresh hneg
  · obtain ⟨hpos, hnew⟩ := hfresh
    refine ⟨⟨List.nodup_cons.2 ⟨hnew, (World.tick_ok hok).nodup⟩, ?_⟩, .inr ⟨hpos, ?_, rfl⟩⟩
    · intro child hchild
      rcases List.mem_cons.1 hchild with rfl | hold
      · exact hpos
      · exact (World.tick_ok hok).pos child hold
    · rw [← World.tick_keys w]
      rfl
  · exact ⟨World.tick_ok hok, .inl ⟨hneg, World.tick_keys w, rfl⟩⟩
  · exact ⟨World.tick_ok hok, .inl ⟨show (-1 : Int) < 0 by decide, World.tick_keys w, rfl⟩⟩

theorem filter_pid (children : List Child) (h : (children.map Child.pid).Nodup) {child : Child}
    (hfind : children.find? (·.pid = pid) = some child) :
    child.pid = pid ∧ (children.map Child.key : Multiset Key) =
      child.key ::ₘ ((children.filter (·.pid ≠ pid)).map Child.key : List Key) := by
  induction children with
  | nil => cases hfind
  | cons c children ih =>
    rw [List.map_cons, List.nodup_cons] at h
    by_cases hc : c.pid = pid
    · rw [List.find?_cons_of_pos (by simpa using hc), Option.some.injEq] at hfind
      subst hfind
      have hrest : children.filter (fun d => decide (d.pid ≠ pid)) = children := by
        refine List.filter_eq_self.2 fun d hd => decide_eq_true fun heq => h.1 ?_
        rw [hc, ← heq]
        exact List.mem_map_of_mem hd
      refine ⟨hc, ?_⟩
      rw [List.filter_cons_of_neg (by simpa using hc), hrest]
      rfl
    · rw [List.find?_cons_of_neg (by simpa using hc)] at hfind
      obtain ⟨hpid, hkeys⟩ := ih h.2 hfind
      refine ⟨hpid, ?_⟩
      rw [List.filter_cons_of_pos (by simpa using hc), List.map_cons, List.map_cons,
        ← Multiset.cons_coe, ← Multiset.cons_coe, hkeys, Multiset.cons_swap]

/-- A call for a child reaps it, or leaves the children as they are. -/
theorem waitpid_spec (nohang : Bool) (hok : w.Ok) (hmem : (pid, name) ∈ w.keys) :
    (waitpid w pid nohang).2.2.Ok ∧ (waitpid w pid nohang).2.2.log = w.log ∧
      ((waitpid w pid nohang).1 = pid ∧ w.keys = (pid, name) ::ₘ (waitpid w pid nohang).2.2.keys ∨
        nohang = true ∧ (waitpid w pid nohang).1 = 0 ∧ (waitpid w pid nohang).2.2.keys = w.keys) := by
  have hok' := World.tick_ok hok
  rw [← World.tick_keys] at hmem ⊢
  obtain ⟨child, hchild, hkey⟩ := List.mem_map.1 (Multiset.mem_coe.1 hmem)
  cases hfind : w.tick.children.find? (·.pid = pid) with
  | none =>
    have hpid : child.pid = pid := congrArg Prod.fst hkey
    exact absurd (decide_eq_true hpid) (List.find?_eq_none.1 hfind child hchild)
  | some found =>
    obtain ⟨hpid, hkeys⟩ := filter_pid _ hok'.nodup hfind
    have hfound : found = child := by
      refine List.inj_on_of_nodup_map hok'.nodup (List.mem_of_find?_eq_some hfind) hchild ?_
      rw [hpid]
      exact (congrArg Prod.fst hkey).symm
    rw [hfound, hkey] at hkeys
    have hreaped : ({ w.tick with
        children := w.tick.children.filter fun c => decide (c.pid ≠ pid) } : World).Ok :=
      ⟨(List.filter_sublist.map _).nodup hok'.nodup,
        fun c hc => hok'.pos c (List.mem_filter.1 hc).1⟩
    rw [waitpid]
    simp only [hfind]
    cases found.exit with
    | some status => exact ⟨hreaped, rfl, .inl ⟨rfl, hkeys⟩⟩
    | none =>
      cases nohang with
      | true => exact ⟨hok', rfl, .inr ⟨rfl, rfl, rfl⟩⟩
      | false => exact ⟨hreaped, rfl, .inl ⟨rfl, hkeys⟩⟩

theorem kill_spec (hok : w.Ok) (pid : Int) :
    (kill w pid).2.Ok ∧ (kill w pid).2.log = w.log ∧ (kill w pid).2.keys = w.keys := by
  have hok' := World.tick_ok hok
  rw [kill]
  cases w.tick.children.find? (·.pid = pid) with
  | none => exact ⟨hok', rfl, World.tick_keys w⟩
  | some child =>
    simp only
    cases child.exit with
    | some status => exact ⟨hok', rfl, World.tick_keys w⟩
    | none =>
      refine ⟨hok'.after _ rfl, rfl, ?_⟩
      rw [← World.tick_keys w]
      exact congrArg (fun keys : List Key => (keys : Multiset Key)) (keys_after w.tick.children _)

end RadKernel.Radinit
