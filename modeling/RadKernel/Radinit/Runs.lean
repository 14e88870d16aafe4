import RadKernel.Radinit.Supervision

/-!
# Runs of the service manager

Every step of `radinit_main` keeps the records and the children together, as long as the boot
loop starts no service that a command has started or stopped before, and no reload drops or
doubles a record that matters.
-/

namespace RadKernel.Radinit

variable {s t : Service} {w w' : World} {services : List Service} {directory : Directory}
  {control : List Char} {r : Manager} {outside : Outside}

/-- The control file asks for the service files to be read again. -/
def IsReload (control : List Char) : Prop :=
  (nextWord control).1 = ['r', 'e', 'l', 'o', 'a', 'd'] ∨
    (nextWord control).1 = ['l', 'i', 's', 't']

instance (control : List Char) : Decidable (IsReload control) :=
  inferInstanceAs (Decidable (_ ∨ _))

/-- A boot start finds the record without a child, and its service not stopped by a command;
a reload keeps the records that matter. -/
def Orderly (r : Manager) (outside : Outside) : Prop :=
  match r.phase with
  | .boot i =>
    ∀ s, r.services[i]? = some s → s.autostart = true →
      s.pid = 0 ∧ (s.isBuiltin = false → ¬ Stopped s.name r.world.log)
  | .control _ => IsReload outside.control → Keeps r.services outside.directory
  | _ => True

/-- `radinit` has read the service files. -/
def Booted (r : Manager) : Prop := ∃ directory, r = loaded directory

/-! ## Steps -/

theorem Sound.world (h : Sound services w) (hchildren : w'.children = w.children)
    (hlog : w'.log = w.log) : Sound services w' := by
  have hkeys : w'.keys = w.keys := by rw [World.keys, hchildren, World.keys]
  have hok : w'.Ok := ⟨hchildren ▸ h.ok.nodup, fun c hc => h.ok.pos c (hchildren ▸ hc)⟩
  exact ⟨h.nodup, hkeys ▸ h.balance, hok, hlog ▸ h.obedient, h.tidy, hlog ▸ h.count, h.bound,
    hlog ▸ h.quiet, hlog ▸ h.absent⟩

theorem processControlFile_sound (h : Sound services w)
    (hkeeps : IsReload control → Keeps services directory) :
    Sound (processControlFile services control directory w).1
      (processControlFile services control directory w).2 := by
  rw [processControlFile]
  by_cases hempty : control = []
  · rw [if_pos hempty]
    exact h
  rw [if_neg hempty]
  by_cases hreload : IsReload control
  · rw [IsReload] at hreload
    simp only [if_pos hreload]
    exact reloadServices_sound h (hkeeps hreload)
  rw [IsReload] at hreload
  simp only [if_neg hreload]
  split_ifs
  · exact h
  cases findService services (nextWord (nextWord control).2).1 with
  | none => exact h
  | some i =>
    cases hs : services[i]? with
    | none => simpa only [hs] using h
    | some s =>
      simp only [hs]
      exact h.set hs (runCommand_acts (h.good_of_getElem? hs))

theorem step_sound (h : Sound r.services r.world) (horderly : Orderly r outside) :
    Sound (step r outside).services (step r outside).world := by
  have hw : Sound r.services { r.world with moments := outside.moments, now := 0 } :=
    h.world rfl rfl
  rw [Orderly] at horderly
  rw [step]
  cases hphase : r.phase with
  | boot i =>
    rw [hphase] at horderly
    cases hs : r.services[i]? with
    | none => simpa only [hs] using hw
    | some s =>
      simp only [hs]
      refine hw.set hs ?_
      have hgood := hw.good_of_getElem? hs
      by_cases hauto : s.autostart = true
      · obtain ⟨hidle, hstop⟩ := horderly s hs hauto
        exact startService_acts hgood hidle hstop
      · rw [startService, if_pos ⟨rfl, Bool.eq_false_of_not_eq_true hauto⟩]
        exact Acts.refl hgood
  | stress i poll =>
    simp only
    split_ifs
    · exact superviseServices_sound r.services [] _ hw
    · exact hw
  | serve => exact superviseServices_sound r.services [] _ hw
  | control back =>
    rw [hphase] at horderly
    exact processControlFile_sound hw horderly

theorem Booted.sound (h : Booted r) (hnames : (names r.services).Nodup) :
    Sound r.services r.world := by
  obtain ⟨directory, rfl⟩ := h
  have hidle : ∀ s ∈ (loaded directory).services, s.pid = 0 ∧ s.restarts = 0 :=
    fun s hs => of_mem_fromFiles hs
  refine ⟨hnames, ?_, ⟨List.nodup_nil, fun c hc => by cases hc⟩, trivial,
    fun s hs => tidy_of_idle (hidle s hs).1, fun s hs => (hidle s hs).2.symm,
    fun s hs => (hidle s hs).2 ▸ Nat.zero_le _, fun s hs _ => holding_of_idle (hidle s hs).1,
    fun _ _ => rfl⟩
  refine List.sum_eq_zero fun k hk => ?_
  obtain ⟨s, hs, rfl⟩ := List.mem_map.1 hk
  exact holding_of_idle (hidle s hs).1

/-! ## What the invariant says -/

theorem exists_mem_of_mem_sum {k : Key} :
    ∀ {holdings : List (Multiset Key)}, k ∈ holdings.sum → ∃ held ∈ holdings, k ∈ held := by
  intro holdings
  induction holdings with
  | nil => intro hk; cases hk
  | cons held holdings ih =>
    intro hk
    rcases Multiset.mem_add.1 hk with hk | hk
    · exact ⟨held, List.mem_cons_self, hk⟩
    · obtain ⟨other, hother, hmem⟩ := ih hk
      exact ⟨other, List.mem_cons_of_mem _ hother, hmem⟩

theorem Sound.holder (h : Sound services w) {c : Child} (hc : c ∈ w.children) :
    ∃ s ∈ services, s.state = .running ∧ s.pid = c.pid ∧ s.name = c.service := by
  have hkey : c.key ∈ (services.map Service.holding).sum := by
    rw [h.balance]
    exact Multiset.mem_coe.2 (List.mem_map_of_mem hc)
  obtain ⟨held, hheld, hmem⟩ := exists_mem_of_mem_sum hkey
  obtain ⟨s, hs, rfl⟩ := List.mem_map.1 hheld
  rw [Service.holding] at hmem
  split_ifs at hmem with hrunning
  · have heq := Multiset.mem_singleton.1 hmem
    exact ⟨s, hs, hrunning.1, (congrArg Prod.fst heq).symm, (congrArg Prod.snd heq).symm⟩
  · cases hmem

theorem Sound.childOf (h : Sound services w) (hs : s ∈ services) (hstate : s.state = .running)
    (hpid : 0 < s.pid) : ∃ c ∈ w.children, c.pid = s.pid ∧ c.service = s.name := by
  obtain ⟨early, later, rfl⟩ := List.append_of_mem hs
  obtain ⟨c, hc, hkey⟩ := List.mem_map.1
    (Multiset.mem_coe.1 (h.good.mem_keys (holding_of_running hstate hpid)))
  exact ⟨c, hc, congrArg Prod.fst hkey, congrArg Prod.snd hkey⟩

theorem filter_eq_singleton {p : Service → Bool} (hnodup : services.Nodup) (hs : s ∈ services)
    (hp : p s) (hall : ∀ t ∈ services, p t → t = s) : services.filter p = [s] := by
  refine List.perm_singleton.1 ((List.perm_ext_iff_of_nodup (hnodup.filter _)
    (List.nodup_singleton s)).2 fun t => ?_)
  rw [List.mem_filter, List.mem_singleton]
  constructor
  · rintro ⟨ht, hpt⟩
    exact hall t ht hpt
  · rintro rfl
    exact ⟨hs, hp⟩

theorem Sound.supervised (h : Sound r.services r.world) : Supervised r where
  child c hc := by
    obtain ⟨s, hs, hstate, hpid, hname⟩ := h.holder hc
    refine ⟨s, filter_eq_singleton h.nodup.of_map hs (decide_eq_true hpid) ?_, hstate⟩
    intro t ht htpid
    have hpos := h.ok.pos c hc
    have htc : t.pid = c.pid := of_decide_eq_true htpid
    obtain ⟨htstate, htpos⟩ := h.tidy t ht (by omega)
    obtain ⟨d, hd, hdpid, hdname⟩ := h.childOf ht htstate htpos
    have hdc : d = c := List.inj_on_of_nodup_map h.ok.nodup hd hc (hdpid.trans htc)
    refine List.inj_on_of_nodup_map h.nodup ht hs ?_
    rw [← hdname, hdc, hname]
  running s hs hstate hpid := by
    obtain ⟨c, hc, hcpid, -⟩ := h.childOf hs hstate hpid
    exact ⟨c, hc, hcpid⟩
  stopped n hn c hc heq := by
    obtain ⟨s, hs, hstate, hpid, hname⟩ := h.holder hc
    have hpos := h.ok.pos c hc
    have hnone := h.quiet s hs (by rw [hname, heq]; exact hn)
    rw [holding_of_running hstate (by omega)] at hnone
    exact Multiset.singleton_ne_zero _ hnone
  obedient := h.obedient
  restarts n := by
    by_cases hn : n ∈ names r.services
    · obtain ⟨s, hs, rfl⟩ := List.mem_map.1 hn
      rw [h.count s hs]
      exact h.bound s hs
    · rw [h.absent n hn]
      exact Nat.zero_le _

/-- In an orderly run with distinct names every child is kept track of. -/
theorem supervised_of_run
    (h : Run (Obeys step Orderly) (fun r => Booted r ∧ (names r.services).Nodup) r) :
    Supervised r := by
  refine Sound.supervised (Run.invariant (J := fun r => Sound r.services r.world) h ?_ ?_)
  · rintro r ⟨hbooted, hnames⟩
    exact hbooted.sound hnames
  · rintro r outside _ hsound ⟨horderly, rfl⟩
    exact step_sound hsound horderly

/-! ## Removed files -/

def shell : Config := { name := ['s', 'h'], exec := ['/', 's', 'h'], autostart := true }

def shellFile : Directory := [(['s', 'h'], some shell)]

/-- The kernel hands out pid 2, and no child exits. -/
def quiet : Outside where moments _ := { fork := 2 }

/-- The file of the running service is gone when the files are read again. -/
def removed : Outside where
  moments _ := { fork := 2 }
  control := ['r', 'e', 'l', 'o', 'a', 'd']

/-- The boot loop is over, the shell runs, and its record was looked at. -/
def served : Manager := [quiet, quiet, quiet].foldl step (loaded shellFile)

/-- A reload without the file of a running service loses its child. -/
theorem not_supervised_removed : ¬ ∀ r,
    Run (fun r outside r' => r' = step r outside) Booted r → Supervised r := by
  intro h
  have hrun : Run (fun r outside r' => r' = step r outside) Booted (step served removed) :=
    ((((Run.start ⟨shellFile, rfl⟩).step (k := quiet) rfl).step rfl).step (k := quiet) rfl).step rfl
  obtain ⟨s, hs, -⟩ := (h _ hrun).child { pid := 2, service := ['s', 'h'] } (by decide +kernel)
  revert hs
  have hnone : (step served removed).services = [] := by decide +kernel
  rw [hnone]
  simp

/-- The shell is kept track of once it is started. -/
theorem supervised_shell : Supervised (step (loaded shellFile) quiet) := by
  have hnames : (names (loaded shellFile).services).Nodup := by decide +kernel
  have horderly : Orderly (loaded shellFile) quiet := by
    intro s hs _
    cases hs
    exact ⟨rfl, fun _ hstopped => hstopped⟩
  exact supervised_of_run ((Run.start ⟨⟨shellFile, rfl⟩, hnames⟩).step ⟨horderly, rfl⟩)

end RadKernel.Radinit
