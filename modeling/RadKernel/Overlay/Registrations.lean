import RadKernel.Overlay.Pass

/-!
# The order of registrations

Controllers, drivers and interrupt domains are registered in some order, each registration binding
what is complete at that moment, and then the `bind` command is run. Which devices there are, and
which driver each one has, does not depend on the order. The interrupt resources of a device do: they
are resolved when the device is bound, and a device that is bound is passed over.
-/

namespace RadKernel.Overlay

open List

/-! ## Registrations -/

inductive Registration where
  | controller (config : BusControllerConfig)
  | driver (spec : BusDriverSpec)
  | domain (config : IrqDomainConfig)
  deriving DecidableEq, Repr

/-- All probes succeed, and there is room for the device of a controller. -/
def Buses.register (s : Buses) : Registration → Status × Buses
  | .controller config => radI2cControllerRegister s config .ok fun _ => .ok
  | .driver spec => radI2cDriverRegister s spec fun _ => .ok
  | .domain config => radIrqDomainRegister s config

/-- A domain may be there already, made from its node when a device was bound. -/
def Accepted : Registration → Status → Prop
  | .domain _, status => status = .ok ∨ status = .alreadyExists
  | _, status => status = .ok

instance (r : Registration) (status : Status) : Decidable (Accepted r status) := by
  cases r <;> unfold Accepted <;> infer_instance

def AllAccepted : Buses → List Registration → Prop
  | _, [] => True
  | s, r :: rest => Accepted r (s.register r).1 ∧ AllAccepted (s.register r).2 rest

instance AllAccepted.decidable : ∀ s l, Decidable (AllAccepted s l)
  | _, [] => isTrue trivial
  | s, r :: rest =>
    have := AllAccepted.decidable (s.register r).2 rest
    inferInstanceAs (Decidable (Accepted r (s.register r).1 ∧ AllAccepted (s.register r).2 rest))

def registerAll (s : Buses) (l : List Registration) : Buses :=
  l.foldl (fun s r => (s.register r).2) s

/-- The registrations on a tree, and then the `bind` command. -/
def bindAfter (t : TreeState) (l : List Registration) : Status × Buses :=
  cmdBind (registerAll { tree := t } l) (fun _ => .ok) fun _ => .ok

def domainPaths (l : List Registration) : List CString :=
  l.filterMap fun
    | .domain config => some config.treePath
    | _ => none

/-- No two drivers are for the same compatible string, as far as the field keeps it. -/
def Distinct (l : List Registration) : Prop :=
  ∀ spec spec', .driver spec ∈ l → .driver spec' ∈ l →
    (newDriver spec).compatible = (newDriver spec').compatible → spec = spec'

/-- A tree whose nodes have different paths. -/
structure DeviceTree (t : TreeState) : Prop where
  sound : t.Sound
  fits : ∀ x ∈ t.paths, x.length < treeMaxPath
  distinct : t.paths.Nodup

/-- The tables hold what was registered. -/
structure Registered (t : TreeState) (done : List Registration) (s : Buses) : Prop where
  grown : Grown t (domainPaths done) s.tree
  placed : Placed s
  tied : Tied s.tree (s.bus .i2c)
  spi : s.bus .spi = {}
  controllers : ∀ busId, (∃ c < maxControllers, ((s.bus .i2c).controllers c).used = true ∧
    ((s.bus .i2c).controllers c).busId = busId) ↔
      ∃ config, .controller config ∈ done ∧ config.busId = busId
  drivers : ∀ driver, (∃ d < maxBusDrivers, ((s.bus .i2c).drivers d).used = true ∧
    (s.bus .i2c).drivers d = driver) ↔ ∃ spec, .driver spec ∈ done ∧ newDriver spec = driver

variable {s : Buses} {t : TreeState} {l l' : List Registration} {compatible : CString}
  {bound : Bool} {kind : BusKind}

theorem setBus_bus_of_ne {kind' : BusKind} (h : kind' ≠ kind) (b : Bus) :
    (s.setBus kind b).bus kind' = s.bus kind' :=
  Function.update_of_ne h ..

namespace Registered

variable {t : TreeState} {done : List Registration} {s s' : Buses}

theorem start (ht : DeviceTree t) : Registered t [] { tree := t } where
  grown := .refl ht.sound ht.fits
  placed _ _ hu := by cases hu
  tied := ⟨fun _ _ hu => (by cases hu), fun _ _ _ _ hu => (by cases hu)⟩
  spi := rfl
  controllers busId :=
    ⟨fun ⟨_, _, hu, _⟩ => (by cases hu), fun ⟨_, hmem, _⟩ => absurd hmem not_mem_nil⟩
  drivers driver :=
    ⟨fun ⟨_, _, hu, _⟩ => (by cases hu), fun ⟨_, hmem, _⟩ => absurd hmem not_mem_nil⟩

section
variable (h : Registered t done s)
include h

theorem pass (hrun : radI2cBindTree s (fun _ => .ok) = (.ok, s')) :
    Registered t done s' ∧ ∀ i, Settled s'.tree (s'.bus .i2c) i := by
  obtain ⟨hpass, htied, hsettled⟩ :=
    radI2cBindTree_settles h.grown.sound h.grown.fits h.tied hrun
  refine ⟨⟨h.grown.samePaths hpass.sound hpass.grows hpass.paths, hpass.placed h.placed, htied,
    hpass.spi.trans h.spi, ?_, ?_⟩, hsettled⟩
  · rw [hpass.controllers]
    exact h.controllers
  · rw [hpass.drivers]
    exact h.drivers

theorem controller {config : BusControllerConfig}
    (hrun : radI2cControllerRegister s config .ok (fun _ => .ok) = (.ok, s')) :
    Registered t (.controller config :: done) s' := by
  unfold radI2cControllerRegister controllerRegister at hrun
  dsimp only at hrun
  split at hrun
  · cases (Prod.mk.inj hrun).1
  · split at hrun
    · cases (Prod.mk.inj hrun).1
    · next c hc =>
      have hunused := List.find?_some hc
      have hlt : c < maxControllers := List.mem_range.1 (mem_of_find?_eq_some hc)
      have hkeep : ∀ c' < maxControllers, ((s.bus .i2c).controllers c').used = true → c' ≠ c := by
        rintro c' - hused rfl
        simp [hused] at hunused
      set new : BusController := { busId := config.busId, clockHz := config.clockHz, used := true }
      set b := (s.bus .i2c).setController c new with hb
      have hbus : (s.setBus .i2c b).bus .i2c = b := setBus_bus b
      refine (@pass t (.controller config :: done) (s.setBus .i2c b) s'
        ⟨h.grown, h.placed, ?_, ?_, ?_, ?_⟩ hrun).1
      · rw [hbus]
        refine h.tied.mono (.refl _) rfl (fun c' hc' hused => ?_) fun _ _ _ => rfl
        rw [hb, Bus.setController_controllers, if_neg (hkeep c' hc' hused)]
      · exact (setBus_bus_of_ne (by decide) b).trans h.spi
      · intro busId
        rw [hbus]
        constructor
        · rintro ⟨c', hc', hused, hid⟩
          rw [hb, Bus.setController_controllers] at hused hid
          split_ifs at hused hid with heq
          · exact ⟨config, mem_cons_self, hid⟩
          · obtain ⟨config', hmem, hid'⟩ := (h.controllers busId).1 ⟨c', hc', hused, hid⟩
            exact ⟨config', mem_cons_of_mem _ hmem, hid'⟩
        · rintro ⟨config', hmem, hid⟩
          rcases List.mem_cons.1 hmem with heq | hmem
          · cases heq
            refine ⟨c, hlt, ?_, ?_⟩ <;> rw [hb, Bus.setController_controllers, if_pos rfl]
            exact hid
          · obtain ⟨c', hc', hused, hid'⟩ := (h.controllers busId).2 ⟨config', hmem, hid⟩
            refine ⟨c', hc', ?_⟩
            rw [hb, Bus.setController_controllers, if_neg (hkeep c' hc' hused)]
            exact ⟨hused, hid'⟩
      · intro driver
        refine (h.drivers driver).trans ?_
        simp

theorem driver {spec : BusDriverSpec}
    (hrun : radI2cDriverRegister s spec (fun _ => .ok) = (.ok, s')) :
    Registered t (.driver spec :: done) s' := by
  unfold radI2cDriverRegister driverRegister at hrun
  dsimp only at hrun
  split at hrun
  · cases (Prod.mk.inj hrun).1
  · split at hrun
    · cases (Prod.mk.inj hrun).1
    · next d hd =>
      have hunused := List.find?_some hd
      have hlt : d < maxBusDrivers := List.mem_range.1 (mem_of_find?_eq_some hd)
      have hkeep : ∀ d' < maxBusDrivers, ((s.bus .i2c).drivers d').used = true → d' ≠ d := by
        rintro d' - hused rfl
        simp [hused] at hunused
      set b := (s.bus .i2c).setDriver d (newDriver spec) with hb
      have hbus : (s.setBus .i2c b).bus .i2c = b := setBus_bus b
      refine (@pass t (.driver spec :: done) (s.setBus .i2c b) s'
        ⟨h.grown, h.placed, ?_, ?_, ?_, ?_⟩ hrun).1
      · rw [hbus]
        refine h.tied.mono (.refl _) rfl (fun _ _ _ => rfl) fun d' hd' hused => ?_
        rw [hb, Bus.setDriver_drivers, if_neg (hkeep d' hd' hused)]
      · exact (setBus_bus_of_ne (by decide) b).trans h.spi
      · intro busId
        refine (h.controllers busId).trans ?_
        simp
      · intro driver
        rw [hbus]
        constructor
        · rintro ⟨d', hd', hused, hdriver⟩
          rw [hb, Bus.setDriver_drivers] at hused hdriver
          split_ifs at hused hdriver with heq
          · exact ⟨spec, mem_cons_self, hdriver⟩
          · obtain ⟨spec', hmem, hdriver'⟩ := (h.drivers driver).1 ⟨d', hd', hused, hdriver⟩
            exact ⟨spec', mem_cons_of_mem _ hmem, hdriver'⟩
        · rintro ⟨spec', hmem, hdriver⟩
          rcases List.mem_cons.1 hmem with heq | hmem
          · cases heq
            refine ⟨d, hlt, ?_, ?_⟩ <;> rw [hb, Bus.setDriver_drivers, if_pos rfl]
            · rfl
            · exact hdriver
          · obtain ⟨d', hd', hused, hdriver'⟩ := (h.drivers driver).2 ⟨spec', hmem, hdriver⟩
            refine ⟨d', hd', ?_⟩
            rw [hb, Bus.setDriver_drivers, if_neg (hkeep d' hd' hused)]
            exact ⟨hused, hdriver'⟩

end

variable {config : IrqDomainConfig}

theorem radIrqDomainRegister_exists
    (hrun : radIrqDomainRegister s config = (.alreadyExists, s')) (hplaced : Placed s) :
    s' = s ∧ config.treePath ∈ s.tree.paths := by
  unfold radIrqDomainRegister at hrun
  split_ifs at hrun with hpath hsize hcells hfind
  · cases (Prod.mk.inj hrun).1
  · cases (Prod.mk.inj hrun).1
  · cases (Prod.mk.inj hrun).1
  · obtain ⟨j, hj⟩ := Option.isSome_iff_exists.1 hfind
    obtain ⟨hlt, hused, htree⟩ := find_range hj
    refine ⟨(Prod.mk.inj hrun).2.symm, ?_⟩
    rw [← htree]
    exact hplaced j hlt hused
  · split at hrun
    · cases (Prod.mk.inj hrun).1
    · dsimp only at hrun
      split at hrun <;> cases (Prod.mk.inj hrun).1

section
variable (h : Registered t done s)
include h

/-- More nodes, and nothing on the buses. -/
theorem more (hbus : s'.bus = s.bus)
    (hgrows : Grows s.tree s'.tree) (hgrown : Grown t (config.treePath :: domainPaths done) s'.tree)
    (hplaced : Placed s') : Registered t (.domain config :: done) s' where
  grown := hgrown
  placed := hplaced
  tied := by
    rw [hbus]
    exact h.tied.mono hgrows rfl (fun _ _ _ => rfl) fun _ _ _ => rfl
  spi := by rw [hbus, h.spi]
  controllers busId := by
    rw [hbus]
    refine (h.controllers busId).trans ?_
    simp
  drivers driver := by
    rw [hbus]
    refine (h.drivers driver).trans ?_
    simp

theorem register {r : Registration} (hr : Accepted r (s.register r).1) :
    Registered t (r :: done) (s.register r).2 := by
  cases r with
  | controller config => exact h.controller (Prod.ext hr rfl)
  | driver spec => exact h.driver (Prod.ext hr rfl)
  | domain config =>
    have hbus := radIrqDomainRegister_bus s config
    rcases hr with hok | hexists
    · obtain ⟨hgrown, hplaced⟩ := radIrqDomainRegister_grown h.grown h.placed (Prod.ext hok rfl)
      have hgrows := (radIrqDomainRegister_grown (.refl h.grown.sound h.grown.fits) h.placed
        (Prod.ext hok rfl)).1.grows
      exact h.more hbus hgrows hgrown hplaced
    · obtain ⟨hsame, hpath⟩ := radIrqDomainRegister_exists (Prod.ext hexists rfl) h.placed
      rw [show (s.register (.domain config)).2 = s from hsame]
      exact h.more rfl (.refl _) (h.grown.present hpath) h.placed

theorem registerAll (hl : AllAccepted s l) :
    Registered t (l.reverse ++ done) (registerAll s l) := by
  induction l generalizing done s with
  | nil => exact h
  | cons r rest ih =>
    rw [reverse_cons, append_assoc]
    exact ih (h.register hl.1) hl.2

theorem bindIrqDomains (hrun : bindIrqDomainsFromTree s = (.ok, s')) : Registered t done s' := by
  obtain rfl := (Prod.mk.inj hrun).2
  have hplaced := bindIrqDomainNodes_placed h.placed h.grown.fits (List.range s.tree.nodes.length)
    fun i hi => List.mem_range.1 hi
  exact ⟨h.grown, hplaced, h.tied, h.spi, h.controllers, h.drivers⟩

end

end Registered

theorem bindNodes_empty (h : s.bus kind = {}) (answers : Nat → Status)
    (nodes : List Nat) : bindNodes kind answers nodes s = (.ok, s) := by
  induction nodes with
  | nil => rfl
  | cons i rest ih =>
    have hnone : ∀ busId, findController (s.bus kind) busId = none := fun busId =>
      List.find?_eq_none.2 fun c _ => by simp [h]
    have hnode : bindNode kind s i (answers i) = (.ok, s) := by
      obtain ⟨-, hnode⟩ | ⟨busId, _, _, _, -, -, hc, -⟩ := bindNode_cases kind s i (answers i)
      · exact hnode
      · simp [hnone busId] at hc
    rw [bindNodes, hnode]
    exact ih

theorem bindAfter_registered (ht : DeviceTree t)
    (hl : AllAccepted { tree := t } l) (hbind : bindAfter t l = (.ok, s)) :
    Registered t (l.reverse ++ []) s ∧ ∀ i, Settled s.tree (s.bus .i2c) i := by
  have hstart := (Registered.start ht).registerAll hl
  unfold bindAfter cmdBind at hbind
  cases hdomains : bindIrqDomainsFromTree (registerAll { tree := t } l) with
  | mk status s₁ =>
    rw [hdomains] at hbind
    cases status with
    | ok =>
      have h₁ := hstart.bindIrqDomains hdomains
      cases hpass : radI2cBindTree s₁ fun _ => .ok with
      | mk status s₂ =>
        dsimp only at hbind
        rw [hpass] at hbind
        cases status with
        | ok =>
          obtain ⟨h₂, hsettled⟩ := h₁.pass hpass
          have hspi : (Status.ok, s₂) = (Status.ok, s) :=
            (bindNodes_empty h₂.spi _ _).symm.trans hbind
          obtain rfl := (Prod.mk.inj hspi).2
          exact ⟨h₂, hsettled⟩
        | _ => cases (Prod.mk.inj hbind).1
    | _ => cases (Prod.mk.inj hbind).1

/-! ## The devices in the end -/

/-- The driver that a device with this compatible string has, and whether it is bound. -/
structure DriverFor (l : List Registration) (compatible driver : CString) (bound : Bool) : Prop where
  some : bound = true → ∃ spec, .driver spec ∈ l ∧ (newDriver spec).compatible = compatible ∧
    driver = copyString driverNameMax (newDriver spec).name
  none : bound = false → driver = [] ∧
    ∀ spec, .driver spec ∈ l → (newDriver spec).compatible ≠ compatible

theorem DriverFor.unique (hl : Distinct l) {driver driver' : CString}
    {bound' : Bool} (h : DriverFor l compatible driver bound)
    (h' : DriverFor l compatible driver' bound') : driver = driver' ∧ bound = bound' := by
  cases bound with
  | true =>
    obtain ⟨spec, hmem, hcompatible, rfl⟩ := h.some rfl
    cases bound' with
    | true =>
      obtain ⟨spec', hmem', hcompatible', rfl⟩ := h'.some rfl
      rw [hl spec spec' hmem hmem' (hcompatible.trans hcompatible'.symm)]
      exact ⟨rfl, rfl⟩
    | false => exact absurd hcompatible ((h'.none rfl).2 spec hmem)
  | false =>
    obtain ⟨rfl, hnone⟩ := h.none rfl
    cases bound' with
    | true =>
      obtain ⟨spec', hmem', hcompatible', -⟩ := h'.some rfl
      exact absurd hcompatible' (hnone spec' hmem')
    | false => exact ⟨(h'.none rfl).1.symm, rfl⟩

theorem DriverFor.congr (hl : ∀ r, r ∈ l ↔ r ∈ l')
    {driver : CString} (h : DriverFor l compatible driver bound) :
    DriverFor l' compatible driver bound where
  some hb := by
    obtain ⟨spec, hmem, hrest⟩ := h.some hb
    exact ⟨spec, (hl _).1 hmem, hrest⟩
  none hb := ⟨(h.none hb).1, fun spec hmem => (h.none hb).2 spec ((hl _).2 hmem)⟩

/-- What the tree and the registrations say about a device. -/
structure Expected (t t' : TreeState) (l : List Registration) (x : DeviceSummary) : Prop where
  node : ∃ i compatible, Candidate t' i x.busId x.unit compatible ∧ (t.node i).path = x.path ∧
    DriverFor l (copyString compatibleMax compatible) x.driver x.bound
  controller : ∃ config, .controller config ∈ l ∧ config.busId = x.busId

namespace Registered

variable {t : TreeState} {l : List Registration} {s : Buses}

section
variable (h : Registered t l s)
include h

theorem findController_isSome {busId : Nat} :
    (findController (s.bus .i2c) busId).isSome = true ↔
      ∃ config, .controller config ∈ l ∧ config.busId = busId := by
  rw [← h.controllers, findController, List.find?_isSome]
  simp only [mem_range, decide_eq_true_eq]

theorem findDriver_isSome :
    (findDriverByCompatible (s.bus .i2c) compatible).isSome = true ↔
      ∃ spec, .driver spec ∈ l ∧ (newDriver spec).compatible = compatible := by
  rw [findDriverByCompatible, List.find?_isSome]
  simp only [mem_range, decide_eq_true_eq]
  constructor
  · rintro ⟨d, hd, hused, hcompatible⟩
    obtain ⟨spec, hmem, hspec⟩ := (h.drivers _).1 ⟨d, hd, hused, rfl⟩
    exact ⟨spec, hmem, hspec ▸ hcompatible⟩
  · rintro ⟨spec, hmem, hcompatible⟩
    obtain ⟨d, hd, hused, hdriver⟩ := (h.drivers _).2 ⟨spec, hmem, rfl⟩
    exact ⟨d, hd, hused, hdriver ▸ hcompatible⟩

theorem expected (hsettled : ∀ i, Settled s.tree (s.bus .i2c) i) {k : Nat}
    (hk : k < maxBusDevices) (hused : ((s.bus .i2c).devices k).controller.isSome = true) :
    Expected t s.tree l ((s.bus .i2c).devices k).summary := by
  have hdevice := h.tied.device k hk hused
  obtain ⟨i, compatible, hcandidate, hpath, hcompatible⟩ := hdevice.node
  have hcontroller := (h.controllers _).1 hdevice.controller
  have hi := ((Candidate.iff_of_grows h.grown.grows).1 hcandidate).1
  refine ⟨⟨i, compatible, hcandidate, (h.grown.grows.path hi).symm.trans hpath, ?_, ?_⟩, hcontroller⟩
  · intro hbound
    have hdriver := hdevice.driver
    rw [if_pos (show ((s.bus .i2c).devices k).bound = true from hbound)] at hdriver
    obtain ⟨d, hd, hdused, hsame, hname⟩ := hdriver
    obtain ⟨spec, hmem, hspec⟩ := (h.drivers _).1 ⟨d, hd, hdused, rfl⟩
    exact ⟨spec, hmem, hspec ▸ hsame.trans hcompatible, hspec ▸ hname⟩
  · intro hbound
    have hdriver := hdevice.driver
    rw [if_neg (by rw [show ((s.bus .i2c).devices k).bound = false from hbound]; decide)] at hdriver
    refine ⟨hdriver, fun spec hmem heq => ?_⟩
    -- a driver for it would have been bound to it
    obtain ⟨k', hk', hused', hpath', hbound'⟩ := hsettled i _ _ _ hcandidate
      (h.findController_isSome.2 hcontroller)
    obtain rfl := h.tied.apart k' k hk' hk hused' hused (hpath'.trans hpath)
    have htrue := hbound' (h.findDriver_isSome.2 ⟨spec, hmem, heq⟩)
    rw [show ((s.bus .i2c).devices k').bound = false from hbound] at htrue
    cases htrue

end

/-- The devices after the `bind` command. -/
theorem summaries_iff (ht : DeviceTree t) (hl : Distinct l) (h : Registered t l s)
    (hsettled : ∀ i, Settled s.tree (s.bus .i2c) i) (x : DeviceSummary) :
    x ∈ (s.bus .i2c).summaries ↔ Expected t s.tree l x := by
  simp only [Bus.summaries, mem_map, mem_filter, mem_range]
  constructor
  · rintro ⟨k, ⟨hk, hused⟩, rfl⟩
    exact h.expected hsettled hk hused
  · rintro ⟨⟨i, compatible, hcandidate, hpath, hdriver⟩, hcontroller⟩
    obtain ⟨k, hk, hused, hpath', -⟩ := hsettled i _ _ _ hcandidate
      (h.findController_isSome.2 hcontroller)
    refine ⟨k, ⟨hk, hused⟩, ?_⟩
    obtain ⟨⟨i', compatible', hcandidate', hpath'', hdriver'⟩, -⟩ := h.expected hsettled hk hused
    have hi := ((Candidate.iff_of_grows h.grown.grows).1 hcandidate).1
    have hi' := ((Candidate.iff_of_grows h.grown.grows).1 hcandidate').1
    -- the device of the node with this path
    have hsame : i' = i := by
      have hpaths : (t.node i').path = (t.node i).path := by
        rw [hpath'', ← h.grown.grows.path hi]
        exact hpath'
      have hlength : t.paths.length = t.nodes.length := by simp [TreeState.paths]
      have hget : ∀ {j : Nat} (hj : j < t.nodes.length) (hp : j < t.paths.length),
          t.paths[j] = (t.node j).path := fun hj hp => by
        simp [TreeState.paths, node_eq hj]
      exact (ht.distinct.getElem_inj_iff).1 ((hget hi' (hlength ▸ hi')).trans
        (hpaths.trans (hget hi (hlength ▸ hi)).symm))
    subst hsame
    obtain ⟨hbus, hunit, rfl⟩ := hcandidate.unique hcandidate'
    obtain ⟨hname, hbound⟩ := hdriver.unique hl hdriver'
    cases x
    exact DeviceSummary.mk.injEq .. ▸ ⟨hpath''.symm.trans hpath, hbus.symm, hunit.symm, hname.symm, hbound.symm⟩

end Registered

theorem mem_domainPaths {path : CString} :
    path ∈ domainPaths l ↔ ∃ config, .domain config ∈ l ∧ config.treePath = path := by
  rw [domainPaths, mem_filterMap]
  constructor
  · rintro ⟨r, hmem, hr⟩
    cases r with
    | domain config => exact ⟨config, hmem, Option.some.inj hr⟩
    | _ => cases hr
  · rintro ⟨config, hmem, rfl⟩
    exact ⟨_, hmem, rfl⟩

theorem GrownBy.congr {done done' : List CString} (h : ∀ p, p ∈ done ↔ p ∈ done')
    (x : CString) : GrownBy t done x ↔ GrownBy t done' x := by
  simp only [GrownBy, h]

theorem Expected.congr {t' t'' : TreeState} {x : DeviceSummary}
    (h : Expected t t' l x) (hl : ∀ r, r ∈ l ↔ r ∈ l') (hgrown : Grown t (domainPaths l) t')
    (hgrown' : Grown t (domainPaths l') t'') : Expected t t'' l' x where
  node := by
    obtain ⟨i, compatible, hcandidate, hpath, hdriver⟩ := h.node
    refine ⟨i, compatible, ?_, hpath, hdriver.congr hl⟩
    refine (Candidate.iff_of_paths hgrown.grows hgrown'.grows fun p => ?_).1 hcandidate
    rw [hgrown.paths, hgrown'.paths]
    exact GrownBy.congr (fun p => by simp only [mem_domainPaths, hl]) p
  controller := by
    obtain ⟨config, hmem, hbus⟩ := h.controller
    exact ⟨config, (hl _).1 hmem, hbus⟩

/-- The devices are the same for all orders. -/
theorem summaries_perm {t : TreeState} (ht : DeviceTree t) {l l' : List Registration}
    (hperm : l.Perm l') (hdistinct : Distinct l) (hl : AllAccepted { tree := t } l)
    (hl' : AllAccepted { tree := t } l') {s s' : Buses} (hs : bindAfter t l = (.ok, s))
    (hs' : bindAfter t l' = (.ok, s')) (x : DeviceSummary) :
    x ∈ (s.bus .i2c).summaries ↔ x ∈ (s'.bus .i2c).summaries := by
  obtain ⟨h, hsettled⟩ := bindAfter_registered ht hl hs
  obtain ⟨h', hsettled'⟩ := bindAfter_registered ht hl' hs'
  have hsame : ∀ r, r ∈ l.reverse ++ [] ↔ r ∈ l'.reverse ++ [] := fun r => by
    simp [hperm.mem_iff]
  have hreverse : Distinct (l.reverse ++ []) := fun spec spec' hspec hspec' =>
    hdistinct spec spec' (by simpa using hspec) (by simpa using hspec')
  have hreverse' : Distinct (l'.reverse ++ []) := fun spec spec' hspec hspec' =>
    hreverse spec spec' ((hsame _).2 hspec) ((hsame _).2 hspec')
  rw [h.summaries_iff ht hreverse hsettled, h'.summaries_iff ht hreverse' hsettled']
  exact ⟨fun hx => hx.congr hsame h.grown h'.grown,
    fun hx => hx.congr (fun r => (hsame r).symm) h'.grown h.grown⟩

/-! ## A sensor with an interrupt line -/

/-- The sensor interrupts line 5 of a controller that has no node. -/
def alarmTree : TreeState :=
  setPropertyString
    (setProperty sensorTree 2 (text "interrupts") { type := treePropU32Array, arrayValues := [5, 1] })
    2 (text "interrupt-parent") (text "/pic")

def alarmDomain : IrqDomainConfig where
  treePath := text "/pic"
  lineCount := 32
  interruptCells := 2

def domainFirst : List Registration :=
  [.domain alarmDomain, .controller { busId := 0 }, .driver sensorDriver]

def domainLast : List Registration :=
  [.controller { busId := 0 }, .driver sensorDriver, .domain alarmDomain]

theorem alarmTree_device : DeviceTree alarmTree where
  sound := ⟨by decide +kernel, by decide +kernel, by decide +kernel, by decide +kernel⟩
  fits := by decide +kernel
  distinct := by decide +kernel

theorem domainFirst_distinct : Distinct domainFirst := by
  intro spec spec' hspec hspec' _
  simp only [domainFirst, mem_cons, not_mem_nil, reduceCtorEq, or_false, false_or,
    Registration.driver.injEq] at hspec hspec'
  rw [hspec, hspec']

theorem summaries_perm_alarm :
    ⟨text "/i2c@0/temp", 0, 72, text "temp", true⟩ ∈
      ((bindAfter alarmTree domainFirst).2.bus .i2c).summaries ∧
    ⟨text "/i2c@0/temp", 0, 72, text "temp", true⟩ ∈
      ((bindAfter alarmTree domainLast).2.bus .i2c).summaries := by
  have hfirst : ⟨text "/i2c@0/temp", 0, 72, text "temp", true⟩ ∈
      ((bindAfter alarmTree domainFirst).2.bus .i2c).summaries := by decide +kernel
  refine ⟨hfirst, ?_⟩
  have hperm : domainFirst.Perm domainLast := by decide +kernel
  have hok : (bindAfter alarmTree domainFirst).1 = .ok := by decide +kernel
  have hok' : (bindAfter alarmTree domainLast).1 = .ok := by decide +kernel
  exact (summaries_perm alarmTree_device hperm domainFirst_distinct (by decide +kernel)
    (by decide +kernel) (Prod.ext hok rfl) (Prod.ext hok' rfl) _).1 hfirst

def Bus.records (b : Bus) : List (DeviceSummary × List IrqResource) :=
  ((List.range maxBusDevices).filter fun k => (b.devices k).controller.isSome).map fun k =>
    ((b.devices k).summary, (b.devices k).irqs)

/-- When the domain is registered after the sensor was bound, the sensor has no interrupt. -/
theorem domainLast_records :
    DeviceTree alarmTree ∧ domainFirst.Perm domainLast ∧ Distinct domainFirst ∧
      AllAccepted { tree := alarmTree } domainFirst ∧ AllAccepted { tree := alarmTree } domainLast ∧
      (bindAfter alarmTree domainFirst).1 = .ok ∧ (bindAfter alarmTree domainLast).1 = .ok ∧
      ¬∀ x, x ∈ ((bindAfter alarmTree domainFirst).2.bus .i2c).records ↔
        x ∈ ((bindAfter alarmTree domainLast).2.bus .i2c).records := by
  refine ⟨alarmTree_device, by decide +kernel, domainFirst_distinct, by decide +kernel,
    by decide +kernel, by decide +kernel, by decide +kernel, fun h => ?_⟩
  have hlast : (⟨text "/i2c@0/temp", 0, 72, text "temp", true⟩, []) ∈
      ((bindAfter alarmTree domainLast).2.bus .i2c).records := by decide +kernel
  have hfirst : (⟨text "/i2c@0/temp", 0, 72, text "temp", true⟩, []) ∉
      ((bindAfter alarmTree domainFirst).2.bus .i2c).records := by decide +kernel
  exact hfirst ((h _).2 hlast)

end RadKernel.Overlay
