import RadKernel.Overlay.Binding
import RadKernel.Overlay.Growth

/-!
# A pass over the tree

What `rad_i2c_bind_tree` leaves when all probes succeed: every device is one that a node of the tree
describes, and every node that describes a device has one as soon as its controller is there, bound
when a driver for it is.
-/

namespace RadKernel.Overlay

/-! ## Nodes that describe a device -/

structure Candidate (t : TreeState) (i busId unit : Nat) (compatible : CString) : Prop where
  under : nodeIsUnder .i2c t i = some busId
  unit : unitOf? .i2c t i = some unit
  compatible : stringOf? t i "compatible" = some compatible

def busIdAt (t : TreeState) (path : CString) : Nat :=
  ((findNode t path).bind fun i => u32Of? t i "bus-id").getD 0

variable {t t' : TreeState} {i k : Nat} {b b' : Bus} {device : BusDevice} {s s' : Buses}

theorem value?_of_le (hi : t.nodes.length ≤ i) (name : CString) : t.value? i name = none := by
  have hnode : t.node i = {} := List.getD_eq_default _ _ hi
  rw [TreeState.value?, findProperty, hnode]
  rfl

theorem u32Of?_of_le (hi : t.nodes.length ≤ i) (name : String) : u32Of? t i name = none := by
  rw [u32Of?, TreeState.valueOf?, value?_of_le hi]
  rfl

theorem nodeIsUnder_eq (t : TreeState) (i : Nat) :
    nodeIsUnder .i2c t i =
      if (t.node i).parent ∈ t.paths ∧ contains (t.node i).parent BusKind.i2c.marker = true then
        some (busIdAt t (t.node i).parent)
      else none := by
  unfold nodeIsUnder busIdAt
  cases hfind : findNode t (t.node i).parent with
  | none => rw [if_neg fun h => findNode_eq_none.1 hfind h.1]
  | some j =>
    have hmem : (t.node i).parent ∈ t.paths := findNode_isSome.1 (by rw [hfind]; rfl)
    obtain ⟨hj, hpath, -⟩ := List.findIdx?_eq_some_iff_getElem.1 hfind
    have hsame : (t.node j).path = (t.node i).parent := node_eq hj ▸ of_decide_eq_true hpath
    dsimp only [Option.bind_some]
    rw [hsame]
    exact if_congr (and_iff_right hmem).symm rfl rfl

namespace Grows

variable {t t' : TreeState}

theorem valueOf? (h : Grows t t') {name : String} (hname : OnBus (text name)) (i type : Nat) :
    t'.valueOf? i (text name) type = t.valueOf? i (text name) type := by
  rw [TreeState.valueOf?, TreeState.valueOf?, h.value _ hname]

theorem busIdAt (h : Grows t t') (path : CString) : busIdAt t' path = busIdAt t path := by
  have hsame : ∀ i, u32Of? t' i "bus-id" = u32Of? t i "bus-id" := fun i =>
    congrArg _ (h.valueOf? (.inr (.inr rfl)) i treePropU32)
  unfold Overlay.busIdAt
  cases hfind : Overlay.findNode t path with
  | some i =>
    rw [h.findNode hfind, Option.bind_some, Option.bind_some, hsame]
  | none =>
    cases hfind' : Overlay.findNode t' path with
    | none => rfl
    | some i =>
      -- a node that is new has no bus id
      have hnew : t.nodes.length ≤ i := by
        by_contra hold
        have hlt : i < t.nodes.length := Nat.lt_of_not_le hold
        obtain ⟨hi, hpath, -⟩ := List.findIdx?_eq_some_iff_getElem.1 hfind'
        have heq : (t'.node i).path = path := node_eq hi ▸ of_decide_eq_true hpath
        refine findNode_eq_none.1 hfind ?_
        rw [← heq, h.path hlt, node_eq hlt]
        exact List.mem_map_of_mem (List.getElem_mem hlt)
      rw [Option.bind_some, hsame, u32Of?_of_le hnew]
      rfl

end Grows

namespace Candidate

variable {t t' t'' : TreeState} {i busId unit : Nat} {compatible : CString}

theorem lt (h : Candidate t i busId unit compatible) : i < t.nodes.length := by
  by_contra hi
  have hunit := h.unit
  rw [unitOf?, u32Of?_of_le (Nat.le_of_not_lt hi)] at hunit
  cases hunit

/-- What a tree that has grown says about a device is what the first tree said, once there is a
node for the parent. -/
theorem iff_of_grows (h : Grows t t') :
    Candidate t' i busId unit compatible ↔ i < t.nodes.length ∧
      ((t.node i).parent ∈ t'.paths ∧ contains (t.node i).parent BusKind.i2c.marker = true) ∧
      busId = busIdAt t (t.node i).parent ∧ unitOf? .i2c t i = some unit ∧
      stringOf? t i "compatible" = some compatible := by
  have hreg : u32Of? t' i "reg" = u32Of? t i "reg" :=
    congrArg _ (h.valueOf? (.inl rfl) i treePropU32)
  have hunit : unitOf? .i2c t' i = unitOf? .i2c t i := by
    rw [unitOf?, unitOf?, hreg]
  have hcompatible : stringOf? t' i "compatible" = stringOf? t i "compatible" :=
    congrArg _ (h.valueOf? (.inr (.inl rfl)) i treePropString)
  have hunder : i < t.nodes.length → nodeIsUnder .i2c t' i =
      if (t.node i).parent ∈ t'.paths ∧ contains (t.node i).parent BusKind.i2c.marker = true then
        some (busIdAt t (t.node i).parent)
      else none := by
    intro hi
    rw [nodeIsUnder_eq, h.parent i hi, h.busIdAt]
  constructor
  · intro hc
    have hlt : i < t.nodes.length := by
      by_contra hi
      have hu := hc.unit
      rw [hunit, unitOf?, u32Of?_of_le (Nat.le_of_not_lt hi)] at hu
      cases hu
    have hu := hc.under
    rw [hunder hlt] at hu
    split_ifs at hu with hparent
    exact ⟨hlt, hparent, (Option.some.inj hu).symm, hunit ▸ hc.unit, hcompatible ▸ hc.compatible⟩
  · rintro ⟨hlt, hparent, rfl, hu, hs⟩
    refine ⟨?_, hunit ▸ hu, hcompatible ▸ hs⟩
    rw [hunder hlt, if_pos hparent]

theorem grows (hc : Candidate t i busId unit compatible) (h : Grows t t') :
    Candidate t' i busId unit compatible := by
  obtain ⟨hlt, hparent, hrest⟩ := (iff_of_grows (.refl t)).1 hc
  exact (iff_of_grows h).2 ⟨hlt, ⟨h.paths.subset hparent.1, hparent.2⟩, hrest⟩

/-- Trees that have grown from one tree to the same paths describe the same devices. -/
theorem iff_of_paths (h : Grows t t') (h' : Grows t t'')
    (hpaths : ∀ x, x ∈ t'.paths ↔ x ∈ t''.paths) :
    Candidate t' i busId unit compatible ↔ Candidate t'' i busId unit compatible := by
  rw [iff_of_grows h, iff_of_grows h', hpaths]

theorem unique (hc : Candidate t i busId unit compatible) {busId' unit' : Nat}
    {compatible' : CString} (hc' : Candidate t i busId' unit' compatible') :
    busId = busId' ∧ unit = unit' ∧ compatible = compatible' :=
  ⟨Option.some.inj (hc.under.symm.trans hc'.under), Option.some.inj (hc.unit.symm.trans hc'.unit),
    Option.some.inj (hc.compatible.symm.trans hc'.compatible)⟩

end Candidate

/-! ## Devices and the nodes they come from -/

/-- What is compared: where a device is, and which driver it has. -/
structure DeviceSummary where
  path : CString
  busId : Nat
  unit : Nat
  driver : CString
  bound : Bool
  deriving DecidableEq, Repr

def BusDevice.summary (device : BusDevice) : DeviceSummary :=
  ⟨device.path, device.busId, device.unit, device.driver, device.bound⟩

def Bus.summaries (b : Bus) : List DeviceSummary :=
  ((List.range maxBusDevices).filter fun k => (b.devices k).controller.isSome).map fun k =>
    (b.devices k).summary

/-- A device is described by a node, its controller has its bus, and its driver is one for what it
is compatible with. -/
structure TiedDevice (t : TreeState) (b : Bus) (device : BusDevice) : Prop where
  node : ∃ i compatible, Candidate t i device.busId device.unit compatible ∧
    (t.node i).path = device.path ∧ device.compatible = copyString compatibleMax compatible
  controller : ∃ c < maxControllers, (b.controllers c).used = true ∧
    (b.controllers c).busId = device.busId
  driver : if device.bound = true then
      ∃ d < maxBusDrivers, (b.drivers d).used = true ∧ (b.drivers d).compatible = device.compatible ∧
        device.driver = copyString driverNameMax (b.drivers d).name
    else device.driver = []

/-- Every device is described by a node, and has the driver that its node asks for. -/
structure Tied (t : TreeState) (b : Bus) : Prop where
  device : ∀ k < maxBusDevices, (b.devices k).controller.isSome = true → TiedDevice t b (b.devices k)
  apart : ∀ j k, j < maxBusDevices → k < maxBusDevices → (b.devices j).controller.isSome = true →
    (b.devices k).controller.isSome = true → (b.devices j).path = (b.devices k).path → j = k

/-- The device of a node is there, and bound when there is a driver for it. -/
def Settled (t : TreeState) (b : Bus) (i : Nat) : Prop :=
  ∀ busId unit compatible, Candidate t i busId unit compatible → (findController b busId).isSome →
    ∃ k < maxBusDevices, (b.devices k).controller.isSome = true ∧
      (b.devices k).path = (t.node i).path ∧
      ((findDriverByCompatible b (copyString compatibleMax compatible)).isSome →
        (b.devices k).bound = true)

theorem TiedDevice.mono (h : TiedDevice t b device) (hgrows : Grows t t')
    (hcontrollers : ∀ c < maxControllers, (b.controllers c).used = true →
      b'.controllers c = b.controllers c)
    (hdrivers : ∀ d < maxBusDrivers, (b.drivers d).used = true → b'.drivers d = b.drivers d) :
    TiedDevice t' b' device where
  node := by
    obtain ⟨i, compatible, hc, hpath, hcompatible⟩ := h.node
    exact ⟨i, compatible, hc.grows hgrows, (hgrows.path hc.lt).trans hpath, hcompatible⟩
  controller := by
    obtain ⟨c, hc, hused, hbus⟩ := h.controller
    have hsame := hcontrollers c hc hused
    exact ⟨c, hc, hsame.symm ▸ hused, hsame.symm ▸ hbus⟩
  driver := by
    have hdriver := h.driver
    split_ifs at hdriver ⊢
    · obtain ⟨d, hd, hused, hrest⟩ := hdriver
      have hsame := hdrivers d hd hused
      exact ⟨d, hd, hsame.symm ▸ hused, hsame.symm ▸ hrest⟩
    · exact hdriver

/-- What a pass over the tree leaves as it was, and what it only adds to. -/
structure Passes (s s' : Buses) : Prop where
  sound : s'.tree.Sound
  grows : Grows s.tree s'.tree
  paths : s'.tree.paths = s.tree.paths
  placed : Placed s → Placed s'
  controllers : (s'.bus .i2c).controllers = (s.bus .i2c).controllers
  drivers : (s'.bus .i2c).drivers = (s.bus .i2c).drivers
  spi : s'.bus .spi = s.bus .spi
  devices : ∀ k, ((s.bus .i2c).devices k).controller.isSome = true →
    ((s'.bus .i2c).devices k).controller.isSome = true ∧
      ((s'.bus .i2c).devices k).path = ((s.bus .i2c).devices k).path ∧
      (((s.bus .i2c).devices k).bound = true → ((s'.bus .i2c).devices k).bound = true)

namespace Passes

variable {s s' s'' : Buses}

theorem refl (hs : s.tree.Sound) : Passes s s :=
  ⟨hs, .refl _, rfl, id, rfl, rfl, rfl, fun _ h => ⟨h, rfl, id⟩⟩

theorem trans (h : Passes s s') (h' : Passes s' s'') : Passes s s'' where
  sound := h'.sound
  grows := h.grows.trans h'.grows
  paths := h'.paths.trans h.paths
  placed hs := h'.placed (h.placed hs)
  controllers := h'.controllers.trans h.controllers
  drivers := h'.drivers.trans h.drivers
  spi := h'.spi.trans h.spi
  devices k hk := by
    obtain ⟨hk₁, hpath₁, hbound₁⟩ := h.devices k hk
    obtain ⟨hk₂, hpath₂, hbound₂⟩ := h'.devices k hk₁
    exact ⟨hk₂, hpath₂.trans hpath₁, fun hb => hbound₂ (hbound₁ hb)⟩

theorem length_eq (h : Passes s s') : s'.tree.nodes.length = s.tree.nodes.length := by
  have hlength := congrArg List.length h.paths
  simpa [TreeState.paths] using hlength

/-- A device that is settled stays so. -/
theorem settled (h : Passes s s') (hi : Settled s.tree (s.bus .i2c) i) :
    Settled s'.tree (s'.bus .i2c) i := by
  intro busId unit compatible hc hcontroller
  have hc₀ : Candidate s.tree i busId unit compatible :=
    (Candidate.iff_of_paths h.grows (.refl _) fun x => by rw [h.paths]).1 hc
  rw [findController, h.controllers] at hcontroller
  obtain ⟨k, hk, hused, hpath, hbound⟩ := hi busId unit compatible hc₀ hcontroller
  obtain ⟨hused', hpath', hbound'⟩ := h.devices k hused
  refine ⟨k, hk, hused', ?_, fun hdriver => hbound' (hbound ?_)⟩
  · rw [hpath', hpath, h.grows.path hc₀.lt]
  · rwa [findDriverByCompatible, h.drivers] at hdriver

end Passes

/-! ## Domains that are found on the way -/

variable {path : CString}

theorem findNode_lt (h : findNode t path = some i) : i < t.nodes.length :=
  (List.findIdx?_eq_some_iff_getElem.1 h).1

theorem mem_paths (hi : i < t.nodes.length) : (t.node i).path ∈ t.paths := by
  rw [node_eq hi]
  exact List.mem_map_of_mem (List.getElem_mem hi)

theorem bindIrqDomainNode_placed (hs : Placed s)
    (hfits : ∀ x ∈ s.tree.paths, x.length < treeMaxPath) (hi : i < s.tree.nodes.length) :
    Placed { s with domains := (bindIrqDomainNode s.tree s.domains i).2 } := by
  unfold bindIrqDomainNode
  split_ifs
  · split
    · exact hs
    · split_ifs
      · exact hs
      · dsimp only
        have hmem := mem_paths hi
        split
        all_goals
          next hallocate =>
          refine placed_allocate hs ?_ hallocate
          rwa [copyString_of_lt (hfits _ hmem)]
  · exact hs

theorem findInterruptParentNode_lt {domains : Nat → IrqDomain} {parent : Nat}
    (h : findInterruptParentNode t domains i = some parent) : parent < t.nodes.length := by
  unfold findInterruptParentNode at h
  split at h
  · cases h
  · exact findNode_lt h
  · obtain ⟨j, -, hj⟩ := Option.bind_eq_some_iff.1 h
    exact findNode_lt hj

section
variable (hs : Placed s) (hfits : ∀ x ∈ s.tree.paths, x.length < treeMaxPath)
include hs hfits

theorem resolveIrqResources_placed (i capacity : Nat) :
    Placed { s with domains := (resolveIrqResources s.tree s.domains i capacity).2 } := by
  unfold resolveIrqResources
  split
  · exact hs
  · split_ifs
    · exact hs
    · split
      · exact hs
      · next parent hparent =>
        have hbind := bindIrqDomainNode_placed hs hfits (findInterruptParentNode_lt hparent)
        dsimp only
        split
        · exact hs
        · split_ifs
          · exact hbind
          · split <;> exact hbind

theorem bindIrqDomainNodes_placed (nodes : List Nat)
    (hnodes : ∀ i ∈ nodes, i < s.tree.nodes.length) :
    Placed { s with domains := (bindIrqDomainNodes s.tree nodes s.domains).2 } := by
  induction nodes generalizing s with
  | nil => exact hs
  | cons i rest ih =>
    have hfirst := bindIrqDomainNode_placed hs hfits (hnodes i List.mem_cons_self)
    rw [bindIrqDomainNodes]
    split
    · next domains hdomains =>
      rw [hdomains] at hfirst
      exact ih hfirst hfits fun j hj => hnodes j (List.mem_cons_of_mem _ hj)
    · next status domains _ hdomains =>
      rw [hdomains] at hfirst
      exact hfirst

end

/-! ## A round of the pass -/

/-- A device record after its driver was looked up and has answered. -/
def probed (b : Bus) (device : BusDevice) : BusDevice :=
  match findDriverByCompatible b device.compatible with
  | none => { device with bound := false, driver := [] }
  | some d =>
    { device with
      driverIndex := d
      driver := copyString driverNameMax (b.drivers d).name
      bound := true }

theorem probeDevice_ok (b : Bus) (k : Nat) :
    ∃ b', probeDevice b k .ok = (.ok, b') ∧ b'.controllers = b.controllers ∧
      b'.drivers = b.drivers ∧ ∀ j, b'.devices j = if j = k then probed b (b.devices k) else b.devices j := by
  unfold probeDevice probed
  dsimp only
  cases findDriverByCompatible b (b.devices k).compatible with
  | none => exact ⟨_, rfl, rfl, rfl, fun j => by simp⟩
  | some d =>
    refine ⟨_, rfl, rfl, rfl, fun j => ?_⟩
    simp only [Bus.setDevice_devices, Bus.note_devices]
    split_ifs <;> rfl

/-- What probing leaves of a record. -/
theorem probed_same (b : Bus) (device : BusDevice) :
    (probed b device).path = device.path ∧ (probed b device).busId = device.busId ∧
      (probed b device).unit = device.unit ∧ (probed b device).compatible = device.compatible ∧
      (probed b device).controller = device.controller := by
  unfold probed
  cases findDriverByCompatible b device.compatible <;> exact ⟨rfl, rfl, rfl, rfl, rfl⟩

theorem probed_bound (h : (findDriverByCompatible b device.compatible).isSome = true) :
    (probed b device).bound = true := by
  unfold probed
  cases hfind : findDriverByCompatible b device.compatible with
  | none =>
    rw [hfind] at h
    cases h
  | some d => rfl

theorem probed_driver (b : Bus) (device : BusDevice) :
    if (probed b device).bound = true then
      ∃ d < maxBusDrivers, (b.drivers d).used = true ∧ (b.drivers d).compatible = device.compatible ∧
        (probed b device).driver = copyString driverNameMax (b.drivers d).name
    else (probed b device).driver = [] := by
  unfold probed
  cases hfind : findDriverByCompatible b device.compatible with
  | none => rfl
  | some d =>
    obtain ⟨hd, hused, hcompatible⟩ := findDriverByCompatible_some hfind
    exact ⟨d, hd, hused, hcompatible, rfl⟩

theorem deviceSlot_cases (h : deviceSlot b path = some (k, b')) :
    k < maxBusDevices ∧ b'.controllers = b.controllers ∧ b'.drivers = b.drivers ∧
      (∀ j, j ≠ k → b'.devices j = b.devices j) ∧
      ((b' = b ∧ (b.devices k).controller.isSome = true ∧ (b.devices k).path = path) ∨
        (b'.devices k = {} ∧ (b.devices k).controller = none ∧
          ∀ j < maxBusDevices, (b.devices j).controller.isSome = true → (b.devices j).path ≠ path)) := by
  obtain ⟨hfind, rfl⟩ | ⟨hfind, hk, hfree, rfl⟩ := deviceSlot_some h
  · obtain ⟨hk, hused, hpath⟩ := findDeviceByPath_some hfind
    exact ⟨hk, rfl, rfl, fun _ _ => rfl, .inl ⟨rfl, hused, hpath⟩⟩
  · refine ⟨hk, rfl, rfl, fun j hj => ?_, .inr ⟨?_, hfree, fun j hj hused hpath => ?_⟩⟩
    · simp [Bus.clearDevice, hj]
    · simp [Bus.clearDevice]
    · have hnot := List.find?_eq_none.1 hfind j (List.mem_range.2 hj)
      simp [hused, hpath] at hnot

theorem Tied.write (h : Tied t b)
    (hcontrollers : b'.controllers = b.controllers) (hdrivers : b'.drivers = b.drivers)
    (hother : ∀ j, j ≠ k → b'.devices j = b.devices j) (hk : TiedDevice t b (b'.devices k))
    (hpath : ∀ j < maxBusDevices, j ≠ k → (b.devices j).controller.isSome = true →
      (b.devices j).path ≠ (b'.devices k).path) : Tied t b' := by
  have hmono : ∀ {device}, TiedDevice t b device → TiedDevice t b' device := fun hd =>
    hd.mono (.refl t) (fun c _ _ => congrFun hcontrollers c) fun d _ _ => congrFun hdrivers d
  constructor
  · intro j hj hused
    by_cases hjk : j = k
    · exact hjk ▸ hmono hk
    · rw [hother j hjk] at hused ⊢
      exact hmono (h.device j hj hused)
  · intro i j hi hj husedi husedj heq
    by_cases hik : i = k <;> by_cases hjk : j = k
    · rw [hik, hjk]
    · rw [hother j hjk] at husedj heq
      exact absurd (hik ▸ heq).symm (hpath j hj hjk husedj)
    · rw [hother i hik] at husedi heq
      exact absurd (hjk ▸ heq) (hpath i hi hik husedi)
    · rw [hother i hik] at husedi heq
      rw [hother j hjk] at husedj heq
      exact h.apart i j hi hj husedi husedj heq

theorem Tied.mono (h : Tied t b) (hgrows : Grows t t') (hdevices : b'.devices = b.devices)
    (hcontrollers : ∀ c < maxControllers, (b.controllers c).used = true →
      b'.controllers c = b.controllers c)
    (hdrivers : ∀ d < maxBusDrivers, (b.drivers d).used = true → b'.drivers d = b.drivers d) :
    Tied t' b' := by
  constructor
  · intro k hk hused
    rw [hdevices] at hused ⊢
    exact (h.device k hk hused).mono hgrows hcontrollers hdrivers
  · intro j k hj hk
    rw [hdevices]
    exact h.apart j k hj hk

/-- The device of a node that was not bound is filled in and probed. -/
theorem describeDevice_settles (hs : s.tree.Sound)
    (hfits : ∀ x ∈ s.tree.paths, x.length < treeMaxPath) (hi : i < s.tree.nodes.length)
    (h : Tied s.tree (s.bus .i2c)) {busId unit c : Nat} {compatible : CString}
    (hcandidate : Candidate s.tree i busId unit compatible)
    (hc : c < maxControllers ∧ ((s.bus .i2c).controllers c).used = true ∧
      ((s.bus .i2c).controllers c).busId = busId)
    (hslot : deviceSlot (s.bus .i2c) (s.tree.node i).path = some (k, b))
    (hbound : (b.devices k).bound = false)
    (hrun : describeDevice .i2c s b k i busId unit c compatible .ok = (.ok, s')) :
    Passes s s' ∧ Tied s'.tree (s'.bus .i2c) ∧ Settled s'.tree (s'.bus .i2c) i := by
  obtain ⟨hk, hcontrollers, hdrivers, hother, hcases⟩ := deviceSlot_cases hslot
  unfold describeDevice at hrun
  dsimp only at hrun
  set device := described .i2c s.tree i busId unit compatible c (b.controllers c)
    (resolveIrqResources s.tree s.domains i irqMaxResources).1 (b.devices k) with hdevice
  obtain ⟨b', hprobe, hcontrollers', hdrivers', hdevices'⟩ := probeDevice_ok (b.setDevice k device) k
  rw [hprobe, if_neg (by simp)] at hrun
  obtain rfl : Buses.mk (setBound s.tree i (b'.devices k).bound)
      (resolveIrqResources s.tree s.domains i irqMaxResources).2 (Function.update s.bus .i2c b') = s' :=
    (Prod.mk.inj hrun).2
  have hk' : b'.devices k = probed (b.setDevice k device) device := by
    rw [hdevices', if_pos rfl, Bus.setDevice_devices, if_pos rfl]
  have hother' : ∀ j, j ≠ k → b'.devices j = (s.bus .i2c).devices j := by
    intro j hj
    rw [hdevices', if_neg hj, Bus.setDevice_devices, if_neg hj, hother j hj]
  have hcontrollers'' : b'.controllers = (s.bus .i2c).controllers := hcontrollers'.trans hcontrollers
  have hdrivers'' : b'.drivers = (s.bus .i2c).drivers := hdrivers'.trans hdrivers
  obtain ⟨hpath, hbus, hunit, hcompatible, hcontroller⟩ := probed_same (b.setDevice k device) device
  rw [← hk'] at hpath hbus hunit hcompatible hcontroller
  have hdriver := probed_driver (b.setDevice k device) device
  rw [← hk', show (b.setDevice k device).drivers = (s.bus .i2c).drivers from hdrivers] at hdriver
  have hpath' : (b'.devices k).path = (s.tree.node i).path :=
    hpath.trans (copyString_of_lt (hfits _ (mem_paths hi)))
  have hgrows := setBound_grows hs hi (b'.devices k).bound
  have hpaths : (setBound s.tree i (b'.devices k).bound).paths = s.tree.paths := paths_setNode hi rfl
  have htied : TiedDevice s.tree (s.bus .i2c) (b'.devices k) := by
    refine ⟨⟨i, compatible, ?_, hpath'.symm, hcompatible⟩, ⟨c, hc.1, hc.2.1, hc.2.2.trans hbus.symm⟩, ?_⟩
    · rw [hbus, hunit]
      exact hcandidate
    · rw [hcompatible]
      exact hdriver
  have happart : ∀ j < maxBusDevices, j ≠ k → ((s.bus .i2c).devices j).controller.isSome = true →
      ((s.bus .i2c).devices j).path ≠ (b'.devices k).path := by
    intro j hj hjk hused heq
    rcases hcases with ⟨-, husedk, hpathk⟩ | ⟨-, -, hnone⟩
    · exact hjk (h.apart j k hj hk hused husedk (heq.trans (hpath'.trans hpathk.symm)))
    · exact hnone j hj hused (heq.trans hpath')
  have hwritten := h.write hcontrollers'' hdrivers'' hother' htied happart
  have hbusi : Function.update s.bus .i2c b' .i2c = b' := Function.update_self ..
  refine ⟨⟨hs.setNode hi rfl, hgrows, hpaths, fun hplaced => ?_, ?_, ?_, ?_, fun j hj => ?_⟩, ?_, ?_⟩
  · intro j hj hu
    rw [hpaths]
    exact resolveIrqResources_placed hplaced hfits i irqMaxResources j hj hu
  · exact (congrArg Bus.controllers hbusi).trans hcontrollers''
  · exact (congrArg Bus.drivers hbusi).trans hdrivers''
  · dsimp only
    rw [Function.update_of_ne (show BusKind.spi ≠ .i2c by decide)]
  · dsimp only
    rw [hbusi]
    by_cases hjk : j = k
    · subst hjk
      refine ⟨by rw [hcontroller]; rfl, ?_, fun hb => ?_⟩
      · rcases hcases with ⟨-, -, hpathk⟩ | ⟨-, hfree, -⟩
        · rw [hpath', hpathk]
        · rw [hfree] at hj
          cases hj
      · rcases hcases with ⟨heq, -, -⟩ | ⟨-, hfree, -⟩
        · rw [heq, hb] at hbound
          cases hbound
        · rw [hfree] at hj
          cases hj
    · rw [hother' j hjk]
      exact ⟨hj, rfl, id⟩
  · dsimp only
    exact hwritten.mono hgrows rfl (fun _ _ _ => rfl) fun _ _ _ => rfl
  · dsimp only
    rw [hbusi]
    intro busId' unit' compatible' hcandidate' _
    have hcandidate₀ := (Candidate.iff_of_paths hgrows (.refl _) fun x => by rw [hpaths]).1 hcandidate'
    obtain ⟨-, -, rfl⟩ := hcandidate.unique hcandidate₀
    refine ⟨k, hk, by rw [hcontroller]; rfl, ?_, fun hfound => ?_⟩
    · rw [hpath', hgrows.path hi]
    · rw [hk']
      refine probed_bound ?_
      rwa [findDriverByCompatible, hdrivers'] at hfound

theorem bound_settles (hs : s.tree.Sound) (hi : i < s.tree.nodes.length)
    (h : Tied s.tree (s.bus .i2c))
    (hslot : deviceSlot (s.bus .i2c) (s.tree.node i).path = some (k, b))
    (hbound : (b.devices k).bound = true)
    (hrun : (.ok, { s.setBus .i2c b with tree := setBound s.tree i true }) = (Status.ok, s')) :
    Passes s s' ∧ Tied s'.tree (s'.bus .i2c) ∧ Settled s'.tree (s'.bus .i2c) i := by
  obtain ⟨hk, -, -, -, hcases⟩ := deviceSlot_cases hslot
  rcases hcases with ⟨rfl, hused, hpath⟩ | ⟨hempty, -, -⟩
  · have hsame : Function.update s.bus .i2c (s.bus .i2c) = s.bus := Function.update_eq_self ..
    obtain rfl : Buses.mk (setBound s.tree i true) s.domains s.bus = s' := by
      rw [← (Prod.mk.inj hrun).2, Buses.setBus, hsame]
    have hgrows := setBound_grows hs hi true
    have hpaths : (setBound s.tree i true).paths = s.tree.paths := paths_setNode hi rfl
    refine ⟨⟨hs.setNode hi rfl, hgrows, hpaths, fun hplaced j hj hu => ?_, rfl, rfl, rfl,
      fun _ hj => ⟨hj, rfl, id⟩⟩, h.mono hgrows rfl (fun _ _ _ => rfl) fun _ _ _ => rfl, ?_⟩
    · dsimp only
      rw [hpaths]
      exact hplaced j hj hu
    · intro busId unit compatible _ _
      exact ⟨k, hk, hused, hpath.trans (hgrows.path hi).symm, fun _ => hbound⟩
  · rw [hempty] at hbound
    cases hbound

theorem bindNode_settles (hs : s.tree.Sound)
    (hfits : ∀ x ∈ s.tree.paths, x.length < treeMaxPath) (hi : i < s.tree.nodes.length)
    (h : Tied s.tree (s.bus .i2c)) (hrun : bindNode .i2c s i .ok = (.ok, s')) :
    Passes s s' ∧ Tied s'.tree (s'.bus .i2c) ∧ Settled s'.tree (s'.bus .i2c) i := by
  obtain ⟨hnone, hnode⟩ | ⟨busId, unit, c, compatible, hunder, hunit, hfind, hcompatible, hnode⟩ :=
    bindNode_cases .i2c s i .ok <;> rw [hnode] at hrun
  · obtain rfl := (Prod.mk.inj hrun).2
    refine ⟨.refl hs, h, fun busId unit compatible hc hcontroller => ?_⟩
    obtain ⟨c, hfind⟩ := Option.isSome_iff_exists.1 hcontroller
    exact absurd ⟨hc.under, hc.unit, hfind, hc.compatible⟩ (hnone busId unit c compatible)
  · cases hslot : deviceSlot (s.bus .i2c) (s.tree.node i).path with
    | none =>
      rw [hslot] at hrun
      cases (Prod.mk.inj hrun).1
    | some pair =>
      rw [hslot] at hrun
      dsimp only at hrun
      split_ifs at hrun with hbound
      · exact bound_settles hs hi h hslot hbound hrun
      · exact describeDevice_settles hs hfits hi h ⟨hunder, hunit, hcompatible⟩
          (findController_some hfind) hslot (by simpa using hbound) hrun

theorem bindNodes_settles (nodes : List Nat) (hs : s.tree.Sound)
    (hfits : ∀ x ∈ s.tree.paths, x.length < treeMaxPath)
    (hnodes : ∀ i ∈ nodes, i < s.tree.nodes.length) (h : Tied s.tree (s.bus .i2c))
    (hrun : bindNodes .i2c (fun _ => .ok) nodes s = (.ok, s')) :
    Passes s s' ∧ Tied s'.tree (s'.bus .i2c) ∧
      ∀ i, i ∈ nodes ∨ Settled s.tree (s.bus .i2c) i → Settled s'.tree (s'.bus .i2c) i := by
  induction nodes generalizing s with
  | nil =>
    obtain rfl := (Prod.mk.inj hrun).2
    exact ⟨.refl hs, h, fun i hi => hi.resolve_left List.not_mem_nil⟩
  | cons i rest ih =>
    rw [bindNodes] at hrun
    have hi := hnodes i List.mem_cons_self
    cases hnode : bindNode .i2c s i .ok with
    | mk status s₁ =>
      rw [hnode] at hrun
      by_cases hstatus : status = .ok
      · subst hstatus
        obtain ⟨hpass, htied, hsettled⟩ := bindNode_settles hs hfits hi h hnode
        obtain ⟨hpass', htied', hsettled'⟩ := ih hpass.sound (hpass.paths ▸ hfits)
          (fun j hj => hpass.length_eq ▸ hnodes j (List.mem_cons_of_mem _ hj)) htied hrun
        refine ⟨hpass.trans hpass', htied', fun j hj => hsettled' j ?_⟩
        rcases hj with hj | hj
        · rcases List.mem_cons.1 hj with rfl | hj
          · exact .inr hsettled
          · exact .inl hj
        · exact .inr (hpass.settled hj)
      · cases status with
        | ok => exact absurd rfl hstatus
        | _ => cases (Prod.mk.inj hrun).1

/-- A whole pass settles the nodes. -/
theorem radI2cBindTree_settles (hs : s.tree.Sound)
    (hfits : ∀ x ∈ s.tree.paths, x.length < treeMaxPath) (h : Tied s.tree (s.bus .i2c))
    (hrun : radI2cBindTree s (fun _ => .ok) = (.ok, s')) :
    Passes s s' ∧ Tied s'.tree (s'.bus .i2c) ∧ ∀ i, Settled s'.tree (s'.bus .i2c) i := by
  obtain ⟨hpass, htied, hsettled⟩ := bindNodes_settles (List.range s.tree.nodes.length) hs hfits
    (fun i hi => List.mem_range.1 hi) h hrun
  refine ⟨hpass, htied, fun i busId unit compatible hc hcontroller => ?_⟩
  have hi : i < s.tree.nodes.length := hpass.length_eq ▸ hc.lt
  exact hsettled i (.inl (List.mem_range.2 hi)) busId unit compatible hc hcontroller

end RadKernel.Overlay
