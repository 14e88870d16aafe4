import RadKernel.Overlay.Bus

/-!
# Drivers and their devices

A device that is bound has a controller and the driver that probed it. The driver that probed a
device last with success is removed from it before it is probed again and before its record is zeroed.
-/

namespace RadKernel.Overlay

/-! ## The law -/

/-- The driver that probed the device with success and was not removed since. -/
def attached : List BusEvent → Option BusDriver
  | [] => none
  | .probe driver status :: events => if status = .ok then some driver else attached events
  | .remove _ :: _ => none
  | .cleared :: events => attached events

/-- A device is probed or zeroed when no driver is attached; a driver is removed where it is. -/
def Paired : List BusEvent → Prop
  | [] => True
  | .probe _ _ :: events => attached events = none ∧ Paired events
  | .remove driver :: events => attached events = some driver ∧ Paired events
  | .cleared :: events => attached events = none ∧ Paired events

/-- A device that is bound has a controller in use, and a driver in use of the name it has. -/
structure BoundDevice (b : Bus) (device : BusDevice) : Prop where
  controller : ∃ c, device.controller = some c ∧ c < maxControllers ∧ (b.controllers c).used = true
  index_lt : device.driverIndex < maxBusDrivers
  used : (b.drivers device.driverIndex).used = true
  name : (b.drivers device.driverIndex).name = device.driver

/-- What a device record has to do with what happened to it. -/
structure Attended (b : Bus) (device : BusDevice) (events : List BusEvent) : Prop where
  paired : Paired events
  attached_eq : attached events =
    if device.bound = true then some (b.drivers device.driverIndex) else none
  controller : ∀ c, device.controller = some c → c < maxControllers ∧ (b.controllers c).used = true
  bound : device.bound = true → BoundDevice b device

/-- What every call keeps. -/
structure Bus.Lawful (b : Bus) : Prop where
  device : ∀ k, Attended b (b.devices k) (b.eventsOf k)
  slot : ∀ k, (b.devices k).controller ≠ none → k < maxBusDevices
  names : ∀ d e, d < maxBusDrivers → e < maxBusDrivers → (b.drivers d).used = true →
    (b.drivers e).used = true → (b.drivers d).name = (b.drivers e).name → d = e
  fits : ∀ d, (b.drivers d).name.length < driverNameMax

def Buses.Lawful (s : Buses) : Prop := ∀ kind, (s.bus kind).Lawful

theorem copyString_of_lt {size : Nat} {s : CString} (h : s.length < size) : copyString size s = s :=
  List.take_of_length_le (Nat.le_sub_one_of_lt h)

/-! ## The tables -/

namespace Bus

variable (b : Bus) (k j : Nat) (device : BusDevice) (event : BusEvent)

@[simp] theorem setDevice_devices :
    (b.setDevice k device).devices j = if j = k then device else b.devices j := by
  simp only [setDevice, Function.update_apply]

@[simp] theorem setDevice_drivers : (b.setDevice k device).drivers = b.drivers := rfl
@[simp] theorem setDevice_controllers : (b.setDevice k device).controllers = b.controllers := rfl
@[simp] theorem setDevice_eventsOf : (b.setDevice k device).eventsOf j = b.eventsOf j := rfl

@[simp] theorem setController_controllers (c : Nat) (controller : BusController) :
    (b.setController c controller).controllers j = if j = c then controller else b.controllers j := by
  simp only [setController, Function.update_apply]

@[simp] theorem setDriver_drivers (d : Nat) (driver : BusDriver) :
    (b.setDriver d driver).drivers j = if j = d then driver else b.drivers j := by
  simp only [setDriver, Function.update_apply]

@[simp] theorem note_devices : (b.note k event).devices = b.devices := rfl
@[simp] theorem note_drivers : (b.note k event).drivers = b.drivers := rfl
@[simp] theorem note_controllers : (b.note k event).controllers = b.controllers := rfl

@[simp] theorem note_eventsOf :
    (b.note k event).eventsOf j = if j = k then event :: b.eventsOf j else b.eventsOf j := by
  unfold note eventsOf
  by_cases h : j = k
  · subst h
    simp
  · simp [h, Ne.symm h]

end Bus

namespace Bus.Lawful

variable {b : Bus} {k : Nat} {device : BusDevice}

section
variable (h : b.Lawful)
include h

theorem replace {b' : Bus} {events : List BusEvent}
    (hdevices : ∀ j, b'.devices j = if j = k then device else b.devices j)
    (hevents : ∀ j, b'.eventsOf j = if j = k then events else b.eventsOf j)
    (hdrivers : b'.drivers = b.drivers) (hcontrollers : b'.controllers = b.controllers)
    (hslot : device.controller ≠ none → k < maxBusDevices) (hdevice : Attended b device events) :
    b'.Lawful where
  device j := by
    have hold := h.device j
    have hframe : ∀ {device events}, Attended b device events → Attended b' device events := by
      intro device events ha
      refine ⟨ha.paired, by rw [hdrivers]; exact ha.attached_eq,
        by rw [hcontrollers]; exact ha.controller, fun hbound => ?_⟩
      obtain ⟨hc, hlt, hused, hname⟩ := ha.bound hbound
      exact ⟨by rwa [hcontrollers], hlt, by rwa [hdrivers], by rwa [hdrivers]⟩
    rw [hdevices, hevents]
    split_ifs
    · exact hframe hdevice
    · exact hframe hold
  slot j := by
    rw [hdevices]
    split_ifs with hj
    · exact hj ▸ hslot
    · exact h.slot j
  names := hdrivers ▸ h.names
  fits := hdrivers ▸ h.fits

theorem set (hslot : device.controller ≠ none → k < maxBusDevices)
    (hdevice : Attended b device (b.eventsOf k)) : (b.setDevice k device).Lawful := by
  refine h.replace (b.setDevice_devices k · device) (fun j => ?_) rfl rfl hslot hdevice
  rw [Bus.setDevice_eventsOf]
  split_ifs with hj
  · rw [hj]
  · rfl

theorem note_set {event : BusEvent} (hslot : device.controller ≠ none → k < maxBusDevices)
    (hdevice : Attended b device (event :: b.eventsOf k)) :
    ((b.note k event).setDevice k device).Lawful := by
  refine h.replace (fun j => by simp) (fun j => ?_) rfl rfl hslot hdevice
  rw [Bus.setDevice_eventsOf, Bus.note_eventsOf]
  split_ifs with hj
  · rw [hj]
  · rfl

theorem unbound (hbound : (b.devices k).bound = false) : attached (b.eventsOf k) = none := by
  rw [(h.device k).attached_eq, hbound]
  rfl

theorem clear (hattached : attached (b.eventsOf k) = none) : (b.clearDevice k).Lawful := by
  refine h.note_set (fun hc => absurd rfl hc) ⟨⟨hattached, (h.device k).paired⟩, ?_, ?_, ?_⟩
  · simpa [attached] using hattached
  · intro c hc
    cases hc
  · intro hbound
    cases hbound

/-- What is written into a record that is not bound does not bind it. -/
theorem idle (hk : k < maxBusDevices) (hbound : (b.devices k).bound = false)
    (hdevice : device.bound = false)
    (hcontroller : ∀ c, device.controller = some c →
      c < maxControllers ∧ (b.controllers c).used = true) : (b.setDevice k device).Lawful := by
  refine h.set (fun _ => hk) ⟨(h.device k).paired, ?_, hcontroller, ?_⟩
  · rw [h.unbound hbound, hdevice]
    rfl
  · intro hb
    rw [hdevice] at hb
    cases hb

end

end Bus.Lawful

/-! ## Searches -/

variable {k d : Nat} {b : Bus} {s : Buses}

/-- A search through a bus array in slot order finds a slot of the array that passes its test. -/
theorem find_range {n : Nat} {P : Nat → Prop} [DecidablePred P]
    (h : (List.range n).find? (fun k => P k) = some k) : k < n ∧ P k :=
  ⟨List.mem_range.1 (List.mem_of_find?_eq_some h), by simpa using List.find?_some h⟩

variable {path : CString}

theorem deviceSlot_some {b' : Bus} (h : deviceSlot b path = some (k, b')) :
    findDeviceByPath b path = some k ∧ b' = b ∨ findDeviceByPath b path = none ∧
      k < maxBusDevices ∧ (b.devices k).controller = none ∧ b' = b.clearDevice k := by
  unfold deviceSlot at h
  cases hfind : findDeviceByPath b path with
  | some j =>
    rw [hfind] at h
    cases h
    exact .inl ⟨rfl, rfl⟩
  | none =>
    rw [hfind] at h
    obtain ⟨j, hj, hpair⟩ := Option.map_eq_some_iff.1 h
    cases hpair
    have hk := List.mem_range.1 (List.mem_of_find?_eq_some hj)
    exact .inr ⟨rfl, hk, by simpa using List.find?_some hj, rfl⟩

theorem findController_some {busId c : Nat} (h : findController b busId = some c) :
    c < maxControllers ∧ (b.controllers c).used = true ∧ (b.controllers c).busId = busId :=
  find_range h

theorem findDriverByCompatible_some {compatible : CString}
    (h : findDriverByCompatible b compatible = some d) :
    d < maxBusDrivers ∧ (b.drivers d).used = true ∧ (b.drivers d).compatible = compatible :=
  find_range h

/-- What a round does for a node: nothing, or it looks for a device record. -/
theorem bindNode_cases (kind : BusKind) (s : Buses) (i : Nat) (answer : Status) :
    (∀ busId unit c compatible, ¬(nodeIsUnder kind s.tree i = some busId ∧
        unitOf? kind s.tree i = some unit ∧ findController (s.bus kind) busId = some c ∧
        stringOf? s.tree i "compatible" = some compatible)) ∧ bindNode kind s i answer = (.ok, s) ∨
    ∃ busId unit c compatible, nodeIsUnder kind s.tree i = some busId ∧
      unitOf? kind s.tree i = some unit ∧ findController (s.bus kind) busId = some c ∧
      stringOf? s.tree i "compatible" = some compatible ∧ bindNode kind s i answer =
        match deviceSlot (s.bus kind) (s.tree.node i).path with
        | none => (.noMemory, s)
        | some (k, b) =>
          if (b.devices k).bound then
            (.ok, { s.setBus kind b with tree := setBound s.tree i true })
          else describeDevice kind s b k i busId unit c compatible answer := by
  unfold bindNode
  split
  · next busId unit hunder hunit =>
    split
    · next c compatible hc hcompatible =>
      exact .inr ⟨busId, unit, c, compatible, hunder, hunit, hc, hcompatible, rfl⟩
    · next hnone =>
      refine .inl ⟨fun busId' unit' c compatible ⟨hunder', _, hc, hcompatible⟩ => ?_, rfl⟩
      rw [hunder, Option.some.injEq] at hunder'
      exact hnone c compatible (hunder' ▸ hc) hcompatible
  · next hnone => exact .inl ⟨fun _ _ _ _ h => hnone _ _ h.1 h.2.1, rfl⟩

theorem findDriverByName_some {name : CString} (h : findDriverByName b name = some d) :
    d < maxBusDrivers ∧ (b.drivers d).used = true ∧ (b.drivers d).name = name :=
  find_range h

theorem findDeviceByPath_some (h : findDeviceByPath b path = some k) :
    k < maxBusDevices ∧ (b.devices k).controller.isSome = true ∧ (b.devices k).path = path :=
  find_range h

namespace Bus.Lawful

variable {b : Bus} {k : Nat} {device : BusDevice}

theorem deviceSlot (h : b.Lawful) {path : CString} {b' : Bus}
    (hslot : deviceSlot b path = some (k, b')) :
    b'.Lawful ∧ k < maxBusDevices ∧ b'.controllers = b.controllers := by
  obtain ⟨hfind, rfl⟩ | ⟨-, hk, hfree, rfl⟩ := deviceSlot_some hslot
  · exact ⟨h, (findDeviceByPath_some hfind).1, rfl⟩
  · have hunbound : (b.devices k).bound = false := by
      by_contra hbound
      obtain ⟨c, hc, -⟩ := ((h.device k).bound (by simpa using hbound)).controller
      rw [hc] at hfree
      cases hfree
    exact ⟨h.clear (h.unbound hunbound), hk, rfl⟩

theorem probeDevice (h : b.Lawful) (hk : k < maxBusDevices) {c : Nat}
    (hc : (b.devices k).controller = some c) (hbound : (b.devices k).bound = false)
    (answer : Status) : (probeDevice b k answer).2.Lawful := by
  have hcontroller := (h.device k).controller
  have hunbound := h.unbound hbound
  unfold Overlay.probeDevice
  dsimp only
  cases hd : findDriverByCompatible b (b.devices k).compatible with
  | none =>
    exact @idle _ _ { b.devices k with bound := false, driver := [] } h hk hbound rfl hcontroller
  | some d =>
    obtain ⟨hlt, hused, -⟩ := findDriverByCompatible_some hd
    set device : BusDevice := { b.devices k with
      driverIndex := d, driver := copyString driverNameMax (b.drivers d).name } with hdevice
    have hswap : (b.setDevice k device).note k (.probe (b.drivers d) answer) =
        (b.note k (.probe (b.drivers d) answer)).setDevice k device := rfl
    dsimp only
    rw [hswap]
    split_ifs with hanswer
    · refine h.note_set (fun _ => hk) ⟨⟨hunbound, (h.device k).paired⟩, ?_, hcontroller, ?_⟩
      · rw [attached, if_neg hanswer, hunbound, if_neg (by simp [hdevice, hbound])]
      · intro hb
        rw [hdevice] at hb
        simp [hbound] at hb
    · have htwice : ((b.note k (.probe (b.drivers d) answer)).setDevice k device).setDevice k
          { device with bound := true } =
          (b.note k (.probe (b.drivers d) answer)).setDevice k { device with bound := true } := by
        simp [Bus.setDevice]
      rw [htwice]
      refine h.note_set (fun _ => hk) ⟨⟨hunbound, (h.device k).paired⟩, ?_, hcontroller, fun _ => ?_⟩
      · rw [attached, if_pos (not_not.1 hanswer), if_pos rfl]
      · exact ⟨⟨c, hc, hcontroller c hc⟩, hlt, hused, (copyString_of_lt (h.fits d)).symm⟩

end Bus.Lawful

/-! ## Registering and unregistering -/

namespace Bus.Lawful

variable {b : Bus}

/-- A slot that no device refers to gets a controller, or is zeroed. -/
theorem setController (h : b.Lawful) {c : Nat} (controller : BusController)
    (hfree : ∀ k, (b.devices k).controller ≠ some c) : (b.setController c controller).Lawful where
  device k := by
    have hk := h.device k
    have hcontroller : ∀ c', (b.devices k).controller = some c' → c' < maxControllers ∧
        ((b.setController c controller).controllers c').used = true := by
      intro c' hc'
      have hne : c' ≠ c := fun heq => hfree k (heq ▸ hc')
      rw [Bus.setController_controllers, if_neg hne]
      exact hk.controller c' hc'
    refine ⟨hk.paired, hk.attached_eq, hcontroller, fun hbound => ?_⟩
    obtain ⟨⟨c', hc', -⟩, hlt, hused, hname⟩ := hk.bound hbound
    exact ⟨⟨c', hc', hcontroller c' hc'⟩, hlt, hused, hname⟩
  slot := h.slot
  names := h.names
  fits := h.fits

/-- A slot whose driver no device is bound to gets a driver of a new name, or is zeroed. -/
theorem setDriver (h : b.Lawful) {driver : BusDriver}
    (hfree : ∀ k, (b.devices k).bound = true → (b.devices k).driverIndex ≠ d)
    (hnames : driver.used = true → ∀ e, e < maxBusDrivers → (b.drivers e).used = true →
      (b.drivers e).name = driver.name → e = d)
    (hfits : driver.name.length < driverNameMax) : (b.setDriver d driver).Lawful where
  device k := by
    have hk := h.device k
    have hsame : (b.devices k).bound = true → (b.setDriver d driver).drivers
        (b.devices k).driverIndex = b.drivers (b.devices k).driverIndex := by
      intro hbound
      rw [Bus.setDriver_drivers, if_neg (hfree k hbound)]
    refine ⟨hk.paired, ?_, hk.controller, fun hbound => ?_⟩
    · rw [show (b.setDriver d driver).eventsOf k = b.eventsOf k from rfl, hk.attached_eq]
      refine if_ctx_congr Iff.rfl (fun hbound => ?_) fun _ => rfl
      rw [← hsame hbound]
      rfl
    · obtain ⟨hc, hlt, hused, hname⟩ := hk.bound hbound
      refine ⟨hc, hlt, ?_, ?_⟩
      · rw [show (b.setDriver d driver).devices k = b.devices k from rfl, hsame hbound]
        exact hused
      · rw [show (b.setDriver d driver).devices k = b.devices k from rfl, hsame hbound]
        exact hname
  slot := h.slot
  names := by
    intro e e' he he' hused hused' hname
    rw [Bus.setDriver_drivers] at hused hused' hname
    rw [Bus.setDriver_drivers] at hname
    split_ifs at hused hused' hname with hd hd' hd'
    · rw [hd, hd']
    · exact hd.trans (hnames hused e' he' hused' hname.symm).symm
    · exact (hnames hused' e he hused hname).trans hd'.symm
    · exact h.names e e' he he' hused hused' hname
  fits e := by
    rw [Bus.setDriver_drivers]
    split_ifs
    · exact hfits
    · exact h.fits e

end Bus.Lawful

namespace Buses.Lawful

variable {s : Buses} {kind : BusKind} {b : Bus}

theorem setBus (h : s.Lawful) (hb : b.Lawful) : (s.setBus kind b).Lawful := by
  intro kind'
  unfold Buses.setBus
  by_cases hkind : kind' = kind
  · subst hkind
    simpa using hb
  · simpa [hkind] using h kind'

theorem describeDevice (h : s.Lawful) (hb : b.Lawful) {i busId unit c : Nat}
    (hk : k < maxBusDevices) (hc : c < maxControllers ∧ (b.controllers c).used = true)
    (hbound : (b.devices k).bound = false) (compatible : CString) (answer : Status) :
    (describeDevice kind s b k i busId unit c compatible answer).2.Lawful := by
  unfold Overlay.describeDevice
  dsimp only
  set device := described kind s.tree i busId unit compatible c (b.controllers c)
    (resolveIrqResources s.tree s.domains i irqMaxResources).1 (b.devices k) with hdevice
  have hidle : device.bound = false := hbound
  have hdescribed : (b.setDevice k device).Lawful := by
    refine hb.idle hk hbound hidle fun c' hc' => ?_
    cases hc'
    exact hc
  have hprobed := hdescribed.probeDevice (c := c) hk (by simp [hdevice, described])
    (by simpa using hidle) answer
  split_ifs
  · exact h.setBus hprobed
  · exact h.setBus hprobed

theorem bindNode (h : s.Lawful) (kind : BusKind) (i : Nat) (answer : Status) :
    (bindNode kind s i answer).2.Lawful := by
  obtain ⟨-, hnode⟩ | ⟨busId, unit, c, compatible, -, -, hc, -, hnode⟩ :=
    bindNode_cases kind s i answer <;> rw [hnode]
  · exact h
  have hcontroller := (findController_some hc).imp_right And.left
  split
  · exact h
  · next k b hslot =>
    obtain ⟨hb, hk, hcontrollers⟩ := (h kind).deviceSlot hslot
    split_ifs with hbound
    · exact h.setBus hb
    · exact h.describeDevice hb hk (hcontrollers ▸ hcontroller) (by simpa using hbound) compatible
        answer

theorem bindNodes (h : s.Lawful) (answers : Nat → Status) (nodes : List Nat) :
    (bindNodes kind answers nodes s).2.Lawful := by
  induction nodes generalizing s with
  | nil => exact h
  | cons i rest ih =>
    rw [Overlay.bindNodes]
    have hnode := h.bindNode kind i (answers i)
    split
    · next s' hs' =>
      rw [hs'] at hnode
      exact ih hnode
    · next status s' _ hs' =>
      rw [hs'] at hnode
      exact hnode

theorem bindBusTree (h : s.Lawful) (answers : Nat → Status) :
    (bindBusTree kind s answers).2.Lawful :=
  h.bindNodes answers _

end Buses.Lawful

/-! ## Loops over the devices -/

/-- A round of a loop over the devices: the tables of controllers and drivers stay, and so do the
other devices. -/
structure Round (kind : BusKind) (k : Nat) (s s' : Buses) : Prop where
  lawful : s'.Lawful
  controllers : (s'.bus kind).controllers = (s.bus kind).controllers
  drivers : (s'.bus kind).drivers = (s.bus kind).drivers
  other : ∀ j, j ≠ k → (s'.bus kind).devices j = (s.bus kind).devices j

/-- What each round brings about for its device, and no later round undoes, holds in the end. -/
theorem rounds {kind : BusKind} {f : Buses → Nat → Buses} {P : BusDevice → Prop}
    (C : Nat → BusController) (D : Nat → BusDriver)
    (hround : ∀ s k, s.Lawful → (s.bus kind).drivers = D → Round kind k s (f s k))
    (hdone : ∀ s k, s.Lawful → P (((f s k).bus kind).devices k)) (slots : List Nat)
    (h : s.Lawful) (hc : (s.bus kind).controllers = C) (hd : (s.bus kind).drivers = D) :
    (slots.foldl f s).Lawful ∧ ((slots.foldl f s).bus kind).controllers = C ∧
      ((slots.foldl f s).bus kind).drivers = D ∧
      ∀ k, P ((s.bus kind).devices k) ∨ k ∈ slots → P (((slots.foldl f s).bus kind).devices k) := by
  induction slots generalizing s with
  | nil => exact ⟨h, hc, hd, fun k hk => hk.resolve_right (List.not_mem_nil)⟩
  | cons j rest ih =>
    have hj := hround s j h hd
    obtain ⟨hlawful, hcontrollers, hdrivers, hall⟩ :=
      ih hj.lawful (hj.controllers.trans hc) (hj.drivers.trans hd)
    refine ⟨hlawful, hcontrollers, hdrivers, fun k hk => hall k ?_⟩
    by_cases hkj : k = j
    · exact .inl (hkj ▸ hdone s j h)
    · refine hk.imp (fun hP => ?_) fun hmem => (List.mem_cons.1 hmem).resolve_left hkj
      rwa [hj.other k hkj]

section

variable {s : Buses} {kind : BusKind}

@[simp] theorem setBus_bus (b : Bus) : (s.setBus kind b).bus kind = b :=
  Function.update_self ..

theorem Round.same (h : s.Lawful) (k : Nat) : Round kind k s s := ⟨h, rfl, rfl, fun _ _ => rfl⟩

/-- The driver of a device is removed, when it is bound, and the record zeroed. -/
theorem dropDevice_round (h : s.Lawful) (c k : Nat) : Round kind k s (dropDevice kind c s k) := by
  have hk := (h kind).device k
  unfold dropDevice
  dsimp only
  split_ifs with hother hremove
  · exact .same h k
  · have hattached : attached ((s.bus kind).eventsOf k) =
        some ((s.bus kind).drivers ((s.bus kind).devices k).driverIndex) := by
      rw [hk.attached_eq, if_pos hremove.1]
    set driver := (s.bus kind).drivers ((s.bus kind).devices k).driverIndex with hdriver
    have hlawful : (((s.bus kind).note k (.remove driver)).clearDevice k).Lawful := by
      refine @Bus.Lawful.replace _ k {} (h kind) _
        (.cleared :: .remove driver :: (s.bus kind).eventsOf k)
        (fun j => by simp [Bus.clearDevice]) (fun j => ?_) rfl rfl (fun hc => absurd rfl hc) ?_
      · simp only [Bus.clearDevice, Bus.setDevice_eventsOf, Bus.note_eventsOf]
        split_ifs with hj
        · rw [hj]
        · rfl
      · refine ⟨⟨rfl, hattached, hk.paired⟩, rfl, ?_, ?_⟩
        · intro c hc
          cases hc
        · intro hb
          cases hb
    refine ⟨h.setBus hlawful, ?_, ?_, fun j hj => ?_⟩ <;> simp [Bus.clearDevice]
    exact fun heq => absurd heq hj
  · have hbound : ((s.bus kind).devices k).bound = false := by
      by_contra hb
      have hdevice := hk.bound (by simpa using hb)
      exact hremove ⟨by simpa using hb, hdevice.index_lt, hdevice.used⟩
    have hlawful := (h kind).clear ((h kind).unbound hbound)
    refine ⟨h.setBus hlawful, ?_, ?_, fun j hj => ?_⟩ <;> simp [Bus.clearDevice]
    exact fun heq => absurd heq hj

theorem dropDevice_done (c k : Nat) :
    (((dropDevice kind c s k).bus kind).devices k).controller ≠ some c := by
  unfold dropDevice
  dsimp only
  split_ifs with hother hremove
  · exact hother
  · simp [Bus.clearDevice]
  · simp [Bus.clearDevice]

/-- A device with the name of the driver is bound no more, and the driver was removed from it. -/
theorem releaseDevice_round (h : s.Lawful) (hd : d < maxBusDrivers)
    (hused : ((s.bus kind).drivers d).used = true) (k : Nat) :
    Round kind k s (releaseDevice kind ((s.bus kind).drivers d) s k) := by
  have hk := (h kind).device k
  unfold releaseDevice
  dsimp only
  split_ifs with hother hbound
  · exact .same h k
  · obtain ⟨hcontroller, hname⟩ := not_or.1 hother
    obtain ⟨-, hlt, hused', hname'⟩ := hk.bound hbound
    have hindex : ((s.bus kind).devices k).driverIndex = d :=
      (h kind).names _ _ hlt hd hused' hused (hname'.trans (not_not.1 hname))
    have hattached : attached ((s.bus kind).eventsOf k) = some ((s.bus kind).drivers d) := by
      rw [hk.attached_eq, if_pos hbound, hindex]
    have hlawful := @Bus.Lawful.note_set _ k
      { (s.bus kind).devices k with bound := false, driver := [] } (h kind)
      (.remove ((s.bus kind).drivers d)) (fun _ => (h kind).slot k hcontroller)
      ⟨⟨hattached, hk.paired⟩, rfl, hk.controller, fun hb => (by cases hb)⟩
    refine ⟨h.setBus hlawful, ?_, ?_, fun j hj => ?_⟩ <;> simp
    exact fun heq => absurd heq hj
  · obtain ⟨hcontroller, -⟩ := not_or.1 hother
    have hlawful := @Bus.Lawful.idle _ k
      { (s.bus kind).devices k with bound := false, driver := [] } (h kind)
      ((h kind).slot k hcontroller) (by simpa using hbound) rfl hk.controller
    refine ⟨h.setBus hlawful, ?_, ?_, fun j hj => ?_⟩ <;> simp
    exact fun heq => absurd heq hj

theorem releaseDevice_done (h : s.Lawful) (driver : BusDriver) (k : Nat) :
    (((releaseDevice kind driver s k).bus kind).devices k).bound = true →
      (((releaseDevice kind driver s k).bus kind).devices k).driver ≠ driver.name := by
  have hk := (h kind).device k
  unfold releaseDevice
  dsimp only
  split_ifs with hother hbound
  · rintro hb
    refine hother.resolve_left fun hnone => ?_
    obtain ⟨c, hc, -⟩ := (hk.bound hb).controller
    rw [hnone] at hc
    cases hc
  · simp
  · simp

end

/-! ## The calls -/

namespace Buses.Lawful

variable {s : Buses} {kind : BusKind}

section
variable (h : s.Lawful)
include h

theorem controllerRegister (config : BusControllerConfig) (registered : Status)
    (answers : Nat → Status) : (controllerRegister kind s config registered answers).2.Lawful := by
  unfold Overlay.controllerRegister
  dsimp only
  split
  · exact h
  · split
    · exact h
    · next c hc =>
      have hunused := List.find?_some hc
      have hfree : ∀ k, ((s.bus kind).devices k).controller ≠ some c := by
        intro k hk
        have hused := (((h kind).device k).controller c hk).2
        simp [hused] at hunused
      split_ifs
      · exact h.setBus ((h kind).setController _ hfree)
      · exact (h.setBus ((h kind).setController _ hfree)).bindBusTree answers

theorem controllerUnregister (busId : Nat) : (controllerUnregister kind s busId).2.Lawful := by
  unfold Overlay.controllerUnregister
  split
  · exact h
  · next c hc =>
    obtain ⟨hlawful, -, -, hall⟩ := rounds (P := fun device => device.controller ≠ some c) _ _
      (fun s k hs _ => dropDevice_round hs c k) (fun s k _ => dropDevice_done c k)
      (List.range maxBusDevices) h rfl rfl
    refine hlawful.setBus ((hlawful kind).setController _ fun k => hall k ?_)
    by_cases hk : k < maxBusDevices
    · exact .inr (List.mem_range.2 hk)
    · refine .inl fun hk' => hk ((h kind).slot k ?_)
      rw [hk']
      exact Option.some_ne_none c

theorem driverRegister {spec : BusDriverSpec} (hspec : spec.name.length < driverNameMax)
    (answers : Nat → Status) : (driverRegister kind s spec answers).2.Lawful := by
  unfold Overlay.driverRegister
  dsimp only
  split_ifs with hname
  · exact h
  · split
    · exact h
    · next d hd =>
      have hunused := List.find?_some hd
      have hnew : (newDriver spec).name = spec.name := copyString_of_lt hspec
      refine (h.setBus ((h kind).setDriver (fun k hk hindex => ?_) (fun _ e he hused hsame => ?_)
        (hnew ▸ hspec))).bindBusTree answers
      · have hused := (((h kind).device k).bound hk).used
        rw [hindex] at hused
        simp [hused] at hunused
      · rw [hnew] at hsame
        have hnone := Option.not_isSome_iff_eq_none.1 hname
        have hnot := List.find?_eq_none.1 hnone e (List.mem_range.2 he)
        simp [hused, hsame] at hnot

theorem driverUnregister (name : CString) : (driverUnregister kind s name).2.Lawful := by
  unfold Overlay.driverUnregister
  split
  · exact h
  · next d hd =>
    obtain ⟨hlt, hused, -⟩ := findDriverByName_some hd
    set driver := (s.bus kind).drivers d with hdriver
    have hround : ∀ s' k, Buses.Lawful s' → (s'.bus kind).drivers = (s.bus kind).drivers →
        Round kind k s' (releaseDevice kind driver s' k) := by
      intro s' k hs' hsame
      have hd' : (s'.bus kind).drivers d = driver := congrFun hsame d
      have hrelease := releaseDevice_round hs' hlt (by rw [hd']; exact hused) k
      rwa [hd'] at hrelease
    obtain ⟨hlawful, -, hdrivers, hall⟩ := rounds
      (P := fun device => device.bound = true → device.driver ≠ driver.name) _ _ hround
      (fun s k hs => releaseDevice_done hs driver k) (List.range maxBusDevices) h rfl rfl
    refine hlawful.setBus ((hlawful kind).setDriver (fun k hbound hindex => ?_)
      (fun hu => by cases hu) (by decide))
    have hname := (((hlawful kind).device k).bound hbound).name
    rw [hindex, hdrivers] at hname
    refine hall k ?_ hbound hname.symm
    by_cases hk : k < maxBusDevices
    · exact .inr (List.mem_range.2 hk)
    · refine .inl fun hb => absurd ((h kind).slot k ?_) hk
      obtain ⟨c, hc, -⟩ := (((h kind).device k).bound hb).controller
      rw [hc]
      exact Option.some_ne_none c

theorem cmdBind (i2cAnswers spiAnswers : Nat → Status) :
    (cmdBind s i2cAnswers spiAnswers).2.Lawful := by
  have hirq : (bindIrqDomainsFromTree s).2.Lawful := h
  unfold Overlay.cmdBind
  split
  · next s₁ hs₁ =>
    rw [hs₁] at hirq
    have hi2c : (radI2cBindTree s₁ i2cAnswers).2.Lawful := hirq.bindBusTree i2cAnswers
    split
    · next s₂ hs₂ =>
      rw [hs₂] at hi2c
      exact hi2c.bindBusTree spiAnswers
    · next status s₂ _ hs₂ =>
      rw [hs₂] at hi2c
      exact hi2c
  · next status s₁ _ hs₁ =>
    rw [hs₁] at hirq
    exact hirq

theorem sameBuses {s' : Buses} (hs' : s'.bus = s.bus) : s'.Lawful := by
  intro kind
  rw [hs']
  exact h kind

end

end Buses.Lawful

theorem radIrqDomainRegister_bus (s : Buses) (config : IrqDomainConfig) :
    (radIrqDomainRegister s config).2.bus = s.bus := by
  unfold radIrqDomainRegister
  split_ifs
  · rfl
  · rfl
  · rfl
  · rfl
  · split
    · rfl
    · dsimp only
      split <;> rfl

theorem radIrqDomainUnregister_bus (s : Buses) (path : CString) :
    (radIrqDomainUnregister s path).2.bus = s.bus := by
  unfold radIrqDomainUnregister
  split <;> rfl

/-- The names of drivers fit their field. -/
def NameFits (_ : Buses) : BusCall → Prop
  | .driverRegister _ spec _ => spec.name.length < driverNameMax
  | _ => True

/-- One call keeps the law. -/
theorem Buses.Lawful.next (h : s.Lawful) {call : BusCall} (hcall : NameFits s call) :
    (s.next call).Lawful := by
  cases call with
  | controllerRegister kind config registered answers =>
    exact h.controllerRegister config registered answers
  | controllerUnregister kind busId => exact h.controllerUnregister busId
  | driverRegister kind spec answers => exact h.driverRegister hcall answers
  | driverUnregister kind name => exact h.driverUnregister name
  | bindTree kind answers => exact h.bindBusTree answers
  | bind i2cAnswers spiAnswers => exact h.cmdBind i2cAnswers spiAnswers
  | loadOverlay bytes beyond => exact h
  | irqDomainRegister config => exact h.sameBuses (radIrqDomainRegister_bus s config)
  | irqDomainUnregister path => exact h.sameBuses (radIrqDomainUnregister_bus s path)

theorem Buses.Lawful.start (h : s.Start) : s.Lawful := by
  intro kind
  rw [h kind]
  refine ⟨fun k => ⟨trivial, rfl, ?_, ?_⟩, fun k hk => absurd rfl hk, ?_,
    fun _ => Nat.zero_lt_succ _⟩
  · intro c hc
    cases hc
  · intro hb
    cases hb
  · intro d e _ _ hused
    cases hused

/-- Along every run a device that is bound has its controller and its driver, and its probes and
removals are paired: the driver that is attached is the one it is bound to. -/
theorem binding_of_run {s : Buses} (h : Run (Obeys Buses.next NameFits) Buses.Start s)
    (kind : BusKind) (k : Nat) :
    (((s.bus kind).devices k).bound = true → BoundDevice (s.bus kind) ((s.bus kind).devices k)) ∧
      Paired ((s.bus kind).eventsOf k) ∧
      attached ((s.bus kind).eventsOf k) =
        if ((s.bus kind).devices k).bound = true then
          some ((s.bus kind).drivers ((s.bus kind).devices k).driverIndex)
        else none := by
  have hlawful : s.Lawful := by
    refine h.invariant (fun s hs => .start hs) ?_
    rintro s call t hs ⟨hcall, rfl⟩
    exact hs.next hcall
  have hk := (hlawful kind).device k
  exact ⟨hk.bound, hk.paired, hk.attached_eq⟩

/-- A tree with a temperature sensor on an I2C bus. -/
def sensorTree : TreeState :=
  let t := (ensureNodePath radOverlayReset (text "/i2c@0/temp")).2
  setPropertyString (setPropertyU32 t 2 (text "reg") 72) 2 (text "compatible") (text "sensor")

def sensorDriver : BusDriverSpec where
  name := text "temp"
  compatible := text "sensor"

/-- The driver of the sensor is registered, and then its controller. -/
def sensorCalls : List BusCall :=
  [.driverRegister .i2c sensorDriver fun _ => .ok,
   .controllerRegister .i2c { busId := 0 } .ok fun _ => .ok]

def sensorBus : Bus := (sensorCalls.foldl Buses.next { tree := sensorTree }).bus .i2c

theorem binding_of_run_sensor :
    (sensorBus.devices 0).bound = true ∧ BoundDevice sensorBus (sensorBus.devices 0) ∧
      Paired (sensorBus.eventsOf 0) := by
  have hrun : Run (Obeys Buses.next NameFits) Buses.Start
      (sensorCalls.foldl Buses.next { tree := sensorTree }) :=
    Run.along sensorCalls (.start fun _ => rfl)
      ⟨show (text "temp").length < driverNameMax by decide, trivial, trivial⟩
  obtain ⟨hbound, hpaired, -⟩ := binding_of_run hrun .i2c 0
  have hyes : (sensorBus.devices 0).bound = true := by decide +kernel
  exact ⟨hyes, hbound hyes, hpaired⟩

end RadKernel.Overlay
