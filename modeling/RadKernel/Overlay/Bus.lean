import RadKernel.Lib.Run
import RadKernel.Overlay.Model

/-!
# I2C and SPI buses, and interrupt domains

Controllers, drivers and devices in tables of slots that are zeroed and used again, and the passes
over the tree that bind drivers to devices. The two buses run the same code on their own tables; what
differs is a function of `BusKind`. What a probe callback answers is part of the call that runs it,
for each node of the tree; a callback that is missing counts as one that does nothing and answers
`RAD_STATUS_OK`, as the code takes it. What `rad_device_register` answers is part of the call too.

The callbacks that were run, and the points at which a device record was zeroed, are kept beside the
tables, the latest first.
-/

namespace RadKernel.Overlay

def maxControllers : Nat := 8
def maxBusDrivers : Nat := 16
def maxBusDevices : Nat := 32
def maxIrqDomains : Nat := 16
def driverNameMax : Nat := 32
def compatibleMax : Nat := 64
def irqDomainNameMax : Nat := 32
def irqMaxResources : Nat := 4

/-- The size of `rad_irq_domain_config_t`. -/
def irqDomainConfigBytes : Nat := 40

/-! ## State -/

inductive BusKind where
  | i2c
  | spi
  deriving DecidableEq, Repr

/-- `rad_irq_trigger_t`. -/
inductive IrqTrigger where
  | none
  | edgeRising
  | edgeFalling
  | levelHigh
  | levelLow
  deriving DecidableEq, Repr

structure IrqResource where
  irq : Nat
  line : Nat
  flags : Nat
  trigger : IrqTrigger
  domain : CString
  controllerPath : CString
  deriving DecidableEq, Repr

structure IrqDomainConfig where
  size : Nat := irqDomainConfigBytes
  name : Option CString := none
  treePath : CString := []
  interruptBase : Nat := 0
  lineCount : Nat := 0
  interruptCells : Nat := 0
  deriving DecidableEq, Repr

structure IrqDomain where
  name : CString := []
  treePath : CString := []
  interruptBase : Nat := 0
  lineCount : Nat := 0
  interruptCells : Nat := 0
  used : Bool := false
  deriving DecidableEq, Repr

structure BusControllerConfig where
  busId : Nat
  clockHz : Nat := 0
  deriving DecidableEq, Repr

structure BusController where
  busId : Nat := 0
  clockHz : Nat := 0
  used : Bool := false
  deriving DecidableEq, Repr

/-- `rad_i2c_driver_t` and `rad_spi_driver_t`; the context stands for the callbacks. -/
structure BusDriverSpec where
  name : CString := []
  compatible : CString := []
  context : Nat := 0
  deriving DecidableEq, Repr

structure BusDriver where
  spec : BusDriverSpec := {}
  name : CString := []
  compatible : CString := []
  used : Bool := false
  deriving DecidableEq, Repr

inductive SpiTransferMode where
  | auto
  | pio
  | dma
  deriving DecidableEq, Repr

/-- What an SPI device has and an I2C device has not. -/
structure SpiSettings where
  clockHz : Nat := 0
  mode : Nat := 0
  bitsPerWord : Nat := 0
  transferMode : SpiTransferMode := .auto
  deriving DecidableEq, Repr

/-- `rad_i2c_device` and `rad_spi_device`; the unit is the address or the chip select. -/
structure BusDevice where
  busId : Nat := 0
  unit : Nat := 0
  settings : SpiSettings := {}
  irqs : List IrqResource := []
  path : CString := []
  compatible : CString := []
  driver : CString := []
  controller : Option Nat := none
  driverIndex : Nat := 0
  bound : Bool := false
  deriving DecidableEq, Repr

inductive BusEvent where
  | probe (driver : BusDriver) (status : Status)
  | remove (driver : BusDriver)
  | cleared
  deriving DecidableEq, Repr

structure Bus where
  controllers : Nat → BusController := fun _ => {}
  drivers : Nat → BusDriver := fun _ => {}
  devices : Nat → BusDevice := fun _ => {}
  /-- What happened to the devices, with their slots. -/
  log : List (Nat × BusEvent) := []

structure Buses where
  tree : TreeState := radOverlayReset
  domains : Nat → IrqDomain := fun _ => {}
  bus : BusKind → Bus := fun _ => {}

def Bus.setController (b : Bus) (c : Nat) (controller : BusController) : Bus :=
  { b with controllers := Function.update b.controllers c controller }

def Bus.setDriver (b : Bus) (d : Nat) (driver : BusDriver) : Bus :=
  { b with drivers := Function.update b.drivers d driver }

def Bus.setDevice (b : Bus) (k : Nat) (device : BusDevice) : Bus :=
  { b with devices := Function.update b.devices k device }

def Bus.note (b : Bus) (k : Nat) (event : BusEvent) : Bus := { b with log := (k, event) :: b.log }

/-- `memset` of a device record. -/
def Bus.clearDevice (b : Bus) (k : Nat) : Bus := (b.note k .cleared).setDevice k {}

def Buses.setBus (s : Buses) (kind : BusKind) (b : Bus) : Buses :=
  { s with bus := Function.update s.bus kind b }

/-! ## Searches -/

/-- `find_i2c` and `find_spi`. -/
def findController (b : Bus) (busId : Nat) : Option Nat :=
  (List.range maxControllers).find? fun c => (b.controllers c).used ∧ (b.controllers c).busId = busId

def findDriverByName (b : Bus) (name : CString) : Option Nat :=
  (List.range maxBusDrivers).find? fun d => (b.drivers d).used ∧ (b.drivers d).name = name

def findDriverByCompatible (b : Bus) (compatible : CString) : Option Nat :=
  (List.range maxBusDrivers).find? fun d =>
    (b.drivers d).used ∧ (b.drivers d).compatible = compatible

def findDeviceByPath (b : Bus) (path : CString) : Option Nat :=
  (List.range maxBusDevices).find? fun k =>
    (b.devices k).controller.isSome ∧ (b.devices k).path = path

def findIrqDomainByPath (domains : Nat → IrqDomain) (path : CString) : Option Nat :=
  (List.range maxIrqDomains).find? fun j => (domains j).used ∧ (domains j).treePath = path

/-! ## Interrupts -/

def irqTriggerFromFlags (flags : Nat) : IrqTrigger :=
  if flags = 1 then .edgeRising
  else if flags = 2 then .edgeFalling
  else if flags = 4 then .levelHigh
  else if flags = 8 then .levelLow
  else .none

def allocateIrqDomain (domains : Nat → IrqDomain) (config : IrqDomainConfig) :
    Option Nat × (Nat → IrqDomain) :=
  if config.treePath = [] then (none, domains)
  else
    match findIrqDomainByPath domains config.treePath with
    | some j => (some j, domains)
    | none =>
      match (List.range maxIrqDomains).find? fun j => !(domains j).used with
      | none => (none, domains)
      | some j =>
        let domain : IrqDomain :=
          { name := copyString irqDomainNameMax (config.name.getD (text "irq-domain"))
            treePath := copyString treeMaxPath config.treePath
            interruptBase := config.interruptBase
            lineCount := config.lineCount
            interruptCells := if config.interruptCells = 0 then 2 else config.interruptCells
            used := true }
        (some j, Function.update domains j domain)

/-- The property, when it has the type. -/
def u32Of? (t : TreeState) (i : Nat) (name : String) : Option Nat :=
  (t.valueOf? i (text name) treePropU32).map (·.u32Value)

def stringOf? (t : TreeState) (i : Nat) (name : String) : Option CString :=
  (t.valueOf? i (text name) treePropString).map (·.stringValue)

def bindIrqDomainNode (t : TreeState) (domains : Nat → IrqDomain) (i : Nat) :
    Status × (Nat → IrqDomain) :=
  if (t.valueOf? i (text "interrupt-controller") treePropBool).any (·.boolValue) then
    match u32Of? t i "#interrupt-cells" with
    | none => (.invalidArgument, domains)
    | some cells =>
      if cells = 0 ∨ 2 < cells then (.invalidArgument, domains)
      else
        let config : IrqDomainConfig :=
          { name := some ((stringOf? t i "name").getD (t.node i).name)
            treePath := (t.node i).path
            interruptBase := (u32Of? t i "interrupt-base").getD 0
            lineCount := ((u32Of? t i "interrupt-count").or (u32Of? t i "line-count")).getD 32
            interruptCells := cells }
        match allocateIrqDomain domains config with
        | (some _, domains) => (.ok, domains)
        | (none, domains) => (.noMemory, domains)
  else (.ok, domains)

/-- `bind_irq_domains_from_tree` over the nodes still to come. -/
def bindIrqDomainNodes (t : TreeState) :
    List Nat → (Nat → IrqDomain) → Status × (Nat → IrqDomain)
  | [], domains => (.ok, domains)
  | i :: rest, domains =>
    match bindIrqDomainNode t domains i with
    | (.ok, domains) => bindIrqDomainNodes t rest domains
    | (status, domains) => (status, domains)

def bindIrqDomainsFromTree (s : Buses) : Status × Buses :=
  let (status, domains) := bindIrqDomainNodes s.tree (List.range s.tree.nodes.length) s.domains
  (status, { s with domains })

/-- The first `interrupt-parent` on the way up, `some none` when there is none; on a cycle of
parents, where the source does not come back, the rounds run out. -/
def interruptParent (t : TreeState) : Nat → Nat → Option (Option CString)
  | 0, _ => none
  | rounds + 1, i =>
    match stringOf? t i "interrupt-parent" with
    | some parent => some (some parent)
    | none =>
      if (t.node i).parent = [] then some none
      else
        match findNode t (t.node i).parent with
        | none => some none
        | some i => interruptParent t rounds i

def findInterruptParentNode (t : TreeState) (domains : Nat → IrqDomain) (i : Nat) : Option Nat :=
  match interruptParent t (t.nodes.length + 1) i with
  | none => none
  | some (some parent) => findNode t parent
  | some none =>
    ((List.range maxIrqDomains).find? fun j => (domains j).used).bind fun j =>
      findNode t (domains j).treePath

/-- The loop of `resolve_irq_resources` over the cells still to come; a round takes at least one. -/
def irqResources (domain : IrqDomain) : Nat → Nat → List Nat → List IrqResource
  | 0, _, _ => []
  | rounds + 1, capacity, cells =>
    if cells.length < domain.interruptCells ∨ capacity = 0 then []
    else
      let line := cells.getD 0 0
      let rest := cells.drop domain.interruptCells
      if domain.lineCount ≠ 0 ∧ domain.lineCount ≤ line then irqResources domain rounds capacity rest
      else
        let flags := if 1 < domain.interruptCells then cells.getD 1 0 else 0
        { irq := (domain.interruptBase + line) % 2 ^ 32
          line := line
          flags := flags
          trigger := irqTriggerFromFlags flags
          domain := domain.name
          controllerPath := domain.treePath } :: irqResources domain rounds (capacity - 1) rest

def resolveIrqResources (t : TreeState) (domains : Nat → IrqDomain) (i capacity : Nat) :
    List IrqResource × (Nat → IrqDomain) :=
  match t.valueOf? i (text "interrupts") treePropU32Array with
  | none => ([], domains)
  | some interrupts =>
    if interrupts.arrayValues = [] then ([], domains)
    else
      match findInterruptParentNode t domains i with
      | none => ([], domains)
      | some parent =>
        let resources (domains : Nat → IrqDomain) (j : Nat) : List IrqResource :=
          if (domains j).interruptCells = 0 then []
          else irqResources (domains j) interrupts.arrayValues.length capacity interrupts.arrayValues
        match findIrqDomainByPath domains (t.node parent).path with
        | some j => (resources domains j, domains)
        | none =>
          let (status, domains) := bindIrqDomainNode t domains parent
          if status ≠ .ok then ([], domains)
          else
            match findIrqDomainByPath domains (t.node parent).path with
            | none => ([], domains)
            | some j => (resources domains j, domains)

def radIrqDomainRegister (s : Buses) (config : IrqDomainConfig) : Status × Buses :=
  if config.treePath = [] then (.invalidArgument, s)
  else if config.size ≠ 0 ∧ config.size < irqDomainConfigBytes then (.invalidArgument, s)
  else if config.interruptCells = 0 ∨ 2 < config.interruptCells then (.invalidArgument, s)
  else if (findIrqDomainByPath s.domains config.treePath).isSome then (.alreadyExists, s)
  else
    match ensureNodePath s.tree config.treePath with
    | (none, t) => (.noMemory, { s with tree := t })
    | (some i, t) =>
      let t := setPropertyBool t i (text "interrupt-controller") true
      let t := setPropertyU32 t i (text "#interrupt-cells") config.interruptCells
      let t := setPropertyU32 t i (text "interrupt-base") config.interruptBase
      let t := setPropertyU32 t i (text "interrupt-count") config.lineCount
      let t := setPropertyString t i (text "name") (config.name.getD (t.node i).name)
      match allocateIrqDomain s.domains config with
      | (none, domains) => (.noMemory, { s with tree := t, domains })
      | (some _, domains) => (.ok, { s with tree := t, domains })

def radIrqDomainUnregister (s : Buses) (path : CString) : Status × Buses :=
  match findIrqDomainByPath s.domains path with
  | none => (.notFound, s)
  | some j => (.ok, { s with domains := Function.update s.domains j {} })

/-! ## Binding drivers to devices -/

def BusKind.marker : BusKind → CString
  | .i2c => text "/i2c@"
  | .spi => text "/spi@"

/-- `strstr` finds the text. -/
def contains (s part : CString) : Bool := s.tails.any part.isPrefixOf

/-- `node_is_under_i2c` and `node_is_under_spi`, with the bus id of the parent. -/
def nodeIsUnder (kind : BusKind) (t : TreeState) (i : Nat) : Option Nat :=
  match findNode t (t.node i).parent with
  | none => none
  | some parent =>
    if contains (t.node parent).path kind.marker then some ((u32Of? t parent "bus-id").getD 0)
    else none

/-- The property with the address or the chip select. -/
def unitOf? (kind : BusKind) (t : TreeState) (i : Nat) : Option Nat :=
  match kind with
  | .i2c => (u32Of? t i "reg").map fun n => n &&& 0x7f
  | .spi => ((u32Of? t i "cs").or (u32Of? t i "reg")).map fun n => n &&& 0xff

def parseSpiTransferMode : Option CString → SpiTransferMode
  | none => .auto
  | some s => if s = text "pio" then .pio else if s = text "dma" then .dma else .auto

/-- What `bind_spi_tree` fills in besides; `mode` keeps its value where no property gives one. -/
def settingsOf (kind : BusKind) (t : TreeState) (i : Nat) (controller : BusController)
    (old : SpiSettings) : SpiSettings :=
  match kind with
  | .i2c => old
  | .spi =>
    { clockHz := (u32Of? t i "clock-frequency").getD controller.clockHz
      mode := ((u32Of? t i "mode").map fun n => n &&& 0xff).getD old.mode
      bitsPerWord := ((u32Of? t i "bits-per-word").map fun n => n &&& 0xff).getD 8
      transferMode := parseSpiTransferMode (stringOf? t i "transfer-mode") }

/-- The record of the device at a path, or a free one that was zeroed. -/
def deviceSlot (b : Bus) (path : CString) : Option (Nat × Bus) :=
  match findDeviceByPath b path with
  | some k => some (k, b)
  | none =>
    ((List.range maxBusDevices).find? fun k => (b.devices k).controller.isNone).map fun k =>
      (k, b.clearDevice k)

/-- A device record as the tree and the controller describe the device. -/
def described (kind : BusKind) (t : TreeState) (i busId unit : Nat) (compatible : CString) (c : Nat)
    (controller : BusController) (irqs : List IrqResource) (device : BusDevice) : BusDevice :=
  { device with
    busId, unit, irqs
    settings := settingsOf kind t i controller device.settings
    path := copyString treeMaxPath (t.node i).path
    compatible := copyString compatibleMax compatible
    controller := some c }

/-- The driver of the device is looked up, and its probe callback run. -/
def probeDevice (b : Bus) (k : Nat) (answer : Status) : Status × Bus :=
  let device := b.devices k
  match findDriverByCompatible b device.compatible with
  | none => (.ok, b.setDevice k { device with bound := false, driver := [] })
  | some d =>
    let device :=
      { device with driverIndex := d, driver := copyString driverNameMax (b.drivers d).name }
    let b := (b.setDevice k device).note k (.probe (b.drivers d) answer)
    if answer ≠ .ok then (answer, b) else (.ok, b.setDevice k { device with bound := true })

/-- A device record that was not bound is filled in and probed. -/
def describeDevice (kind : BusKind) (s : Buses) (b : Bus) (k i busId unit c : Nat)
    (compatible : CString) (answer : Status) : Status × Buses :=
  let (irqs, domains) := resolveIrqResources s.tree s.domains i irqMaxResources
  let device :=
    described kind s.tree i busId unit compatible c (b.controllers c) irqs (b.devices k)
  let (status, b) := probeDevice (b.setDevice k device) k answer
  let s := { s with domains }.setBus kind b
  if status ≠ .ok then (status, s)
  else (.ok, { s with tree := setBound s.tree i (b.devices k).bound })

/-- A round of `rad_i2c_bind_tree` or `bind_spi_tree`. -/
def bindNode (kind : BusKind) (s : Buses) (i : Nat) (answer : Status) : Status × Buses :=
  match nodeIsUnder kind s.tree i, unitOf? kind s.tree i with
  | some busId, some unit =>
    match findController (s.bus kind) busId, stringOf? s.tree i "compatible" with
    | some c, some compatible =>
      match deviceSlot (s.bus kind) (s.tree.node i).path with
      | none => (.noMemory, s)
      | some (k, b) =>
        if (b.devices k).bound then
          (.ok, { s.setBus kind b with tree := setBound s.tree i true })
        else describeDevice kind s b k i busId unit c compatible answer
    | _, _ => (.ok, s)
  | _, _ => (.ok, s)

/-- The pass over the nodes still to come. -/
def bindNodes (kind : BusKind) (answers : Nat → Status) : List Nat → Buses → Status × Buses
  | [], s => (.ok, s)
  | i :: rest, s =>
    match bindNode kind s i (answers i) with
    | (.ok, s) => bindNodes kind answers rest s
    | (status, s) => (status, s)

def bindBusTree (kind : BusKind) (s : Buses) (answers : Nat → Status) : Status × Buses :=
  bindNodes kind answers (List.range s.tree.nodes.length) s

def radI2cBindTree : Buses → (Nat → Status) → Status × Buses := bindBusTree .i2c
def bindSpiTree : Buses → (Nat → Status) → Status × Buses := bindBusTree .spi

/-! ## Controllers -/

def freeController (b : Bus) : Option Nat :=
  (List.range maxControllers).find? fun c => !(b.controllers c).used

/-- `registered` is the answer of `rad_device_register`. -/
def controllerRegister (kind : BusKind) (s : Buses) (config : BusControllerConfig)
    (registered : Status) (answers : Nat → Status) : Status × Buses :=
  let b := s.bus kind
  if (findController b config.busId).isSome then (.alreadyExists, s)
  else
    match freeController b with
    | none => (.noMemory, s)
    | some c =>
      if registered ≠ .ok then (registered, s.setBus kind (b.setController c {}))
      else
        let controller := { busId := config.busId, clockHz := config.clockHz, used := true }
        bindBusTree kind (s.setBus kind (b.setController c controller)) answers

def unbindNode (t : TreeState) (path : CString) : TreeState :=
  match findNode t path with
  | none => t
  | some i => setBound t i false

/-- A device of the controller is removed and zeroed. -/
def dropDevice (kind : BusKind) (c : Nat) (s : Buses) (k : Nat) : Buses :=
  let b := s.bus kind
  let device := b.devices k
  if device.controller ≠ some c then s
  else
    let driver := b.drivers device.driverIndex
    let removed :=
      if device.bound ∧ device.driverIndex < maxBusDrivers ∧ driver.used then b.note k (.remove driver)
      else b
    { s.setBus kind (removed.clearDevice k) with tree := unbindNode s.tree device.path }

def controllerUnregister (kind : BusKind) (s : Buses) (busId : Nat) : Status × Buses :=
  match findController (s.bus kind) busId with
  | none => (.notFound, s)
  | some c =>
    let s := (List.range maxBusDevices).foldl (dropDevice kind c) s
    (.ok, s.setBus kind ((s.bus kind).setController c {}))

def radI2cControllerRegister := controllerRegister .i2c
def radI2cControllerUnregister := controllerUnregister .i2c
def radSpiControllerRegister := controllerRegister .spi
def radSpiControllerUnregister := controllerUnregister .spi

/-! ## Drivers -/

def newDriver (spec : BusDriverSpec) : BusDriver where
  spec := spec
  name := copyString driverNameMax spec.name
  compatible := copyString compatibleMax spec.compatible
  used := true

def freeDriver (b : Bus) : Option Nat :=
  (List.range maxBusDrivers).find? fun d => !(b.drivers d).used

def driverRegister (kind : BusKind) (s : Buses) (spec : BusDriverSpec) (answers : Nat → Status) :
    Status × Buses :=
  let b := s.bus kind
  if (findDriverByName b spec.name).isSome then (.alreadyExists, s)
  else
    match freeDriver b with
    | none => (.noMemory, s)
    | some d => bindBusTree kind (s.setBus kind (b.setDriver d (newDriver spec))) answers

def releaseDevice (kind : BusKind) (driver : BusDriver) (s : Buses) (k : Nat) : Buses :=
  let b := s.bus kind
  let device := b.devices k
  if device.controller = none ∨ device.driver ≠ driver.name then s
  else
    let removed := if device.bound then b.note k (.remove driver) else b
    let released := removed.setDevice k { device with bound := false, driver := [] }
    { s.setBus kind released with tree := unbindNode s.tree device.path }

def driverUnregister (kind : BusKind) (s : Buses) (name : CString) : Status × Buses :=
  match findDriverByName (s.bus kind) name with
  | none => (.notFound, s)
  | some d =>
    let driver := (s.bus kind).drivers d
    let s := (List.range maxBusDevices).foldl (releaseDevice kind driver) s
    (.ok, s.setBus kind ((s.bus kind).setDriver d {}))

def radI2cDriverRegister := driverRegister .i2c
def radI2cDriverUnregister := driverUnregister .i2c
def radSpiDriverRegister := driverRegister .spi
def radSpiDriverUnregister := driverUnregister .spi

/-- `cmd_bind` up to the passes over framebuffers and services. -/
def cmdBind (s : Buses) (i2cAnswers spiAnswers : Nat → Status) : Status × Buses :=
  match bindIrqDomainsFromTree s with
  | (.ok, s) =>
    match radI2cBindTree s i2cAnswers with
    | (.ok, s) => bindSpiTree s spiAnswers
    | (status, s) => (status, s)
  | (status, s) => (status, s)

/-! ## Runs -/

/-- A call, with what the callbacks answer in it for each node of the tree. -/
inductive BusCall where
  | controllerRegister (kind : BusKind) (config : BusControllerConfig) (registered : Status)
      (answers : Nat → Status)
  | controllerUnregister (kind : BusKind) (busId : Nat)
  | driverRegister (kind : BusKind) (spec : BusDriverSpec) (answers : Nat → Status)
  | driverUnregister (kind : BusKind) (name : CString)
  | bindTree (kind : BusKind) (answers : Nat → Status)
  | bind (i2cAnswers spiAnswers : Nat → Status)
  | loadOverlay (bytes beyond : List UInt8)
  | irqDomainRegister (config : IrqDomainConfig)
  | irqDomainUnregister (path : CString)

def Buses.next (s : Buses) : BusCall → Buses
  | .controllerRegister kind config registered answers =>
    (Overlay.controllerRegister kind s config registered answers).2
  | .controllerUnregister kind busId => (Overlay.controllerUnregister kind s busId).2
  | .driverRegister kind spec answers => (Overlay.driverRegister kind s spec answers).2
  | .driverUnregister kind name => (Overlay.driverUnregister kind s name).2
  | .bindTree kind answers => (bindBusTree kind s answers).2
  | .bind i2cAnswers spiAnswers => (cmdBind s i2cAnswers spiAnswers).2
  | .loadOverlay bytes beyond => { s with tree := (radOverlayLoadMemory s.tree bytes beyond).2 }
  | .irqDomainRegister config => (radIrqDomainRegister s config).2
  | .irqDomainUnregister path => (radIrqDomainUnregister s path).2

/-- Before the first call: any tree and any domains, and nothing on the buses. -/
def Buses.Start (s : Buses) : Prop := ∀ kind, s.bus kind = {}

/-- What happened to the device in one slot. -/
def Bus.eventsOf (b : Bus) (k : Nat) : List BusEvent :=
  b.log.filterMap fun entry => if entry.1 = k then some entry.2 else none

end RadKernel.Overlay
