import RadKernel.Lib.Run
import RadKernel.Overlay.Model

/-!
# Kernel services

`rad_service_register` to `rad_service_poll_all` with `bind_service_tree`. What a callback answers
is part of the call that runs it; a callback that is missing counts as one that does nothing and
answers `RAD_STATUS_OK`, as the code takes it. The callbacks that were run are kept beside the table,
the latest first.
-/

namespace RadKernel.Overlay

def maxServices : Nat := 16
def serviceNameMax : Nat := 32
def serviceCompatibleMax : Nat := 64
def serviceCapabilityMax : Nat := 32

/-- The sizes of `rad_service_descriptor_t` and `rad_service_config_t`. -/
def descriptorBytes : Nat := 72
def configBytes : Nat := 64

/-! ## State -/

/-- `rad_service_state_t`; a record that was cleared has none of its values. -/
inductive ServiceState where
  | none
  | registered
  | configured
  | running
  | failed
  | stopped
  deriving DecidableEq, Repr

structure ServiceDescriptor where
  size : Nat := descriptorBytes
  name : CString := []
  compatible : CString := []
  capability : CString := []
  defaultOrder : Int := 0
  deriving DecidableEq, Repr

structure ServiceConfig where
  size : Nat := configBytes
  treePath : CString := []
  backend : CString := []
  display : CString := []
  keyboard : CString := []
  pointer : CString := []
  terminal : CString := []
  autostart : Bool := false
  order : Int := 0
  deriving DecidableEq, Repr

structure ServiceRecord where
  descriptor : ServiceDescriptor := {}
  name : CString := []
  compatible : CString := []
  capability : CString := []
  treePath : CString := []
  backend : CString := []
  display : CString := []
  keyboard : CString := []
  pointer : CString := []
  terminal : CString := []
  state : ServiceState := .none
  autostart : Bool := false
  order : Int := 0
  lastStatus : Status := .ok
  used : Bool := false
  deriving DecidableEq, Repr

inductive Callback where
  | start (config : ServiceConfig) (status : Status)
  | stop
  | poll (status : Status)
  deriving DecidableEq, Repr

structure Services where
  tree : TreeState := radOverlayReset
  services : Nat → ServiceRecord := fun _ => {}
  /-- The slots of the services whose callbacks were run. -/
  calls : List (Nat × Callback) := []

def setService (s : Services) (k : Nat) (service : ServiceRecord) : Services :=
  { s with services := Function.update s.services k service }

def called (s : Services) (k : Nat) (callback : Callback) : Services :=
  { s with calls := (k, callback) :: s.calls }

/-! ## Calls -/

def findServiceByName (s : Services) (name : CString) : Option Nat :=
  (List.range maxServices).find? fun k => (s.services k).used ∧ (s.services k).name = name

def findServiceByCompatible (s : Services) (compatible : CString) : Option Nat :=
  (List.range maxServices).find? fun k =>
    (s.services k).used ∧ (s.services k).compatible = compatible

def serviceConfigForRecord (service : ServiceRecord) : ServiceConfig where
  treePath := service.treePath
  backend := service.backend
  display := service.display
  keyboard := service.keyboard
  pointer := service.pointer
  terminal := service.terminal
  autostart := service.autostart
  order := service.order

/-- The start callback is run, and the record says how it went. -/
def runStart (s : Services) (k : Nat) (answer : Status) : Services :=
  let service := s.services k
  let s := called s k (.start (serviceConfigForRecord service) answer)
  setService s k { service with
    lastStatus := answer
    state := if answer = .ok then .running else .failed }

def treeStatusIsDisabled (t : TreeState) (i : Nat) : Bool :=
  (t.valueOf? i (text "status") treePropString).any fun value =>
    value.stringValue = text "disabled"

def copyOptionalServiceString (t : TreeState) (i : Nat) (property : String) (old : CString) :
    CString :=
  match t.value? i (text property) with
  | none => old
  | some value =>
    if value.type = treePropString ∨ value.type = treePropStringArray then
      copyString treeMaxValue value.stringValue
    else old

/-- The conversion of a `uint32_t` to `int`. -/
def toInt (n : Nat) : Int := Int.bmod n (2 ^ 32)

/-- The record of a service with what a tree node says about it. -/
def configuredFrom (t : TreeState) (i : Nat) (service : ServiceRecord) : ServiceRecord :=
  { service with
    treePath := copyString treeMaxPath (t.node i).path
    backend := copyOptionalServiceString t i "backend" service.backend
    display := copyOptionalServiceString t i "display" service.display
    keyboard := copyOptionalServiceString t i "keyboard" service.keyboard
    pointer := copyOptionalServiceString t i "pointer" service.pointer
    terminal := copyOptionalServiceString t i "terminal" service.terminal
    autostart := (t.valueOf? i (text "autostart") treePropBool).any (·.boolValue)
    order :=
      match t.valueOf? i (text "order") treePropU32 with
      | some value => toInt value.u32Value
      | none => service.descriptor.defaultOrder }

/-- The service that a node under `/services/` is about. -/
def serviceOfNode (s : Services) (i : Nat) : Option Nat :=
  if (text "/services/").isPrefixOf (s.tree.node i).path then
    (s.tree.valueOf? i (text "compatible") treePropString).bind fun value =>
      findServiceByCompatible s value.stringValue
  else none

/-- `configure_service_node`, with the answer of the start callback. -/
def configureServiceNode (s : Services) (i : Nat) (answer : Status) : Status × Services :=
  match serviceOfNode s i with
  | none => (.ok, s)
  | some k =>
    let service := configuredFrom s.tree i (s.services k)
    let bind (bound : Bool) : Services := { s with tree := setBound s.tree i bound }
    if treeStatusIsDisabled s.tree i then
      (.ok, setService (bind false) k { service with state := .stopped })
    else if service.state = .running then (.ok, setService (bind true) k service)
    else
      let s := setService (bind true) k { service with state := .configured }
      if service.autostart then (answer, runStart s k answer) else (.ok, s)

/-- `bind_service_tree` over the nodes still to come. -/
def bindServiceNodes (answers : Nat → Status) : List Nat → Services → Status × Services
  | [], s => (.ok, s)
  | i :: rest, s =>
    match configureServiceNode s i (answers i) with
    | (.ok, s) => bindServiceNodes answers rest s
    | (status, s) => (status, s)

def bindServiceTree (s : Services) (answers : Nat → Status) : Status × Services :=
  bindServiceNodes answers (List.range s.tree.nodes.length) s

def newService (descriptor : ServiceDescriptor) : ServiceRecord where
  descriptor := descriptor
  name := copyString serviceNameMax descriptor.name
  compatible := copyString serviceCompatibleMax descriptor.compatible
  capability := copyString serviceCapabilityMax descriptor.capability
  state := .registered
  order := descriptor.defaultOrder
  used := true

def freeService (s : Services) : Option Nat :=
  (List.range maxServices).find? fun k => !(s.services k).used

/-- The slot that `rad_service_register` fills. -/
def registerSlot (s : Services) (descriptor : ServiceDescriptor) : Except Status Nat :=
  if descriptor.size ≠ 0 ∧ descriptor.size < descriptorBytes then .error .invalidArgument
  else if (findServiceByName s descriptor.name).isSome then .error .alreadyExists
  else
    match freeService s with
    | none => .error .noMemory
    | some k => .ok k

def radServiceRegister (s : Services) (descriptor : ServiceDescriptor) (answers : Nat → Status) :
    Status × Services :=
  match registerSlot s descriptor with
  | .error status => (status, s)
  | .ok k => (.ok, (bindServiceTree (setService s k (newService descriptor)) answers).2)

/-- Nodes with the path of a service that is gone are bound no more. -/
def unbindNodes (t : TreeState) (path : CString) : TreeState :=
  { t with nodes := t.nodes.map fun node =>
    if node.path = path then { node with bound := false } else node }

def radServiceUnregister (s : Services) (name : CString) : Status × Services :=
  match findServiceByName s name with
  | none => (.notFound, s)
  | some k =>
    let service := s.services k
    let s := if service.state = .running then called s k .stop else s
    (.ok, setService { s with tree := unbindNodes s.tree service.treePath } k {})

/-- The slot that `rad_service_configure` writes. -/
def configureSlot (s : Services) (name : CString) (config : ServiceConfig) : Except Status Nat :=
  if name = [] then .error .invalidArgument
  else if config.size ≠ 0 ∧ config.size < configBytes then .error .invalidArgument
  else
    match findServiceByName s name with
    | none => .error .notFound
    | some k => .ok k

def configured (service : ServiceRecord) (config : ServiceConfig) : ServiceRecord :=
  let path := copyString treeMaxPath config.treePath
  { service with
    treePath := if path = [] then copyString treeMaxPath service.name else path
    backend := copyString treeMaxValue config.backend
    display := copyString treeMaxValue config.display
    keyboard := copyString treeMaxValue config.keyboard
    pointer := copyString treeMaxValue config.pointer
    terminal := copyString treeMaxValue config.terminal
    autostart := config.autostart
    order := if config.order ≠ 0 then config.order else service.descriptor.defaultOrder
    state := .configured
    lastStatus := .ok }

def radServiceConfigure (s : Services) (name : CString) (config : ServiceConfig) :
    Status × Services :=
  match configureSlot s name config with
  | .error status => (status, s)
  | .ok k => (.ok, setService s k (configured (s.services k) config))

def radServiceStart (s : Services) (name : CString) (answer : Status) : Status × Services :=
  match findServiceByName s name with
  | none => (.notFound, s)
  | some k =>
    if (s.services k).state = .running then (.ok, s) else (answer, runStart s k answer)

def radServiceStop (s : Services) (name : CString) : Status × Services :=
  match findServiceByName s name with
  | none => (.notFound, s)
  | some k =>
    let service := s.services k
    if service.state ≠ .running then (.ok, s)
    else
      (.ok, setService (called s k .stop) k { service with state := .stopped, lastStatus := .ok })

/-- `rad_service_poll_all` over the slots still to come. -/
def pollServices (answers : Nat → Status) : List Nat → Services → Status × Services
  | [], s => (.ok, s)
  | k :: rest, s =>
    let service := s.services k
    if !service.used ∨ service.state ≠ .running then pollServices answers rest s
    else
      let s := called s k (.poll (answers k))
      if answers k = .ok then pollServices answers rest s
      else (answers k, setService s k { service with lastStatus := answers k, state := .failed })

def radServicePollAll (s : Services) (answers : Nat → Status) : Status × Services :=
  pollServices answers (List.range maxServices) s

/-! ## Runs -/

/-- A call, with what the callbacks answer in it: for each node of the tree, or each slot. -/
inductive ServiceCall where
  | register (descriptor : ServiceDescriptor) (answers : Nat → Status)
  | unregister (name : CString)
  | configure (name : CString) (config : ServiceConfig)
  | configureTree (node : Nat) (answer : Status)
  | bindTree (answers : Nat → Status)
  | start (name : CString) (answer : Status)
  | stop (name : CString)
  | pollAll (answers : Nat → Status)
  | loadOverlay (bytes beyond : List UInt8)

def Services.next (s : Services) : ServiceCall → Services
  | .register descriptor answers => (radServiceRegister s descriptor answers).2
  | .unregister name => (radServiceUnregister s name).2
  | .configure name config => (radServiceConfigure s name config).2
  | .configureTree node answer => (configureServiceNode s node answer).2
  | .bindTree answers => (bindServiceTree s answers).2
  | .start name answer => (radServiceStart s name answer).2
  | .stop name => (radServiceStop s name).2
  | .pollAll answers => (radServicePollAll s answers).2
  | .loadOverlay bytes beyond => { s with tree := (radOverlayLoadMemory s.tree bytes beyond).2 }

/-- Before the first call: any tree, and no services. -/
def Services.Start (s : Services) : Prop := (∀ k, s.services k = {}) ∧ s.calls = []

def Services.callsOf (s : Services) (k : Nat) : List Callback :=
  s.calls.filterMap fun call => if call.1 = k then some call.2 else none

def Services.Running (s : Services) (k : Nat) : Prop :=
  (s.services k).used = true ∧ (s.services k).state = .running

end RadKernel.Overlay
