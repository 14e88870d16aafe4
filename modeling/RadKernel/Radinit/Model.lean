import Mathlib.Data.List.Basic

/-!
# The service manager

The service records, the supervision rounds and the main loops of
`services/RADServiceManager/radinit.c`. Log lines, status files, the paths and arguments of a
service and the time of its last start are left out: nothing here reads them. What the JSON
text of a service file says is an input.

The kernel is a list of children that were not reaped, and a stream of moments, one for each
system call: which children exit before it, and the answers that are the kernel's choice.
`World.log` records what happened for the services, latest first.
-/

namespace RadKernel.Radinit

abbrev Name := List Char

def maxServices : Nat := 24
def maxRestarts : Nat := 3
def readyPolls : Nat := 80

inductive ServiceState where
  | inactive
  | running
  | exited
  | failed
  deriving DecidableEq, Repr

inductive RestartPolicy where
  | no
  | onFailure
  | always
  deriving DecidableEq, Repr

inductive ServiceType where
  | simple
  | oneshot
  deriving DecidableEq, Repr

/-- The part of `service_t` that comes from a service file. -/
structure Config where
  name : Name
  exec : List Char := []
  autostart : Bool := false
  order : Int := 100
  restart : RestartPolicy := .no
  type : ServiceType := .simple
  readyMarker : List Char := []
  deriving DecidableEq, Repr

/-- `service_t`. -/
structure Service extends Config where
  pid : Int := 0
  exitStatus : Int := 0
  restarts : Nat := 0
  state : ServiceState := .inactive
  deriving DecidableEq, Repr

/-! ## The kernel -/

/-- A child of `radinit` that was not reaped, the service it was forked for, and its status
once it has exited. -/
structure Child where
  pid : Int
  service : Name
  exit : Option Int := none
  deriving DecidableEq, Repr

/-- The choices of the kernel at one system call. -/
structure Moment where
  exits : List (Int × Int) := []
  fork : Int := -1
  status : Int := 0
  kill : Int := 0
  ready : Bool := false

/-- What happened for a service. -/
inductive Entry where
  | forked (name : Name)
  | restarted (name : Name)
  | commanded (name : Name)
  | stopped (name : Name)
  deriving DecidableEq, Repr

structure World where
  children : List Child
  log : List Entry
  moments : Nat → Moment
  now : Nat

def World.moment (w : World) : Moment := w.moments w.now

def Child.after (exits : List (Int × Int)) (child : Child) : Child :=
  match child.exit, exits.lookup child.pid with
  | none, some status => { child with exit := some status }
  | _, _ => child

/-- The children that exit before a system call. -/
def World.tick (w : World) : World :=
  { w with children := w.children.map (Child.after w.moment.exits), now := w.now + 1 }

def World.record (w : World) (entry : Entry) : World := { w with log := entry :: w.log }

/-- `SYS_FORK` in the parent. A pid that is not fresh counts as a failure. -/
def fork (w : World) (name : Name) : Int × World :=
  let pid := w.moment.fork
  let w := w.tick
  if 0 < pid ∧ pid ∉ w.children.map Child.pid then
    (pid, { w with children := { pid := pid, service := name } :: w.children }.record (.forked name))
  else (if pid < 0 then pid else -1, w)

/-- `SYS_WAITPID`: the result, the status and the kernel after it. Without `WAIT_NOHANG` the
call waits until the child exits. -/
def waitpid (w : World) (pid : Int) (nohang : Bool) : Int × Int × World :=
  let status := w.moment.status
  let w := w.tick
  let reaped : World := { w with children := w.children.filter (·.pid ≠ pid) }
  match w.children.find? (·.pid = pid) with
  | none => (-1, 0, w)
  | some child =>
    match child.exit with
    | some status => (pid, status, reaped)
    | none => if nohang then (0, 0, w) else (pid, status, reaped)

/-- `SYS_KILL`. A running child exits; for one that has exited the kernel chooses the result. -/
def kill (w : World) (pid : Int) : Int × World :=
  let moment := w.moment
  let w := w.tick
  match w.children.find? (·.pid = pid) with
  | none => (-1, w)
  | some child =>
    match child.exit with
    | some _ => (moment.kill, w)
    | none =>
      (0, { w with children := w.children.map (Child.after [(pid, moment.status)]) })

/-! ## Starting and stopping -/

/-- The service has no program of its own. -/
def Service.isBuiltin (service : Service) : Bool :=
  service.exec = [] ∨ service.exec.take 4 = ['b', 'u', 'i', 'l']

/-- A service whose child was reaped. -/
def Service.ended (service : Service) (status : Int) : Service :=
  { service with
    pid := 0
    exitStatus := status
    state := if status = 0 then .exited else .failed }

/-- The polls of `start_service` for the ready marker. -/
def waitReady : Nat → Service → World → Int × Service × World
  | 0, service, w => (0, service, w)
  | polls + 1, service, w =>
    if service.readyMarker = [] then (0, service, w)
    else if w.moment.ready then (0, service, w.tick)
    else
      let (waited, status, w) := waitpid w.tick service.pid true
      if waited = service.pid then (status, service.ended status, w)
      else waitReady polls service w

def startService (service : Service) (manual : Bool) (w : World) : Int × Service × World :=
  if manual = false ∧ service.autostart = false then (0, service, w)
  else if service.isBuiltin then (0, { service with state := .exited, exitStatus := 0 }, w)
  else
    let (child, w) := fork w service.name
    if child < 0 then (child, { service with state := .failed, exitStatus := child }, w)
    else
      let service := { service with pid := child, exitStatus := 0, state := .running }
      match service.type with
      | .oneshot =>
        let (waited, status, w) := waitpid w child false
        if waited = child then (status, service.ended status, w)
        else (waited, { service with pid := 0, exitStatus := waited, state := .failed }, w)
      | .simple => waitReady readyPolls service w

def stopService (service : Service) (w : World) : Int × Service × World :=
  if service.state ≠ .running ∨ service.pid ≤ 0 then
    (0, { service with pid := 0, state := .inactive, exitStatus := 0 }, w)
  else
    let (killed, w) := kill w service.pid
    if killed < 0 then (killed, service, w)
    else
      let (waited, status, w) := waitpid w service.pid false
      let exitStatus := if waited = service.pid then status else killed
      (0, { service with exitStatus := exitStatus, pid := 0, state := .inactive }, w)

/-! ## Service files -/

/-- The entries of the service directory: a name, and what the file says, unless it cannot
be read. -/
abbrev Directory := List (Name × Option Config)

/-- `load_service`. A file that names no service is passed over. -/
def loadService (config : Option Config) : Option Service :=
  match config with
  | none => none
  | some config => if config.name = [] then none else some { config with }

/-- `load_services_from_dir`. -/
def loadServicesFromDir (directory : Directory) (capacity : Nat) : List Service :=
  ((directory.filter fun entry => entry.1 ≠ [] ∧ entry.1.head? ≠ some '.').filterMap
    fun entry => loadService entry.2).take capacity

/-- A service moved down past those with a greater order, the last of the array first. -/
def insertService (value : Service) : List Service → List Service
  | [] => [value]
  | last :: rest =>
    if value.order < last.order then last :: insertService value rest else value :: last :: rest

def sortServices (services : List Service) : List Service :=
  (services.foldl (fun sorted value => insertService value sorted) []).reverse

def findService (services : List Service) (name : Name) : Option Nat :=
  services.findIdx? (·.name = name)

def preserveRuntimeState (fresh previous : Service) : Service :=
  { fresh with
    pid := previous.pid
    exitStatus := previous.exitStatus
    restarts := previous.restarts
    state := previous.state }

def reloadServices (services : List Service) (directory : Directory) : List Service :=
  (sortServices (loadServicesFromDir directory maxServices)).map fun fresh =>
    match services.find? (·.name = fresh.name) with
    | none => fresh
    | some previous => preserveRuntimeState fresh previous

/-! ## Supervision -/

def isBlank (c : Char) : Bool := c = ' ' ∨ c = '\t' ∨ c = '\n' ∨ c = '\r'

/-- `next_word`: a word, and the text after the character that ends it. -/
def nextWord (text : List Char) : List Char × List Char :=
  let text := text.dropWhile isBlank
  (text.takeWhile fun c => !isBlank c, (text.dropWhile fun c => !isBlank c).drop 1)

/-- The commands of `process_control_file` for the record of a service. -/
def runCommand (service : Service) (verb : List Char) (w : World) : Service × World :=
  if verb = ['r', 'e', 's', 't', 'a', 'r', 't'] then
    let w := w.record (.commanded service.name)
    let (stopped, service, w) :=
      if service.state = .running ∧ 0 < service.pid then stopService service w
      else (0, service, w)
    if stopped ≠ 0 then (service, w)
    else
      let (_, service, w) :=
        startService { service with pid := 0, exitStatus := 0, state := .inactive } true w
      (service, w)
  else if verb = ['s', 't', 'a', 'r', 't'] then
    let w := w.record (.commanded service.name)
    if service.state = .running ∧ 0 < service.pid then (service, w)
    else
      let (_, service, w) := startService service true w
      (service, w)
  else if verb = ['s', 't', 'o', 'p'] then
    let (status, service, w) := stopService service w
    (service, if status = 0 then w.record (.stopped service.name) else w)
  else (service, w)

/-- `process_control_file` with the text of the control file. -/
def processControlFile (services : List Service) (control : List Char) (directory : Directory)
    (w : World) : List Service × World :=
  if control = [] then (services, w)
  else
    let (verb, rest) := nextWord control
    let (name, _) := nextWord rest
    if verb = ['r', 'e', 'l', 'o', 'a', 'd'] ∨ verb = ['l', 'i', 's', 't'] then
      (reloadServices services directory, w)
    else if verb = [] ∨ name = [] then (services, w)
    else
      match findService services name with
      | none => (services, w)
      | some i =>
        match services[i]? with
        | none => (services, w)
        | some service =>
          let (service, w) := runCommand service verb w
          (services.set i service, w)

/-- One turn of `supervise_once`. -/
def superviseService (service : Service) (w : World) : Service × World :=
  if service.state ≠ .running ∨ service.pid ≤ 0 then (service, w)
  else
    let (waited, status, w) := waitpid w service.pid true
    if waited = service.pid then
      let service := service.ended status
      if (service.restart = .always ∨ service.restart = .onFailure ∧ status ≠ 0) ∧
          service.restarts < maxRestarts then
        let service := { service with restarts := service.restarts + 1 }
        let (_, service, w) := startService service true (w.record (.restarted service.name))
        (service, w)
      else (service, w)
    else (service, w)

def superviseServices : List Service → World → List Service × World
  | [], w => ([], w)
  | service :: services, w =>
    let (service, w) := superviseService service w
    let (services, w) := superviseServices services w
    (service :: services, w)

/-- What is outside of `radinit` during a call: the kernel's choices, the control file and
the service directory. -/
structure Outside where
  moments : Nat → Moment
  control : List Char := []
  directory : Directory := []

/-! ## The main loops -/

/-- The place in `radinit_main`: the boot loop at a record, the polls for the terminal stress
service at that record, the supervision loops, and the second half of a `supervise_once`
after which the main loops go on at `back`. -/
inductive Phase where
  | boot (i : Nat)
  | stress (i poll : Nat)
  | serve
  | control (back : Phase)
  deriving DecidableEq, Repr

structure Manager where
  services : List Service
  world : World
  phase : Phase

def terminalStress : Name :=
  ['t', 'e', 'r', 'm', 'i', 'n', 'a', 'l', '-', 's', 't', 'r', 'e', 's', 's']

/-- The next call of `radinit_main`. The two halves of `supervise_once`, the records and the
control file, are two steps. -/
def step (r : Manager) (outside : Outside) : Manager :=
  let w : World := { r.world with moments := outside.moments, now := 0 }
  match r.phase with
  | .boot i =>
    match r.services[i]? with
    | none => { r with world := w, phase := .serve }
    | some service =>
      let (_, service, w) := startService service false w
      { services := r.services.set i service
        world := w
        phase :=
          if service.autostart ∧ service.name = terminalStress then .stress i 0
          else .boot (i + 1) }
  | .stress i poll =>
    if poll < readyPolls ∧ (r.services[i]?).any (·.state = .running) then
      let (services, w) := superviseServices r.services w
      { services := services, world := w, phase := .control (.stress i (poll + 1)) }
    else { r with world := w, phase := .boot (i + 1) }
  | .serve =>
    let (services, w) := superviseServices r.services w
    { services := services, world := w, phase := .control .serve }
  | .control back =>
    let (services, w) := processControlFile r.services outside.control outside.directory w
    { services := services, world := w, phase := back }

/-- `radinit` before the boot loop. -/
def loaded (directory : Directory) : Manager where
  services := sortServices (loadServicesFromDir directory maxServices)
  world := { children := [], log := [], moments := fun _ => {}, now := 0 }
  phase := .boot 0

end RadKernel.Radinit
