import RadKernel.Fd.Model

/-!
# Process calls

`rad_process_create`, `rad_process_exit`, `rad_process_kill`, `rad_process_execve` and the
credential calls. `rad_process_mark_exec` and one pass of `rad_process_waitpid` are with the
descriptor calls, because they close descriptors. The caller's pid stands for
`current_process_pid()`; a process identifier is an `int32_t`.

What `rad_process_kill` does to the task of the process belongs to the scheduler.
-/

namespace RadKernel.Process

open Kernel Fd

/-- Conversion to `int32_t`. -/
def int32 (n : Int) : Int := Int.bmod n (2 ^ 32)

def setProcess (s : KernelState) (i : Nat) (r : ProcessRecord) : KernelState :=
  { s with processes := Function.update s.processes i r }

/-- The first record not in use. -/
def freeProcess (s : KernelState) : Option Nat :=
  (List.range maxProcesses).find? fun i => !(s.processes i).used

/-- The program of the first process. -/
def isInit (path : List Char) : Bool :=
  path = "/bin/init".toList || path = "/sbin/radinit".toList

/-- The loop of `rad_process_create` that counts `next_pid` up to one not in use. -/
def skipTaken (s : KernelState) : Nat → Int → Int
  | 0, pid => pid
  | rounds + 1, pid =>
    if (findProcess s pid).isSome then skipTaken s rounds (int32 (pid + 1)) else pid

/-- `next_pid` when the record is filled in. The loop ends within `maxProcesses` rounds, as
there are no more records. -/
def choosePid (s : KernelState) : Int :=
  let pid := skipTaken s maxProcesses (if s.nextPid < 2 then 2 else s.nextPid)
  if pid = 1 then 2 else pid

/-- The parent that is recorded for a new process. -/
def chooseParent (s : KernelState) (caller parentPid : Int) (path : List Char) : Int :=
  let parent := if parentPid < 0 then caller else parentPid
  if parent ≤ 0 ∧ !isInit path ∧ (findProcess s 1).isSome then 1 else parent

def newProcess (s : KernelState) (pid parentPid : Int) (path : List Char) : ProcessRecord :=
  let group := if 0 < parentPid then parentPid else 1
  let record : ProcessRecord :=
    { pid := pid, parentPid := parentPid, processGroupId := group, sessionId := group,
      state := .running, path := path.take 127, used := true }
  match findProcess s parentPid with
  | none => record
  | some i =>
    let parent := s.processes i
    { record with
      processGroupId := if parent.processGroupId ≠ 0 then parent.processGroupId else parent.pid
      sessionId := if parent.sessionId ≠ 0 then parent.sessionId else parent.pid
      credentials := parent.credentials }

def initProcess (path : List Char) : ProcessRecord :=
  { pid := 1, parentPid := 0, processGroupId := 1, sessionId := 1, state := .running,
    path := path.take 127, used := true }

def radProcessCreate (s : KernelState) (caller parentPid : Int) (path : List Char) :
    Int × KernelState :=
  if path = [] then (Status.invalidArgument.code, s)
  else if isInit path ∧ (findProcess s 1).isNone then
    match freeProcess s with
    | some i => (1, setProcess s i (initProcess path))
    | none => (Status.noMemory.code, s)
  else
    let pid := choosePid s
    let record := newProcess s pid (chooseParent s caller parentPid path) path
    match freeProcess s with
    | some i => (pid, setProcess { s with nextPid := int32 (pid + 1) } i record)
    | none => (Status.noMemory.code, { s with nextPid := pid })

def posixWaitExitStatus (code : Int) : Int := code % 256 * 256

def posixWaitSignalStatus (signal : Int) : Int := signal % 128

def radProcessExit (s : KernelState) (caller status : Int) : KernelState :=
  if caller = 0 then s
  else
    match findProcess s caller with
    | none => s
    | some i =>
      setProcess s i
        { s.processes i with state := .zombie, exitCode := posixWaitExitStatus status }

/-- The records `rad_process_kill` addresses: a process group, or one pid when it is zero. -/
def isTarget (group pid : Int) (r : ProcessRecord) : Bool :=
  r.used && if group ≠ 0 then r.processGroupId = group && 1 < r.pid else r.pid = pid

/-- The loop of `rad_process_kill` over the records still to come. -/
def killFrom (group pid signal : Int) : List Nat → Bool → KernelState → Int × KernelState
  | [], delivered, s => (if delivered then Status.ok.code else Status.notFound.code, s)
  | i :: rest, delivered, s =>
    let r := s.processes i
    if !isTarget group pid r then killFrom group pid signal rest delivered s
    else if r.state = .zombie then
      if group ≠ 0 then killFrom group pid signal rest delivered s else (Status.ok.code, s)
    else
      let s := setProcess s i { r with state := .zombie, exitCode := posixWaitSignalStatus signal }
      if group = 0 then (Status.ok.code, s) else killFrom group pid signal rest true s

def radProcessKill (s : KernelState) (caller pid signal : Int) : Int × KernelState :=
  if signal ≤ 0 ∨ 64 ≤ signal then (Status.invalidArgument.code, s)
  else if pid = 0 then
    let group := ((findProcess s caller).map fun i => (s.processes i).processGroupId).getD 0
    killFrom group pid signal (List.range maxProcesses) false s
  else if pid < -1 then
    killFrom (int32 (-pid)) pid signal (List.range maxProcesses) false s
  else if pid ≤ 1 then (Status.invalidArgument.code, s)
  else killFrom 0 pid signal (List.range maxProcesses) false s

/-- `rad_process_execve`. `stat` is what `rad_vfs_stat` returned: its status, and whether the
path is a directory. -/
def radProcessExecve (s : KernelState) (caller : Int) (path : List Char) (stat : Status × Bool) :
    Int × KernelState :=
  if path = [] then (Status.invalidArgument.code, s)
  else if stat.1 ≠ .ok then (stat.1.code, s)
  else if stat.2 then (Status.invalidArgument.code, s)
  else radProcessMarkExec s caller path

/-! ## Credentials -/

def currentCredentials (s : KernelState) (caller : Int) : Credentials :=
  match findProcess s caller with
  | some i => (s.processes i).credentials
  | none => {}

def setCredentials (s : KernelState) (i : Nat) (c : Credentials) : KernelState :=
  setProcess s i { s.processes i with credentials := c }

def radProcessSetCredentials (s : KernelState) (caller pid : Int) (c : Credentials) :
    Status × KernelState :=
  let pid := if pid ≤ 0 then caller else pid
  match findProcess s pid with
  | none => (.notFound, s)
  | some i =>
    let held := (s.processes i).credentials
    if (currentCredentials s caller).euid ≠ 0 ∧ pid ≠ caller then (.invalidArgument, s)
    else if (currentCredentials s caller).euid ≠ 0 ∧ (c.uid ≠ held.uid ∨ c.euid ≠ held.uid) then
      (.invalidArgument, s)
    else (.ok, setCredentials s i c)

def radProcessSetuid (s : KernelState) (caller : Int) (uid : Nat) : Status × KernelState :=
  match findProcess s caller with
  | none => (.notFound, s)
  | some i =>
    let held := (s.processes i).credentials
    if held.euid ≠ 0 ∧ uid ≠ held.uid then (.invalidArgument, s)
    else (.ok, setCredentials s i { held with uid := uid, euid := uid })

def radProcessSetgid (s : KernelState) (caller : Int) (gid : Nat) : Status × KernelState :=
  match findProcess s caller with
  | none => (.notFound, s)
  | some i =>
    let held := (s.processes i).credentials
    if held.euid ≠ 0 ∧ gid ≠ held.gid then (.invalidArgument, s)
    else (.ok, setCredentials s i { held with gid := gid, egid := gid })

/-! ## Start-up -/

/-- The table after `init_process_table`: the kernel is process 0. -/
def bootProcesses : Nat → ProcessRecord := fun i =>
  if i = 0 then { state := .running, path := "[kernel]".toList, used := true } else {}

end RadKernel.Process
