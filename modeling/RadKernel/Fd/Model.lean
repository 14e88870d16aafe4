import RadKernel.Kernel.State
import RadKernel.Lib.Ring

/-!
# Descriptor calls

`close_fd_record` to `lookup_fd_record`, `rad_fd_open`, `rad_fd_close`, `rad_pipe_create`,
the socket and shared-memory calls that make descriptors, `rad_fd_dup`, `rad_fd_dup2`,
`rad_fd_fcntl` and `rad_process_clone_fds`. The caller's pid stands for
`current_process_pid()`. A call returns its `int32_t` result and the new state; a search
that returns -1 in the source returns `none` here.
-/

namespace RadKernel.Fd

open Kernel

/-- Put a record into the descriptor table. -/
def setFd (s : KernelState) (i : Nat) (r : FdRecord) : KernelState :=
  { s with fds := Function.update s.fds i r }

def setPipe (s : KernelState) (i : Nat) (p : PipeRecord) : KernelState :=
  { s with pipes := Function.update s.pipes i p }

def setSocket (s : KernelState) (i : Nat) (r : SocketRecord) : KernelState :=
  { s with sockets := Function.update s.sockets i r }

/-- `rad_vfs_close`, `rad_vfs_closedir` and `rad_device_close` of a handle that may be null. -/
def closeHandle (s : KernelState) : Option Nat → KernelState
  | none => s
  | some h => { s with closed := h :: s.closed }

/-- A pipe that lost one reference to an end. -/
def dropPipeRef (pipe : PipeRecord) : Bool → PipeRecord
  | true => if 0 < pipe.writeRefs then { pipe with writeRefs := pipe.writeRefs - 1 } else pipe
  | false => if 0 < pipe.readRefs then { pipe with readRefs := pipe.readRefs - 1 } else pipe

/-- The pipe part of `close_fd_record`. -/
def closePipeEnd (s : KernelState) (pipeIndex : Nat) (writeEnd : Bool) : KernelState :=
  if pipeIndex < maxPipes then
    let pipe := dropPipeRef (s.pipes pipeIndex) writeEnd
    setPipe s pipeIndex (if pipe.readRefs = 0 ∧ pipe.writeRefs = 0 then {} else pipe)
  else s

/-- Clear the peer link of socket `i` if it has a used peer. -/
def unlinkPeer (s : KernelState) (i : Nat) : KernelState :=
  let peer := (s.sockets i).peerIndex
  if peer < maxUdpSockets ∧ (s.sockets peer).used then
    setSocket s peer { s.sockets peer with peerIndex := maxUdpSockets }
  else s

/-- Drop the connections that wait in the queue of the socket. -/
def dropPending (socketIndex : Nat) : Nat → KernelState → KernelState
  | 0, s => s
  | n + 1, s =>
    -- the loop runs upwards: entry `n` comes after the entries below it, and its
    -- condition reads the count again, which is gone once the socket itself was dropped
    let s := dropPending socketIndex n s
    let socket := s.sockets socketIndex
    let pending := socket.pendingAccepts n
    if n < socket.pendingCount ∧ pending < maxUdpSockets then
      setSocket (unlinkPeer s pending) pending {}
    else s

/-- The socket part of `close_fd_record`. -/
def closeSocket (s : KernelState) (socketIndex : Nat) : KernelState :=
  if socketIndex < maxUdpSockets then
    let s := unlinkPeer s socketIndex
    let s := dropPending socketIndex (s.sockets socketIndex).pendingCount s
    setSocket s socketIndex {}
  else s

/-- Close what a descriptor stands for. -/
def closeObject (s : KernelState) (o : FdObject) : KernelState :=
  let s := closeHandle s o.file
  let s := closeHandle s o.dir
  let s := closeHandle s o.device
  let s := if o.kind = .pipe then closePipeEnd s o.pipeIndex o.pipeWriteEnd else s
  if o.kind = .socket then closeSocket s o.socketIndex else s

def closeFdRecord (s : KernelState) (fd : Nat) : KernelState :=
  let r := s.fds fd
  if !r.used then s
  else if 0 < r.refs - 1 then
    setFd s fd { r with refs := r.refs - 1, localFd := -1, ownerPid := -1 }
  else setFd (closeObject s r.toFdObject) fd {}

/-- `owner_fd` as an index of the table. -/
def ownerSlot (r : FdRecord) : Option Nat :=
  if 0 ≤ r.ownerFd ∧ r.ownerFd < maxPosixFds then some r.ownerFd.toNat else none

/-- The first other slot that refers to `fd` as its owner. -/
def promotion (fds : Nat → FdRecord) (fd : Nat) : Option Nat :=
  (List.range maxPosixFds).find? fun i => i ≠ fd ∧ (fds i).used ∧ (fds i).ownerFd = fd

/-- Hand the object of the owner `fd` to `promoted` and redirect the other slots. -/
def promote (fds : Nat → FdRecord) (fd promoted : Nat) : Nat → FdRecord := fun i =>
  if i = fd then {}
  else if i = promoted then
    { fds i with ownerFd := promoted, refs := (fds fd).refs - 1 }
  else if i < maxPosixFds ∧ (fds i).used ∧ (fds i).ownerFd = fd then
    { fds i with ownerFd := promoted }
  else fds i

def closeFdIndex (s : KernelState) (fd : Nat) : KernelState :=
  if maxPosixFds ≤ fd ∨ !(s.fds fd).used then s
  else
    match (if (s.fds fd).ownerFd ≠ fd then ownerSlot (s.fds fd) else none) with
    | some o =>
      let s :=
        if (s.fds o).used ∧ 0 < (s.fds o).refs then
          setFd s o { s.fds o with refs := (s.fds o).refs - 1 }
        else s
      setFd s fd {}
    | none =>
      if 1 < (s.fds fd).refs then
        match promotion s.fds fd with
        | some promoted => { s with fds := promote s.fds fd promoted }
        | none => closeFdRecord s fd
      else closeFdRecord s fd

/-- The loop of `find_fd_slot` over the slots still to come, with the global slot seen. -/
def findFdSlotFrom (fds : Nat → FdRecord) (localFd pid : Int) (includeGlobal : Bool) :
    List Nat → Option Nat → Option Nat
  | [], found => found
  | i :: rest, found =>
    if !(fds i).used ∨ (fds i).localFd ≠ localFd then
      findFdSlotFrom fds localFd pid includeGlobal rest found
    else if (fds i).ownerPid = pid then some i
    else if includeGlobal ∧ (fds i).ownerPid = 0 then
      findFdSlotFrom fds localFd pid includeGlobal rest (some i)
    else findFdSlotFrom fds localFd pid includeGlobal rest found

def findFdSlot (fds : Nat → FdRecord) (localFd pid : Int) (includeGlobal : Bool) : Option Nat :=
  if localFd < 0 then none
  else findFdSlotFrom fds localFd pid includeGlobal (List.range maxPosixFds) none

def fdOwnerIndex (fds : Nat → FdRecord) (slot : Nat) : Option Nat :=
  if maxPosixFds ≤ slot ∨ !(fds slot).used then none
  else
    match ownerSlot (fds slot) with
    | some o => if (fds o).used then some o else some slot
    | none => some slot

/-- The slot a descriptor number leads to and the slot of the object behind it. -/
def resolve (fds : Nat → FdRecord) (fd pid : Int) : Option (Nat × Nat) :=
  (findFdSlot fds fd pid true).bind fun slot => (fdOwnerIndex fds slot).map fun o => (slot, o)

def lookupFdRecord (fds : Nat → FdRecord) (fd pid : Int) : Option FdRecord :=
  (resolve fds fd pid).map fun p => fds p.2

/-- The loop of `close_process_fds` up to, not including, slot `n`. -/
def closeProcessFdsTo (pid : Int) (closeOnExecOnly : Bool) : Nat → KernelState → KernelState
  | 0, s => s
  | n + 1, s =>
    let s := closeProcessFdsTo pid closeOnExecOnly n s
    if !(s.fds n).used ∨ (s.fds n).ownerPid ≠ pid then s
    else if closeOnExecOnly ∧ (s.fds n).descriptorFlags &&& 1 = 0 then s
    else closeFdIndex s n

def closeProcessFds (s : KernelState) (pid : Int) (closeOnExecOnly : Bool) : KernelState :=
  closeProcessFdsTo pid closeOnExecOnly maxPosixFds s

/-- The smallest number from 3 on that `pid` does not use. -/
def freeNumber (fds : Nat → FdRecord) (pid : Int) : Option Nat :=
  (List.range' 3 (maxPosixFds - 3)).find? fun c => (findFdSlot fds c pid false).isNone

def freeSlot (fds : Nat → FdRecord) : Option Nat :=
  (List.range maxPosixFds).find? fun i => !(fds i).used

/-- The last loop of `install_fd_record`: the record goes into the first free slot. -/
def placeFdRecord (s : KernelState) (source : FdRecord) (pid localFd : Int) : Int × KernelState :=
  match freeSlot s.fds with
  | some slot =>
    (localFd, setFd s slot
      { source with
        used := true
        ownerPid := pid
        localFd := localFd
        ownerFd := if source.ownerFd < 0 then slot else source.ownerFd })
  | none => (Status.noMemory.code, s)

def installFdRecord (s : KernelState) (caller : Int) (source : FdRecord) (requested : Int) :
    Int × KernelState :=
  let pid := if 0 ≤ source.ownerPid then source.ownerPid else caller
  if requested < 0 then
    match freeNumber s.fds pid with
    | some localFd => placeFdRecord s source pid localFd
    | none => (Status.noMemory.code, s)
  else if (maxPosixFds : Int) ≤ requested then (Status.noMemory.code, s)
  else
    match findFdSlot s.fds requested pid false with
    | some existing => placeFdRecord (closeFdIndex s existing) source pid requested
    | none => placeFdRecord s source pid requested

/-- A record as the creating calls fill it in: its own owner once it is installed. -/
def newRecord (o : FdObject) (flags : Nat) (pid : Int) : FdRecord :=
  { toFdObject := o, flags := flags, refs := 1, ownerFd := -1, ownerPid := pid, localFd := -1 }

/-- `rad_fd_open`. `backend` is what `rad_device_open`, `rad_vfs_opendir` or `rad_vfs_open`
returned; on success it handed out a new handle. -/
def radFdOpen (s : KernelState) (pid : Int) (path : List Char) (flags : Nat) (backend : Status) :
    Int × KernelState :=
  if backend ≠ .ok then (backend.code, s)
  else
    let handle := some s.opened
    let s := { s with opened := s.opened + 1 }
    let object : FdObject :=
      if "/dev/".toList.isPrefixOf path then { kind := .device, device := handle }
      else if flags &&& vfsDirectory ≠ 0 then { kind := .dir, dir := handle }
      else { kind := .file, file := handle }
    installFdRecord s pid (newRecord object flags pid) (-1)

def radFdClose (s : KernelState) (pid fd : Int) : Int × KernelState :=
  match findFdSlot s.fds fd pid true with
  | none => (Status.notFound.code, s)
  | some slot => (Status.ok.code, closeFdIndex s slot)

/-- `++owner.refs` in the calls that share an object. -/
def countRef (s : KernelState) (o : Nat) : KernelState :=
  setFd s o { s.fds o with refs := (s.fds o).refs + 1 }

def radFdDup (s : KernelState) (pid fd : Int) : Int × KernelState :=
  match resolve s.fds fd pid with
  | none => (Status.notFound.code, s)
  | some (_, o) =>
    installFdRecord (countRef s o) pid
      { s.fds o with ownerFd := o, localFd := -1, ownerPid := pid } (-1)

def radFdDup2 (s : KernelState) (pid oldFd newFd : Int) : Int × KernelState :=
  if newFd < 0 then (Status.invalidArgument.code, s)
  else if oldFd = newFd then (newFd, s)
  else
    match resolve s.fds oldFd pid with
    | none => (Status.notFound.code, s)
    | some (_, o) =>
      installFdRecord (countRef s o) pid
        { s.fds o with ownerFd := o, localFd := newFd, ownerPid := pid } newFd

inductive FcntlCommand where
  | getFd
  | setFd (argument : Nat)
  | getFl
  | setFl (argument : Nat)
  | other
  deriving DecidableEq, Repr

def radFdFcntl (s : KernelState) (pid fd : Int) (command : FcntlCommand) : Int × KernelState :=
  match findFdSlot s.fds fd pid true with
  | none => (Status.notFound.code, s)
  | some slot =>
    match command with
    | .getFd => ((s.fds slot).descriptorFlags, s)
    | .setFd argument =>
      (Status.ok.code, Fd.setFd s slot { s.fds slot with descriptorFlags := argument &&& 1 })
    | .getFl =>
      match fdOwnerIndex s.fds slot with
      | some o => ((s.fds o).flags, s)
      | none => (Status.notFound.code, s)
    | .setFl argument =>
      match fdOwnerIndex s.fds slot with
      | some o =>
        let flags := (s.fds o).flags
        (Status.ok.code, Fd.setFd s o
          { s.fds o with flags := flags - (flags &&& 256) + (argument &&& 256) })
      | none => (Status.notFound.code, s)
    | .other => (Status.notSupported.code, s)

/-! ## Pipes, sockets and shared memory -/

def installPipeEnd (s : KernelState) (pid : Int) (pipeIndex : Nat) (writeEnd : Bool) :
    Int × KernelState :=
  let object : FdObject := { kind := .pipe, pipeIndex := pipeIndex, pipeWriteEnd := writeEnd }
  installFdRecord s pid (newRecord object (if writeEnd then vfsWrite else vfsRead) pid) (-1)

/-- `rad_pipe_create`; the numbers of both ends are returned beside the status. -/
def radPipeCreate (s : KernelState) (pid : Int) : (Int × Int × Int) × KernelState :=
  match (List.range maxPipes).find? fun i => !(s.pipes i).used with
  | none => ((Status.noMemory.code, 0, 0), s)
  | some pipeIndex =>
    let s := setPipe s pipeIndex { used := true, readRefs := 1, writeRefs := 1 }
    let (readFd, s) := installPipeEnd s pid pipeIndex false
    if readFd < 0 then ((readFd, 0, 0), setPipe s pipeIndex {})
    else
      let (writeFd, s) := installPipeEnd s pid pipeIndex true
      if writeFd < 0 then
        let (_, s) := radFdClose s pid readFd
        ((writeFd, 0, 0), setPipe s pipeIndex {})
      else ((Status.ok.code, readFd, writeFd), s)

/-- `protocol` as `rad_socket_create` completes it, `none` when it is not supported. -/
def socketProtocol (type protocol : Int) : Option Int :=
  if type = sockDgram then
    if protocol ≠ 0 ∧ protocol ≠ ipprotoUdp then none else some ipprotoUdp
  else if type = sockStream then
    if protocol ≠ 0 ∧ protocol ≠ ipprotoTcp then none else some ipprotoTcp
  else none

/-- The record `rad_socket_create` fills in. -/
def newSocket (domain type protocol : Int) : SocketRecord where
  used := true
  domain := domain
  type := type
  protocol := protocol
  localAddress := defaultIpv4Address
  peerIndex := maxUdpSockets
  pendingAccepts := fun p => if p < maxUdpSockets then maxUdpSockets else 0

def radSocketCreate (s : KernelState) (pid domain type protocol : Int) : Int × KernelState :=
  if domain ≠ afInet then (Status.notSupported.code, s)
  else
    match socketProtocol type protocol with
    | none => (Status.notSupported.code, s)
    | some protocol =>
      match (List.range maxUdpSockets).find? fun i => !(s.sockets i).used with
      | none => (Status.noMemory.code, s)
      | some i =>
        let s := setSocket s i (newSocket domain type protocol)
        let object : FdObject := { kind := .socket, socketIndex := i }
        let (fd, s) := installFdRecord s pid (newRecord object (vfsRead ||| vfsWrite) pid) (-1)
        if fd < 0 then (fd, setSocket s i {}) else (fd, s)

/-- `socket_from_fd(lookup_fd_record(fd))`. -/
def socketFromFd (s : KernelState) (pid fd : Int) : Option Nat :=
  match lookupFdRecord s.fds fd pid with
  | some r =>
    if r.kind = .socket ∧ r.socketIndex < maxUdpSockets ∧ (s.sockets r.socketIndex).used then
      some r.socketIndex
    else none
  | none => none

/-- `rad_socket_accept`; the peer address is what it stores for the caller. -/
def radSocketAccept (s : KernelState) (pid fd : Int) : (Int × SockAddr) × KernelState :=
  match socketFromFd s pid fd with
  | none => ((Status.notFound.code, {}), s)
  | some l =>
    let listener := s.sockets l
    if listener.type ≠ sockStream ∨ listener.tcpState ≠ .listen then
      ((Status.invalidArgument.code, {}), s)
    else if listener.pendingCount = 0 then ((Status.notFound.code, {}), s)
    else
      let accepted := listener.pendingAccepts 0
      if maxUdpSockets ≤ accepted ∨ !(s.sockets accepted).used then
        ((Status.notFound.code, {}), s)
      else
        let s := setSocket s l
          { listener with
            pendingAccepts := fun i =>
              if i + 1 < listener.pendingCount then listener.pendingAccepts (i + 1)
              else listener.pendingAccepts i
            pendingCount := listener.pendingCount - 1 }
        let object : FdObject := { kind := .socket, socketIndex := accepted }
        let address : SockAddr :=
          ⟨afInet, (s.sockets accepted).remotePort, (s.sockets accepted).remoteAddress⟩
        let (fd, s) := installFdRecord s pid (newRecord object (vfsRead ||| vfsWrite) pid) (-1)
        ((fd, address), s)

/-- The shm object of that name that is still linked. -/
def findShmByName (s : KernelState) (name : List Char) : Option Nat :=
  if name = [] then none
  else (List.range maxShmObjects).find? fun i =>
    (s.shmObjects i).used ∧ (s.shmObjects i).linked ∧ (s.shmObjects i).name = name

def installShmFd (s : KernelState) (pid : Int) (shmIndex flags : Nat) : Int × KernelState :=
  if maxShmObjects ≤ shmIndex ∨ !(s.shmObjects shmIndex).used then
    (Status.invalidArgument.code, s)
  else
    installFdRecord s pid (newRecord { kind := .shm, shmIndex := shmIndex } flags pid) (-1)

/-- `rad_shm_open`; `byte_size` is a `size_t`, so rounding it up to pages can wrap. -/
def radShmOpen (s : KernelState) (pid : Int) (name : List Char) (byteSize flags : Nat) :
    Int × KernelState :=
  let pageCount := (byteSize + 4095) % 2 ^ 64 / 4096
  if name = [] ∨ byteSize = 0 ∨ 64 ≤ name.length ∨ pageCount = 0 ∨ 16 < pageCount then
    (Status.invalidArgument.code, s)
  else
    match findShmByName s name with
    | some i => installShmFd s pid i flags
    | none =>
      match (List.range maxShmObjects).find? fun i => !(s.shmObjects i).used with
      | none => (Status.noMemory.code, s)
      | some i =>
        let record : ShmRecord :=
          { name := name, byteSize := byteSize, pageCount := pageCount, linked := true, used := true }
        installShmFd { s with shmObjects := Function.update s.shmObjects i record } pid i flags

def radShmUnlink (s : KernelState) (name : List Char) : Int × KernelState :=
  match findShmByName s name with
  | none => (Status.notFound.code, s)
  | some i => (Status.ok.code, { s with shmObjects := Function.update s.shmObjects i {} })

/-! ## Processes -/

/-- One round of `rad_process_clone_fds`: slot `n`, whose object is in slot `o`, is copied to
the child under the same number. -/
def copyFd (s : KernelState) (caller childPid : Int) (n o : Nat) : Int × KernelState :=
  installFdRecord (countRef s o) caller
    { s.fds n with ownerPid := childPid, ownerFd := o, refs := 1 } (s.fds n).localFd

/-- The loop of `rad_process_clone_fds` from slot `n` on, over the next `fuel` slots. -/
def cloneFdsFrom (parentPid childPid caller : Int) : Nat → Nat → KernelState → Int × KernelState
  | 0, _, s => (Status.ok.code, s)
  | fuel + 1, n, s =>
    if !(s.fds n).used ∨ (s.fds n).ownerPid ≠ parentPid then
      cloneFdsFrom parentPid childPid caller fuel (n + 1) s
    else
      match fdOwnerIndex s.fds n with
      | none => cloneFdsFrom parentPid childPid caller fuel (n + 1) s
      | some o =>
        let (installed, t) := copyFd s caller childPid n o
        if installed < 0 then (installed, t)
        else cloneFdsFrom parentPid childPid caller fuel (n + 1) t

def radProcessCloneFds (s : KernelState) (caller parentPid childPid : Int) : Int × KernelState :=
  if parentPid ≤ 0 ∨ childPid ≤ 0 ∨ parentPid = childPid then (Status.invalidArgument.code, s)
  else cloneFdsFrom parentPid childPid caller maxPosixFds 0 s

def findProcess (s : KernelState) (pid : Int) : Option Nat :=
  (List.range maxProcesses).find? fun i => (s.processes i).used ∧ (s.processes i).pid = pid

/-- `rad_process_mark_exec`. The stored path is the normalised one in the source; nothing
modelled here reads it. -/
def radProcessMarkExec (s : KernelState) (pid : Int) (path : List Char) : Int × KernelState :=
  if pid ≤ 0 ∨ path = [] then (Status.invalidArgument.code, s)
  else
    match findProcess s pid with
    | none => (Status.notFound.code, s)
    | some i =>
      let record := { s.processes i with path := path, state := .running, exitCode := 0 }
      (Status.ok.code,
        closeProcessFds { s with processes := Function.update s.processes i record } pid true)

/-- One pass of `rad_process_waitpid` over the process table, with `RAD_WAIT_NOHANG`: the
pid and exit code of the child it reaped, or the status it returns. -/
def radProcessWaitpid (s : KernelState) (caller pid : Int) : (Int × Int) × KernelState :=
  let child := fun i => (s.processes i).used ∧ (s.processes i).parentPid = caller ∧
    (0 < pid → (s.processes i).pid = pid)
  match (List.range maxProcesses).find? fun i => child i ∧ (s.processes i).state = .zombie with
  | some i =>
    let record := s.processes i
    let s := closeProcessFds s record.pid false
    ((record.pid, record.exitCode),
      { s with processes := Function.update s.processes i {} })
  | none =>
    if (List.range maxProcesses).any fun i => child i then ((0, 0), s)
    else ((Status.notFound.code, 0), s)

/-! ## Start-up -/

/-- `open_stdio_fd`: a global descriptor on the console. -/
def openStdioFd (s : KernelState) (fd : Int) : KernelState :=
  let record : FdRecord :=
    { kind := .device, device := some s.opened, refs := 1, ownerFd := -1, ownerPid := 0,
      localFd := fd }
  (installFdRecord { s with opened := s.opened + 1 } 0 record fd).2

/-- Tables after `init_process_table` and `initialize_stdio_fds`: with a console device the
three global descriptors are open. The process table is arbitrary. -/
def boot (console : Bool) (processes : Nat → ProcessRecord) : KernelState :=
  let s : KernelState := { processes := processes }
  if console then openStdioFd (openStdioFd (openStdioFd s 0) 1) 2 else s

/-! ## Reading and writing

What a file or a device answers is a parameter: it depends on nothing in these tables. -/

def pipeBufferBytes : Nat := 512

/-- `pipe_read`: the count or status it returns, and the bytes that were copied out. -/
def pipeRead (s : KernelState) (r : FdRecord) (size : Nat) : (Int × List UInt8) × KernelState :=
  if r.kind ≠ .pipe ∨ r.pipeWriteEnd ∨ maxPipes ≤ r.pipeIndex then
    ((Status.invalidArgument.code, []), s)
  else
    let pipe := s.pipes r.pipeIndex
    if !pipe.used then ((Status.invalidArgument.code, []), s)
    else
      let count := if pipe.size < size then pipe.size else size
      if count = 0 then ((0, []), s)
      else
        ((count, Ring.peek pipeBufferBytes pipe.readPos count pipe.buffer),
          setPipe s r.pipeIndex
            { pipe with
              readPos := (pipe.readPos + count) % pipeBufferBytes
              size := pipe.size - count })

def pipeWrite (s : KernelState) (r : FdRecord) (bytes : List UInt8) : Int × KernelState :=
  if r.kind ≠ .pipe ∨ !r.pipeWriteEnd ∨ maxPipes ≤ r.pipeIndex then
    (Status.invalidArgument.code, s)
  else
    let pipe := s.pipes r.pipeIndex
    if !pipe.used then (Status.invalidArgument.code, s)
    else if pipe.readRefs ≤ 0 then (Status.notFound.code, s)
    else
      let capacity := pipeBufferBytes - pipe.size
      let count := if capacity < bytes.length then capacity else bytes.length
      let writePos := (pipe.readPos + pipe.size) % pipeBufferBytes
      if count = 0 then (0, s)
      else
        (count, setPipe s r.pipeIndex
          { pipe with
            buffer := Ring.push pipeBufferBytes writePos pipe.buffer (bytes.take count)
            size := pipe.size + count })

/-- `rad_fd_read`; `answer` is what the file or device gives. -/
def radFdRead (s : KernelState) (pid fd : Int) (size : Nat) (answer : Int × List UInt8) :
    (Int × List UInt8) × KernelState :=
  match lookupFdRecord s.fds fd pid with
  | none => ((Status.notFound.code, []), s)
  | some r =>
    if r.kind = .file ∨ r.kind = .device then (answer, s)
    else if r.kind = .pipe then pipeRead s r size
    else ((Status.invalidArgument.code, []), s)

def radFdWrite (s : KernelState) (pid fd : Int) (bytes : List UInt8) (answer : Int) :
    Int × KernelState :=
  match lookupFdRecord s.fds fd pid with
  | none => (Status.notFound.code, s)
  | some r =>
    if r.kind = .file ∨ r.kind = .device then (answer, s)
    else if r.kind = .pipe then pipeWrite s r bytes
    else (Status.invalidArgument.code, s)

end RadKernel.Fd
