import RadKernel.Fd.Shm
import RadKernel.Fd.PipeFifo
import RadKernel.Lib.Words
import RadKernel.Vm.Access

/-!
# System calls that copy to and from user programs

`x86_syscall_dispatch` for `PIPE`, `PIPE2`, `ACCEPT`, `SHM_OPEN`, `READ` and `WRITE`. The program
that calls is given by its pid and the name of its address space. A call that returns a negative
status fails with it here; `none` is a kernel that halted.

What a copy stores in the page of an object is not noted in `objects`. Markers for debugging are
left out, apart from those that `WRITE` looks for.
-/

namespace RadKernel

namespace Vm

variable {κ : Type} [DecidableEq κ]

/-- `x86_copy_string_from_user` with room for `size` bytes; the bytes before the terminator. -/
def VmState.copyStringFromUser (s : VmState κ) (id : κ) :
    Nat → Nat → Option (Except Status (List UInt8))
  | _, 0 => some (.error .invalidArgument)
  | src, size + 1 =>
    if s.validateUserRange id src 1 false then
      (s.load id src).bind fun ch =>
        if ch = 0 then some (.ok [])
        else (s.copyStringFromUser id (src + 1) size).map fun rest => rest.map (ch :: ·)
    else some (.error .invalidArgument)

end Vm

namespace Syscall

open Kernel Fd

def fdCloexec : Nat := 1
def fdNonblock : Nat := 256
def shmNameMax : Nat := 64

/-- The tables of the kernel, the memory, `g_hidden_marker_needs_newline` and what went to the
serial line. The bytes that descriptors gave to `READ` or took from `WRITE` are kept in `moved`. -/
structure World (κ : Type) where
  tables : KernelState
  machine : Vm.Machine κ
  hidden : Bool := false
  serial : List UInt8 := []
  moved : List UInt8 := []

abbrev Sys (κ : Type) := Prog Int (World κ)

variable {κ : Type} [DecidableEq κ]

/-- The value in `rax` after the call. -/
def value : Except Int Int → Int
  | .ok result => result
  | .error status => status

/-- A call of the runtime kernel. -/
def onTables {α : Type} (f : KernelState → α × KernelState) : Sys κ α := fun w =>
  let out := f w.tables
  some (.ok out.1, { w with tables := out.2 })

def World.setVm (w : World κ) (vm : Vm.VmState κ) : World κ :=
  { w with machine := { w.machine with vm } }

def ensure (c : Prop) [Decidable c] (status : Status) : Sys κ Unit :=
  if c then pure () else Prog.fail status.code

def onlyIf (c : Prop) [Decidable c] (x : Sys κ Unit) : Sys κ Unit := if c then x else pure ()

def copyToUser (k : κ) (dst : Nat) (src : List UInt8) : Sys κ Status := fun w =>
  (w.machine.vm.copyToUser k dst src).map fun out => (.ok out.1, w.setVm out.2)

def copyFromUser (k : κ) (src size : Nat) : Sys κ (Except Status (List UInt8)) := fun w =>
  (w.machine.vm.copyFromUser k src size).map fun out => (.ok out, w)

def copyStringFromUser (k : κ) (src size : Nat) : Sys κ (Except Status (List UInt8)) := fun w =>
  (w.machine.vm.copyStringFromUser k src size).map fun out => (.ok out, w)

/-! ## Calls that create descriptors -/

def int32Bytes (n : Int) : List UInt8 := Words.encode 4 (n % 2 ^ 32).toNat

/-- The end of `PIPE` and `PIPE2`. -/
def copyPipe (k : κ) (pipefd : Nat) (readFd writeFd : Int) : Sys κ Int := do
  let copied ← copyToUser k pipefd (int32Bytes readFd ++ int32Bytes writeFd)
  ensure (copied = .ok) copied
  return Status.ok.code

def sysPipe (pid : Nat) (k : κ) (pipefd : Nat) : Sys κ Int := do
  let (status, readFd, writeFd) ← onTables fun s => radPipeCreate s pid
  if status ≠ Status.ok.code then Prog.fail status
  else
    copyPipe k pipefd readFd writeFd

/-- `rad_fd_fcntl` for both ends of a pipe. -/
def fcntlBoth (pid : Nat) (readFd writeFd : Int) (command : FcntlCommand) : Sys κ Unit := do
  let _ ← onTables fun s => radFdFcntl s pid readFd command
  let _ ← onTables fun s => radFdFcntl s pid writeFd command

def sysPipe2 (pid : Nat) (k : κ) (pipefd flags : Nat) : Sys κ Int := do
  let (status, readFd, writeFd) ← onTables fun s => radPipeCreate s pid
  if status ≠ Status.ok.code then Prog.fail status
  else
    onlyIf (flags &&& fdCloexec ≠ 0) (fcntlBoth pid readFd writeFd (.setFd fdCloexec))
    onlyIf (flags &&& fdNonblock ≠ 0) (fcntlBoth pid readFd writeFd (.setFl fdNonblock))
    copyPipe k pipefd readFd writeFd

/-- The bytes of a `rad_sockaddr_in_t`. -/
def sockAddrBytes (a : SockAddr) : List UInt8 :=
  Words.encode 2 (a.family % 2 ^ 16).toNat ++ Words.encode 2 a.port ++
    [a.address.b0, a.address.b1, a.address.b2, a.address.b3] ++ Words.encode 8 0

def sockAddrSize : Nat := 16

/-- The size of the length that `ACCEPT` reads and stores. -/
def lengthSize (linux : Bool) : Nat := if linux then 4 else 8

/-- The length that `ACCEPT` starts with; under the number of Linux it is not read. -/
def acceptLength (k : κ) (linux : Bool) (length : Nat) : Sys κ (Except Status (List UInt8)) :=
  if !linux ∧ length ≠ 0 then copyFromUser k length 8
  else pure (.ok (Words.encode 8 sockAddrSize))

/-- A copy to the program that the call does not go on without. -/
def store (k : κ) (dst : Nat) (src : List UInt8) : Sys κ Unit := do
  let copied ← copyToUser k dst src
  ensure (copied = .ok) .invalidArgument

/-- The copies at the end of `ACCEPT`. `rad_socket_accept` stores the peer only with both pointers
and enough room. -/
def giveAddress (k : κ) (linux : Bool) (address length : Nat) (peer : SockAddr) (given : Nat) :
    Sys κ Unit := do
  let stored := address ≠ 0 ∧ length ≠ 0 ∧ sockAddrSize ≤ given
  let size := if stored then sockAddrSize else given
  onlyIf (address ≠ 0) (store k address (sockAddrBytes (if stored then peer else {})))
  onlyIf (length ≠ 0) (store k length (Words.encode (lengthSize linux) size))

/-- `ACCEPT`, under its own number or the one of Linux. -/
def sysAccept (pid : Nat) (k : κ) (linux : Bool) (fd : Int) (address length : Nat) :
    Sys κ Int := do
  let w ← Prog.read
  let readable := fun a size => w.machine.vm.validateUserRange k a size false = true
  ensure (address ≠ 0 → readable address sockAddrSize) .invalidArgument
  ensure (length ≠ 0 → readable length (lengthSize linux)) .invalidArgument
  match ← acceptLength k linux length with
  | .error _ => Prog.fail Status.invalidArgument.code
  | .ok given =>
    let (accepted, peer) ← onTables fun s => radSocketAccept s pid fd
    if accepted < 0 then Prog.fail accepted
    else
      giveAddress k linux address length peer (Words.decode given)
      return accepted

/-- The world after `x86_vm_alloc_page` gave a page of zeros for an object; its address stands for
it. -/
def World.holdPage (w : World κ) :
    Option (Except Unit Nat × Vm.VmState κ) → Option (Except Int Nat × World κ)
  | some (.ok page, vm) => some (.ok (page * Vm.pageSize),
      { w with machine := w.machine.hold (fun _ => 0) (some (.ok page, vm)) })
  | some (.error _, vm) => some (.error Status.noMemory.code, w.setVm vm)
  | none => none

def allocShmPage : Sys κ Nat := fun w => w.holdPage (Vm.allocPage w.machine.vm)

/-- `x86_vm_free_page` of such a page. -/
def freeShmPage (physical : Nat) : Sys κ Unit := fun w =>
  let page := physical / Vm.pageSize
  (Vm.freePage page w.machine.vm).map fun out => (.ok (),
    { w with machine := { w.machine with
        vm := out.2
        held := Function.update w.machine.held page 0
        objects := Function.update w.machine.objects page none } })

def newShmPage (pid : Nat) (fd : Int) (i : Nat) : Sys κ Unit := do
  let physical ← allocShmPage
  let status ← onTables fun s => radShmSetPage s pid fd i physical
  if status ≠ .ok then
    freeShmPage physical
    Prog.fail status.code

/-- One round of the loop of `x86_sys_shm_open`. -/
def fillShmPage (pid : Nat) (fd : Int) (i : Nat) : Sys κ Unit := do
  let w ← Prog.read
  match radShmGetPage w.tables pid fd i with
  | .ok _ => pure ()
  | .error _ => newShmPage pid fd i

def shmName (bytes : List UInt8) : List Char := bytes.map fun b => Char.ofNat b.toNat

/-- The descriptor is there, and its object gets the pages that it lacks. -/
def fillShm (pid : Nat) (fd : Int) : Sys κ Int := do
  let w ← Prog.read
  match radShmGetInfo w.tables pid fd with
  | .error _ => return fd
  | .ok info =>
    (List.range info.pageCount).forM (fillShmPage pid fd)
    return fd

/-- `x86_sys_shm_open`. -/
def sysShmOpen (pid : Nat) (k : κ) (name byteSize flags : Nat) : Sys κ Int := do
  match ← copyStringFromUser k name shmNameMax with
  | .error copied => Prog.fail copied.code
  | .ok name =>
    let fd ← onTables fun s => radShmOpen s pid (shmName name) byteSize (flags % 2 ^ 32)
    if fd < 0 then Prog.fail fd else fillShm pid fd

inductive Create where
  | pipe (pipefd : Nat)
  | pipe2 (pipefd flags : Nat)
  | accept (linux : Bool) (fd : Int) (address length : Nat)
  | shmOpen (name byteSize flags : Nat)
  deriving DecidableEq, Repr

def Create.run (pid : Nat) (k : κ) : Create → Sys κ Int
  | .pipe pipefd => sysPipe pid k pipefd
  | .pipe2 pipefd flags => sysPipe2 pid k pipefd flags
  | .accept linux fd address length => sysAccept pid k linux fd address length
  | .shmOpen name byteSize flags => sysShmOpen pid k name byteSize flags

/-! ## Calls that move bytes -/

def markerText : List UInt8 := "RAD_".toList.map fun ch => ch.toNat.toUInt8

def isNewline (ch : UInt8) : Bool := ch = 10 || ch = 13

/-- `marker_text_char`. -/
def markerTextChar (ch : UInt8) : Bool :=
  (65 ≤ ch && ch ≤ 90) || (48 ≤ ch && ch ≤ 57) || ch = 95

/-- The loop of `is_rad_marker_only`. It compares six bytes with a literal of five, `beyond` is the
byte that follows it in memory. -/
def markerOnlyFrom (beyond : UInt8) (sawMarker : Bool) : Nat → List UInt8 → Bool
  | 0, _ => sawMarker
  | fuel + 1, text =>
    match text.dropWhile isNewline with
    | [] => sawMarker
    | text =>
      if (markerText ++ [0, beyond]).isPrefixOf text then
        let line := text.takeWhile fun ch => !isNewline ch
        if line.all markerTextChar then
          markerOnlyFrom beyond true fuel (text.drop line.length)
        else false
      else false

/-- `is_rad_marker_only`; each round takes a byte at least. -/
def isRadMarkerOnly (beyond : UInt8) (text : List UInt8) : Bool :=
  markerOnlyFrom beyond false (text.length + 1) text

def newlineOnly (text : List UInt8) : Bool := text ≠ [] && text.all isNewline

def endsWithNewline (text : List UInt8) : Bool := (text.getLast?.map isNewline).getD false

/-- `x86_serial_write`, up to the terminator. -/
def serialWrite (text : List UInt8) : Sys κ Unit :=
  Prog.modify fun w => { w with
    serial := w.serial ++ (text.takeWhile (· ≠ 0)).flatMap fun ch => if ch = 10 then [13, ch] else [ch] }

def setHidden (hidden : Bool) : Sys κ Unit := Prog.modify fun w => { w with hidden }

/-- What a file or device answers when it is asked for `want` bytes: the value of the call, and the
bytes it handed out, which fit into the buffer. -/
structure ReadAnswer (want : Nat) where
  code : Int
  bytes : List UInt8
  counted : 0 ≤ code → bytes.length = code
  fits : bytes.length ≤ want

/-- What a file or device answers when it is given `want` bytes: the value of the call, and how many
of the bytes it took. -/
structure WriteAnswer (want : Nat) where
  code : Int
  taken : Nat
  counted : 0 ≤ code → taken = code
  fits : taken ≤ want

/-- The descriptor number in a register. -/
def int32 (arg : Nat) : Int := (arg : Int).bmod (2 ^ 32)

def chunkSize (left : Nat) : Nat := if 256 < left then 256 else left

/-- `rad_fd_read`. -/
def readChunk (pid : Nat) (fd : Int) (want : Nat) (answer : ReadAnswer want) :
    Sys κ (Int × List UInt8) := fun w =>
  let out := radFdRead w.tables pid fd want (answer.code, answer.bytes)
  some (.ok out.1, { w with tables := out.2, moved := w.moved ++ out.1.2 })

/-- The loop of `READ`. -/
def readFrom (pid : Nat) (k : κ) (fd : Int) (buffer size : Nat)
    (answers : Nat → ∀ want, ReadAnswer want) (total : Nat) : Sys κ Int :=
  if total < size then do
    let want := chunkSize (size - total)
    let (got, bytes) ← readChunk pid fd want (answers total want)
    if got < 0 then Prog.fail got
    else if got = 0 then return total
    else
      store k (buffer + total) bytes
      if got.toNat < want then return (total + got.toNat : Nat)
      else readFrom pid k fd buffer size answers (total + got.toNat)
  else return total
termination_by size - total
decreasing_by
  unfold want chunkSize at *
  split at * <;> omega

def sysRead (pid : Nat) (k : κ) (arg0 buffer size : Nat)
    (answers : Nat → ∀ want, ReadAnswer want) : Sys κ Int := do
  let w ← Prog.read
  ensure (w.machine.vm.validateUserRange k buffer size false = true) .invalidArgument
  readFrom pid k (int32 arg0) buffer size answers 0

/-- `rad_fd_write`. A pipe takes as many bytes as it says. -/
def deliver (pid : Nat) (fd : Int) (chunk : List UInt8) (answer : WriteAnswer chunk.length) :
    Sys κ Int := fun w =>
  let out := radFdWrite w.tables pid fd chunk answer.code
  let external := (lookupFdRecord w.tables.fds fd pid).any fun r => r.kind = .file ∨ r.kind = .device
  let taken := if external then answer.taken else out.1.toNat
  some (.ok out.1, { w with tables := out.2, moved := w.moved ++ chunk.take taken })

/-- A hidden marker ends with what goes to the serial line. -/
def endHidden (text : List UInt8) : Sys κ Unit := do
  serialWrite text
  setHidden false

/-- One round of the loop of `WRITE`: the bytes that it counts, or a negative status. -/
def writeChunk (beyond : UInt8) (pid arg0 : Nat) (chunk : List UInt8)
    (answer : WriteAnswer chunk.length) : Sys κ Int := do
  let w ← Prog.read
  let visible := arg0 = 1 ∨ arg0 = 2
  if visible ∧ w.hidden ∧ newlineOnly chunk then
    endHidden chunk
    return chunk.length
  else
    onlyIf (visible ∧ w.hidden) (endHidden [10])
    onlyIf (markerText <:+: chunk.takeWhile (· ≠ 0)) (serialWrite chunk)
    if isRadMarkerOnly beyond chunk ∧ visible then
      setHidden !(endsWithNewline chunk)
      return chunk.length
    else deliver pid (int32 arg0) chunk answer

/-- The loop of `WRITE`. -/
def writeFrom (beyond : UInt8) (pid : Nat) (k : κ) (arg0 buffer size : Nat)
    (answers : Nat → ∀ want, WriteAnswer want) (total : Nat) : Sys κ Int :=
  if total < size then do
    let want := chunkSize (size - total)
    match ← copyFromUser k (buffer + total) want with
    | .error _ => Prog.fail Status.invalidArgument.code
    | .ok chunk =>
      let wrote ← writeChunk beyond pid arg0 chunk (answers total chunk.length)
      if wrote < 0 then Prog.fail wrote
      else if wrote.toNat < want then return (total + wrote.toNat : Nat)
      else writeFrom beyond pid k arg0 buffer size answers (total + wrote.toNat)
  else return total
termination_by size - total
decreasing_by
  unfold want chunkSize at *
  split at * <;> omega

def sysWrite (beyond : UInt8) (pid : Nat) (k : κ) (arg0 buffer size : Nat)
    (answers : Nat → ∀ want, WriteAnswer want) : Sys κ Int := do
  let w ← Prog.read
  ensure (w.machine.vm.validateUserRange k buffer size false = true) .invalidArgument
  writeFrom beyond pid k arg0 buffer size answers 0

inductive Move where
  | read (arg0 buffer size : Nat) (answers : Nat → ∀ want, ReadAnswer want)
  | write (arg0 buffer size : Nat) (answers : Nat → ∀ want, WriteAnswer want)

def Move.run (beyond : UInt8) (pid : Nat) (k : κ) : Move → Sys κ Int
  | .read arg0 buffer size answers => sysRead pid k arg0 buffer size answers
  | .write arg0 buffer size answers => sysWrite beyond pid k arg0 buffer size answers

end Syscall

end RadKernel
