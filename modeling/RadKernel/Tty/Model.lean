import RadKernel.Kernel.State

/-!
# Terminals and pseudo terminals

`rad_pty_open_pair` to `rad_pty_write_slave` with the terminal records they work on. A buffer is
the list of the bytes in it. The devices that `register_tty_device` makes, window sizes and
output callbacks are left out: none of these calls reads them.
-/

namespace RadKernel.Tty

open Kernel

def maxTtys : Nat := 8
def maxPtys : Nat := 4
def ttyBufferBytes : Nat := 1024
def ttyLineBytes : Nat := 256

/-- `buffer_append`: what does not fit is dropped. -/
def bufferAppend (capacity : Nat) (dst data : List UInt8) : List UInt8 :=
  dst ++ data.take (capacity - dst.length)

/-- `rad_tty_termios_t`. -/
structure Termios where
  inputFlags : UInt32 := 0
  outputFlags : UInt32 := 0
  controlFlags : UInt32 := 0
  localFlags : UInt32 := 0
  inputSpeed : UInt32 := 0
  outputSpeed : UInt32 := 0
  controlChars : List UInt8 := List.replicate 32 0
  deriving DecidableEq, Repr

def ttyIflagIcrnl : UInt32 := 4
def ttyOflagOpost : UInt32 := 1
def ttyLflagIcanon : UInt32 := 1
def ttyLflagEcho : UInt32 := 2
def ttyLflagIsig : UInt32 := 8
def ttyLflagIexten : UInt32 := 16
def ttySpeedDefault : UInt32 := 9600
def ttyModeCanonical : UInt32 := 1
def ttyModeEcho : UInt32 := 2
def ttyModeCrlf : UInt32 := 4

def defaultTtyTermios : Termios where
  inputFlags := ttyIflagIcrnl
  outputFlags := ttyOflagOpost
  localFlags := ttyLflagIcanon ||| ttyLflagEcho ||| ttyLflagIsig ||| ttyLflagIexten
  inputSpeed := ttySpeedDefault
  outputSpeed := ttySpeedDefault
  -- VINTR, VEOF, VERASE, VMIN, VTIME, VKILL
  controlChars := [3, 4, 0x7f, 1, 0, 21] ++ List.replicate 26 0

def ttyModeFromTermios (termios : Termios) : UInt32 :=
  (if termios.localFlags &&& ttyLflagIcanon ≠ 0 then ttyModeCanonical else 0) |||
  (if termios.localFlags &&& ttyLflagEcho ≠ 0 then ttyModeEcho else 0) |||
  (if termios.inputFlags &&& ttyIflagIcrnl ≠ 0 then ttyModeCrlf else 0)

/-- What a terminal record holds of a session. -/
structure TtyContent where
  input : List UInt8 := []
  line : List UInt8 := []
  output : List UInt8 := []
  mode : UInt32 := ttyModeFromTermios defaultTtyTermios
  termios : Termios := defaultTtyTermios
  deriving DecidableEq, Repr

structure TtyRecord extends TtyContent where
  name : List Char := []
  ptyId : Nat := 0
  used : Bool := false

structure PtyRecord where
  id : Nat := 0
  name : List Char := []
  slaveName : List Char := []
  master : List UInt8 := []
  used : Bool := false

structure TtyState where
  ttys : Nat → TtyRecord := fun _ => {}
  ptys : Nat → PtyRecord := fun _ => {}

/-! ## Terminals -/

def setTty (s : TtyState) (j : Nat) (c : TtyContent) : TtyState :=
  { s with ttys := Function.update s.ttys j { s.ttys j with toTtyContent := c } }

def findTty (s : TtyState) (name : List Char) : Option Nat :=
  (List.range maxTtys).find? fun j => (s.ttys j).used ∧ (s.ttys j).name = name

/-- `ensure_tty`: the record of that name, a new one if there is none. Names fit. -/
def ensureTty (s : TtyState) (name : List Char) : Option Nat × TtyState :=
  match findTty s name with
  | some j => (some j, s)
  | none =>
    if name = [] then (none, s)
    else
      match (List.range maxTtys).find? fun j => !(s.ttys j).used with
      | none => (none, s)
      | some j =>
        (some j, { s with ttys := Function.update s.ttys j { name := name, used := true } })

/-- The pty whose slave is attached to a terminal. -/
def attachedPty (s : TtyState) (ptyId : Nat) : Option Nat :=
  if ptyId = 0 then none
  else (List.range maxPtys).find? fun i => (s.ptys i).used ∧ (s.ptys i).id = ptyId

/-- `append_tty_output`, the part for the master. -/
def appendMaster (s : TtyState) (ptyId : Nat) (data : List UInt8) : TtyState :=
  match attachedPty s ptyId with
  | none => s
  | some i =>
    let pty := s.ptys i
    let pty := { pty with master := bufferAppend ttyBufferBytes pty.master data }
    { s with ptys := Function.update s.ptys i pty }

@[simp] theorem appendMaster_ttys (s : TtyState) (ptyId : Nat) (data : List UInt8) :
    (appendMaster s ptyId data).ttys = s.ttys := by
  unfold appendMaster
  split <;> rfl

/-- `append_tty_output`, the part for the terminal itself. -/
def TtyContent.append (c : TtyContent) (data : List UInt8) : TtyContent :=
  { c with output := bufferAppend ttyBufferBytes c.output data }

def TtyContent.read (c : TtyContent) (size : Nat) : TtyContent :=
  { c with input := c.input.drop size }

/-- `isprint` of the C locale. -/
def isprint (ch : UInt8) : Bool := 0x20 ≤ ch ∧ ch ≤ 0x7e

/-- One round of the loop of `tty_push_input_record`: the record and the echo so far. -/
def pushChar : TtyContent × List UInt8 → UInt8 → TtyContent × List UInt8
  | (c, echo), b =>
    let ch := if b = 13 then 10 else b
    let canonical : Bool := c.mode &&& ttyModeCanonical ≠ 0
    let echoing := fun text : List UInt8 =>
      if c.mode &&& ttyModeEcho ≠ 0 then bufferAppend ttyLineBytes echo text else echo
    if (ch = 8 ∨ ch = 0x7f) ∧ canonical then
      if c.line ≠ [] then ({ c with line := c.line.dropLast }, echoing [8, 32, 8]) else (c, echo)
    else if canonical then
      if ch = 10 then
        let input := bufferAppend ttyBufferBytes (bufferAppend ttyBufferBytes c.input c.line) [10]
        ({ c with input := input, line := [] }, echoing [10])
      else if isprint ch ∨ ch = 9 then
        ({ c with line := bufferAppend ttyLineBytes c.line [ch] }, echoing [ch])
      else (c, echo)
    else ({ c with input := bufferAppend ttyBufferBytes c.input [ch] }, echoing [ch])

/-- The loop of `tty_push_input_record`. -/
def pushInput (c : TtyContent) (bytes : List UInt8) : TtyContent × List UInt8 :=
  bytes.foldl pushChar (c, [])

/-- The record after `tty_push_input_record`; an empty echo adds nothing. -/
def TtyContent.push (c : TtyContent) (bytes : List UInt8) : TtyContent :=
  (pushInput c bytes).1.append (pushInput c bytes).2

def ttyPushInputRecord (s : TtyState) (j : Nat) (bytes : List UInt8) : TtyState :=
  let content := (s.ttys j).toTtyContent
  appendMaster (setTty s j (content.push bytes)) (s.ttys j).ptyId (pushInput content bytes).2

def ttyWriteRecord (s : TtyState) (j : Nat) (bytes : List UInt8) : TtyState :=
  appendMaster (setTty s j ((s.ttys j).toTtyContent.append bytes)) (s.ttys j).ptyId bytes

def ttyReadRecord (s : TtyState) (j size : Nat) : List UInt8 × TtyState :=
  ((s.ttys j).input.take size, setTty s j ((s.ttys j).toTtyContent.read size))

/-- The assignments of `rad_tty_set_termios`. -/
def TtyContent.configure (c : TtyContent) (termios : Termios) : TtyContent :=
  let termios :=
    { termios with
      inputSpeed := if termios.inputSpeed = 0 then ttySpeedDefault else termios.inputSpeed
      outputSpeed := if termios.outputSpeed = 0 then ttySpeedDefault else termios.outputSpeed }
  { c with termios := termios, mode := ttyModeFromTermios termios, line := [] }

/-- The record behind a terminal handle. -/
def openTty (s : TtyState) (j : Nat) : Option Nat :=
  if j < maxTtys ∧ (s.ttys j).used then some j else none

def radTtySetTermios (s : TtyState) (j : Nat) (termios : Termios) : Status × TtyState :=
  match openTty s j with
  | none => (.invalidArgument, s)
  | some j => (.ok, setTty s j ((s.ttys j).toTtyContent.configure termios))

def radTtyRead (s : TtyState) (j size : Nat) : (Status × List UInt8) × TtyState :=
  match openTty s j with
  | none => ((.notFound, []), s)
  | some j =>
    let (bytes, s) := ttyReadRecord s j size
    ((.ok, bytes), s)

/-! ## Pseudo terminals -/

def findPty (s : TtyState) (i : Nat) : Option Nat :=
  if i < maxPtys ∧ (s.ptys i).used then some i else none

/-- The loop over the open ptys in `rad_pty_open_pair`; ids are 32 bits wide. -/
def nextPtyId (s : TtyState) : Nat :=
  (List.range maxPtys).foldl
    (fun next i => if (s.ptys i).used ∧ next ≤ (s.ptys i).id then ((s.ptys i).id + 1) % 2 ^ 32 else next) 1

/-- The name of the slave, `/dev/pts/%u`. -/
def ptsName (id : Nat) : List Char := "/dev/pts/".toList ++ Nat.toDigits 10 id

def setPty (s : TtyState) (i : Nat) (r : PtyRecord) : TtyState :=
  { s with ptys := Function.update s.ptys i r }

def setPtyId (s : TtyState) (j id : Nat) : TtyState :=
  { s with ttys := Function.update s.ttys j { s.ttys j with ptyId := id } }

/-- `rad_pty_open_pair`. The handle is the index of the pty; `memory` tells whether there is
memory for it. -/
def radPtyOpenPair (s : TtyState) (name : List Char) (memory : Bool) :
    (Status × Option Nat) × TtyState :=
  let id := nextPtyId s
  match (List.range maxPtys).find? fun i => !(s.ptys i).used with
  | none => ((.noMemory, none), s)
  | some i =>
    let record : PtyRecord :=
      { id := id, name := (if name = [] then "pty".toList else name).take 31
        slaveName := ptsName id, used := true }
    let (slave, t) := ensureTty (setPty s i record) (ptsName id)
    match slave with
    | none => ((.noMemory, none), setPty t i {})
    | some j =>
      if memory then ((.ok, some i), setPtyId t j id)
      else ((.noMemory, none), setPty (setPtyId t j 0) i {})

def radPtyClose (s : TtyState) (i : Nat) : TtyState :=
  match findPty s i with
  | none => s
  | some i =>
    let t :=
      match findTty s (s.ptys i).slaveName with
      | none => s
      | some j => setPtyId s j 0
    setPty t i {}

/-- The record of the slave of a pty. -/
def slaveTty (s : TtyState) (i : Nat) : Option Nat :=
  (findPty s i).bind fun i => findTty s (s.ptys i).slaveName

def radPtyReadMaster (s : TtyState) (i size : Nat) : (Status × List UInt8) × TtyState :=
  match findPty s i with
  | none => ((.invalidArgument, []), s)
  | some i =>
    let pty := s.ptys i
    ((.ok, pty.master.take size), setPty s i { pty with master := pty.master.drop size })

def radPtyWriteMaster (s : TtyState) (i : Nat) (bytes : List UInt8) : Status × TtyState :=
  match slaveTty s i with
  | none => (.invalidArgument, s)
  | some j => (.ok, ttyPushInputRecord s j bytes)

def radPtyReadSlave (s : TtyState) (i size : Nat) : (Status × List UInt8) × TtyState :=
  match slaveTty s i with
  | none => ((.invalidArgument, []), s)
  | some j =>
    let (bytes, s) := ttyReadRecord s j size
    ((.ok, bytes), s)

def radPtyWriteSlave (s : TtyState) (i : Nat) (bytes : List UInt8) : Status × TtyState :=
  match slaveTty s i with
  | none => (.invalidArgument, s)
  | some j => (.ok, ttyWriteRecord s j bytes)

/-- The calls on ptys, and those on terminals. -/
inductive Call where
  | openPair (name : List Char) (memory : Bool)
  | close (pty : Nat)
  | writeMaster (pty : Nat) (bytes : List UInt8)
  | writeSlave (pty : Nat) (bytes : List UInt8)
  | readMaster (pty size : Nat)
  | readSlave (pty size : Nat)
  | readTty (tty size : Nat)
  | setTermios (tty : Nat) (termios : Termios)
  deriving DecidableEq, Repr

def Call.perform (s : TtyState) : Call → TtyState
  | openPair name memory => (radPtyOpenPair s name memory).2
  | close pty => radPtyClose s pty
  | writeMaster pty bytes => (radPtyWriteMaster s pty bytes).2
  | writeSlave pty bytes => (radPtyWriteSlave s pty bytes).2
  | readMaster pty size => (radPtyReadMaster s pty size).2
  | readSlave pty size => (radPtyReadSlave s pty size).2
  | readTty tty size => (radTtyRead s tty size).2
  | setTermios tty termios => (radTtySetTermios s tty termios).2

/-- The terminals that are registered at start-up. -/
def boot (names : List (List Char)) : TtyState := names.foldl (fun s name => (ensureTty s name).2) {}

end RadKernel.Tty
