import RadKernel.Kernel.State

/-!
# The kernel log

`rad_log_write`, `rad_log_read` and the two loops that read the log page by page, `cmd_dmesg` and
`rad_log_flush_to_path`, of `core/RADKernel_runtime.cpp`. The log is a ring of records that are
found by their sequence number, which counts the entries from 1. Pointers that callers pass are
not null, and a text is the characters before its terminator.

The time of an entry and the answers of the file system are arguments.
-/

namespace RadKernel.Log

/-- `RAD_KERNEL_MAX_LOG_ENTRIES`. -/
def maxLogEntries : Nat := 256

def logCategoryMax : Nat := 32

def logMessageMax : Nat := 192

/-- The entries that a page of the two loops has room for. -/
def pageEntries : Nat := 16

/-- The array that a line is put together in. -/
def lineBytes : Nat := 320

inductive LogLevel where
  | trace
  | debug
  | info
  | warning
  | error
  | critical
  deriving DecidableEq, Repr

structure LogEntry where
  sequence : Nat
  timeMillis : Nat
  level : LogLevel
  category : List Char
  message : List Char
  deriving DecidableEq, Repr

structure LogRecord where
  entry : LogEntry := ⟨0, 0, .trace, [], []⟩
  used : Bool := false
  deriving DecidableEq, Repr

structure LogState where
  logs : Nat → LogRecord := fun _ => {}
  nextLogSequence : Nat := 0

def copyString (size : Nat) (s : List Char) : List Char := s.take (size - 1)

/-- `rad_log_write`; an empty category stands for a missing one, too. -/
def radLogWrite (s : LogState) (now : Nat) (level : LogLevel) (category message : List Char) :
    LogState :=
  let sequence := s.nextLogSequence + 1
  let entry : LogEntry :=
    { sequence := sequence
      timeMillis := now
      level := level
      category := copyString logCategoryMax (if category ≠ [] then category else "kernel".toList)
      message := copyString logMessageMax message }
  { logs := Function.update s.logs (sequence % maxLogEntries) { entry := entry, used := true }
    nextLogSequence := sequence }

/-- One turn of the loop of `rad_log_read`: the count, and the entries copied out. -/
def readStep (s : LogState) (capacity afterSequence : Nat) (out : Nat × List LogEntry)
    (sequence : Nat) : Nat × List LogEntry :=
  let (count, entries) := out
  let record := s.logs (sequence % maxLogEntries)
  if !record.used ∨ record.entry.sequence ≠ sequence ∨ sequence ≤ afterSequence then out
  else (count + 1, if count < capacity then entries ++ [record.entry] else entries)

/-- `rad_log_read`: the count it returns, and the entries it copies. -/
def radLogRead (s : LogState) (capacity afterSequence : Nat) : Nat × List LogEntry :=
  let next := s.nextLogSequence
  let first := if maxLogEntries < next then next - maxLogEntries + 1 else 1
  (List.range' first (next + 1 - first)).foldl (readStep s capacity afterSequence) (0, [])

/-! ## Lines -/

def radLogLevelName : LogLevel → List Char
  | .trace => "TRACE".toList
  | .debug => "DEBUG".toList
  | .info => "INFO".toList
  | .warning => "WARNING".toList
  | .error => "ERROR".toList
  | .critical => "CRITICAL".toList

def appendChar (line : List Char) (ch : Char) : List Char :=
  if lineBytes ≤ line.length + 1 then line else line ++ [ch]

def appendText (line text : List Char) : List Char := text.foldl appendChar line

def appendU64 (line : List Char) (value : Nat) : List Char :=
  appendText line (Nat.toDigits 10 value)

def entryLine (e : LogEntry) : List Char :=
  let line := appendU64 [] e.timeMillis
  let line := appendText line "ms [".toList
  let line := appendText line (radLogLevelName e.level)
  let line := appendText line "] [".toList
  let line := appendText line e.category
  let line := appendText line "] ".toList
  appendText line e.message

/-! ## Pages -/

section

variable {ε σ : Type}

/-- The inner loop: `emit` handles an entry or ends the command. -/
def emitPage (emit : σ → LogEntry → Except ε σ) : List LogEntry → Nat → σ → Except ε (Nat × σ)
  | [], after, out => .ok (after, out)
  | e :: entries, _, out =>
    match emit out e with
    | .error status => .error status
    | .ok out => emitPage emit entries e.sequence out

/-- The outer loop, with `fuel` turns at most. -/
def emitPages (s : LogState) (emit : σ → LogEntry → Except ε σ) :
    Nat → Nat → σ → Option (Except ε σ)
  | 0, _, _ => none
  | fuel + 1, after, out =>
    let (count, entries) := radLogRead s pageEntries after
    if count = 0 then some (.ok out)
    else
      match emitPage emit entries after out with
      | .error status => some (.error status)
      | .ok (after, out) => emitPages s emit fuel after out

end

/-- What `cmd_dmesg` writes to the terminal for one entry, behind `out`. -/
def dmesgEntry (out : List Char) (e : LogEntry) : Except Status (List Char) :=
  .ok (out ++ entryLine e ++ ['\n'])

/-- `cmd_dmesg`: the status and the output. -/
def cmdDmesg (s : LogState) (fuel : Nat) : Option (Status × List Char) :=
  match emitPages s dmesgEntry fuel 0 [] with
  | none => none
  | some (.error status) => some (status, [])
  | some (.ok out) => some (.ok, out)

/-- The line that goes to a file. -/
def flushLine (e : LogEntry) : List Char :=
  let line := entryLine e
  if line.getLast? ≠ some '\n' then appendChar line '\n' else line

/-- The answer of `rad_vfs_write` to a line, after the lines before it. -/
abbrev WriteAnswer := List (List Char) → List Char → Status × Nat

/-- One line of `rad_log_flush_to_path`. -/
def flushEntry (write : WriteAnswer) (lines : List (List Char)) (e : LogEntry) :
    Except (Status × List (List Char)) (List (List Char)) :=
  let line := flushLine e
  let (status, written) := write lines line
  if status ≠ .ok ∨ written ≠ line.length then
    .error (if status = .ok then .error else status, lines)
  else .ok (lines ++ [line])

/-- `rad_log_flush_to_path`: the status, and the lines the file system took. -/
def radLogFlushToPath (s : LogState) (path : List Char) (opened : Status) (write : WriteAnswer)
    (fuel : Nat) : Option (Status × List (List Char)) :=
  if path = [] then some (.invalidArgument, [])
  else if opened ≠ .ok then some (opened, [])
  else
    match emitPages s (flushEntry write) fuel 0 [] with
    | none => none
    | some (.error result) => some result
    | some (.ok lines) => some (.ok, lines)

end RadKernel.Log
