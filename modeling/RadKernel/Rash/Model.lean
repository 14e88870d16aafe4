import Mathlib.Logic.Function.Basic

/-!
# Command lines of the shell

A line is a C string without its terminating NUL. The system calls and the commands are parameters:
`runCommand` is `run_command` with the bodies of the built-in commands left open, and with the fork,
`execve` and wait for another program as one step that is given the `dup2` calls of the child.

The calls of `run_command` are kept beside the kernel, in their order.
-/

namespace RadKernel.Rash

abbrev Text := List Char

def maxArgs : Nat := 24

def oRead : Nat := 1
def oWrite : Nat := 2
def oCreate : Nat := 4
def oTruncate : Nat := 8
def oAppend : Nat := 16

/-- A call of `run_command`. -/
structure Run where
  argv : List Text
  outfd : Int
  infd : Int
  deriving DecidableEq, Repr

structure Sys (K : Type) where
  sysOpen (path : Text) (flags : Nat) : K → Int × K
  sysPipe : K → Int × (Int × Int) × K
  sysClose (fd : Int) : K → K
  sysWrite (fd : Int) (text : Text) : K → K
  /-- A command that the shell runs itself, `none` when there is none of that name. It has no status
  when it ends the shell, as `exit` does. -/
  builtin (run : Run) (s : K) : Option (Option Int × K)
  /-- `fork`, the `dup2` calls of the child, `execve` and `waitpid`. -/
  spawn (argv : List Text) (dups : List (Int × Int)) : K → Int × K

variable {K : Type} (sys : Sys K)

/-! ## Words of a line -/

def isSpace (c : Char) : Bool := c = ' ' ∨ c = '\t'
def isBlank (c : Char) : Bool := c = ' ' ∨ c = '\t' ∨ c = '\n' ∨ c = '\r'
def isQuote (c : Char) : Bool := c = Char.ofNat 39 ∨ c = '"'

inductive Redirect where
  | append
  | truncate
  | input
  deriving DecidableEq, Repr

inductive Word where
  | arg (text : Text)
  | redirect (kind : Redirect) (path : Text)
  deriving DecidableEq, Repr

/-- The characters up to the first one that ends them, and what comes after that one. -/
def cut (ends : Char → Bool) (p : Text) : Text × Text :=
  (p.takeWhile fun c => !ends c, (p.dropWhile fun c => !ends c).drop 1)

def parseRedirectPath (p : Text) : Text × Text := cut isBlank (p.dropWhile isSpace)

/-- What a round of `parse_line` reads, and what it leaves. -/
def nextWord (p : Text) : Option (Word × Text) :=
  match p.dropWhile isBlank with
  | [] => none
  | c :: p =>
    if c = '>' then
      match p with
      | '>' :: p => some (.redirect .append (parseRedirectPath p).1, (parseRedirectPath p).2)
      | p => some (.redirect .truncate (parseRedirectPath p).1, (parseRedirectPath p).2)
    else if c = '<' then some (.redirect .input (parseRedirectPath p).1, (parseRedirectPath p).2)
    else if isQuote c then some (.arg (cut (· = c) p).1, (cut (· = c) p).2)
    else some (.arg (cut isBlank (c :: p)).1, (cut isBlank (c :: p)).2)

/-! ## parse_line -/

/-- The arguments of a command, and the two variables for its descriptors. -/
structure Parsed (K : Type) where
  argv : List Text := []
  outfd : Int
  infd : Int
  kernel : K

def Redirect.flags : Redirect → Nat
  | .append => oWrite ||| oCreate ||| oAppend
  | .truncate => oWrite ||| oCreate ||| oTruncate
  | .input => oRead

def Redirect.isInput : Redirect → Bool
  | .input => true
  | _ => false

/-- An argument is added, or a file opened for one of the descriptors. -/
def Parsed.take (parsed : Parsed K) : Word → Parsed K
  | .arg text => { parsed with argv := parsed.argv ++ [text] }
  | .redirect kind path =>
    let (fd, kernel) := sys.sysOpen path kind.flags parsed.kernel
    if fd < 0 then { parsed with kernel }
    else if kind.isInput then { parsed with infd := fd, kernel }
    else { parsed with outfd := fd, kernel }

/-- The loop of `parse_line`; a round reads at least one character. -/
def parseRounds : Nat → Text → Parsed K → Parsed K
  | 0, _, parsed => parsed
  | rounds + 1, p, parsed =>
    if parsed.argv.length < maxArgs - 1 then
      match nextWord p with
      | none => parsed
      | some (word, p) => parseRounds rounds p (parsed.take sys word)
    else parsed

/-- The two descriptors are set before the line is read. -/
def parseLine (line : Text) (parsed : Parsed K) : Parsed K :=
  parseRounds sys (line.length + 1) line { parsed with argv := [], outfd := 1, infd := 0 }

/-! ## Commands -/

/-- The `dup2` calls of the child. -/
def Run.dups (run : Run) : List (Int × Int) :=
  (if run.infd ≠ 0 then [(run.infd, 0)] else []) ++ if run.outfd ≠ 1 then [(run.outfd, 1)] else []

def runCommand (run : Run) (s : K) : Option Int × K :=
  if run.argv = [] then (some 0, s)
  else
    match sys.builtin run s with
    | some answer => answer
    | none =>
      let (status, s) := sys.spawn run.argv run.dups s
      (some status, s)

structure Shell (K : Type) where
  kernel : K
  runs : List Run := []

def Shell.close (s : Shell K) (fd : Int) : Shell K := { s with kernel := sys.sysClose fd s.kernel }

def Shell.closeIf (s : Shell K) (p : Prop) [Decidable p] (fd : Int) : Shell K :=
  if p then s.close sys fd else s

/-- `parse_line` and `run_command`, with what the two descriptors are set to before. -/
def parseAndRun (text : Text) (outfd infd : Int) (s : Shell K) : Option Int × Run × Shell K :=
  let parsed := parseLine sys text { outfd, infd, kernel := s.kernel }
  let run := { argv := parsed.argv, outfd := parsed.outfd, infd := parsed.infd }
  let (status, kernel) := runCommand sys run parsed.kernel
  (status, run, { kernel, runs := s.runs ++ [run] })

/-! ## execute_line -/

/-- The search of `find_pipeline_separator` over the characters still to come. -/
def separatorFrom (i : Nat) : Option Char → Text → Option Nat
  | _, [] => none
  | some quote, c :: p => separatorFrom (i + 1) (if c = quote then none else some quote) p
  | none, c :: p =>
    if isQuote c then separatorFrom (i + 1) (some c) p
    else if c = '|' then some i
    else separatorFrom (i + 1) none p

def findPipelineSeparator (line : Text) : Option Nat := separatorFrom 0 none line

def markerFd (text : Text) (s : Shell K) : Shell K :=
  { s with kernel := sys.sysWrite 1 ['\n'] (sys.sysWrite 1 text s.kernel) }

/-- A line without a pipeline; there is no status when the shell has ended. -/
def runAlone (text : Text) (s : Shell K) : Option Int × Shell K :=
  match parseAndRun sys text 1 0 s with
  | (none, _, s) => (none, s)
  | (some status, run, s) =>
    (some status, (s.closeIf sys (run.infd ≠ 0) run.infd).closeIf sys (run.outfd ≠ 1) run.outfd)

/-- The left side of a pipeline, and the descriptors that are closed after it. -/
def runLeft (text : Text) (writeEnd : Int) (s : Shell K) : Option Int × Shell K :=
  match parseAndRun sys text writeEnd 0 s with
  | (none, _, s) => (none, s)
  | (some status, run, s) =>
    let s := s.closeIf sys (run.infd ≠ 0) run.infd
    let s := s.closeIf sys (run.outfd ≠ writeEnd ∧ run.outfd ≠ 1) run.outfd
    (some status, s.close sys writeEnd)

def runRight (text : Text) (readEnd : Int) (s : Shell K) : Option Int × Shell K :=
  match parseAndRun sys text 1 readEnd s with
  | (none, _, s) => (none, s)
  | (some status, run, s) =>
    let s := s.closeIf sys (run.infd ≠ readEnd ∧ run.infd ≠ 0) run.infd
    let s := s.closeIf sys (run.outfd ≠ 1) run.outfd
    (some status, markerFd sys "RAD_RASH_PIPE_OK".toList (s.close sys readEnd))

def executeLine (line : Text) (s : Shell K) : Option Int × Shell K :=
  match findPipelineSeparator line with
  | none => runAlone sys line s
  | some n =>
    let (pipeStatus, (readEnd, writeEnd), kernel) := sys.sysPipe s.kernel
    let s := { s with kernel }
    if pipeStatus < 0 then (some pipeStatus, s)
    else
      match runLeft sys (line.take n) writeEnd s with
      | (none, s) => (none, s)
      | (some status, s) =>
        if status < 0 then (some status, s.close sys readEnd)
        else runRight sys (line.drop (n + 1)) readEnd s

end RadKernel.Rash
