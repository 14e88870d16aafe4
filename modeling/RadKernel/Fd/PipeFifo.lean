import RadKernel.Fd.Frame
import RadKernel.Lib.Journal
import RadKernel.Lib.Run

/-!
# Pipes as queues

What is read from a pipe is what was written to it, in order and once, whichever descriptors were
used and whatever other calls were made in between. A pipe lasts from `rad_pipe_create` until its
last descriptor is closed; its record may then become another pipe.
-/

namespace RadKernel.Fd

open Kernel Journal

variable {s t u : KernelState} {i k n : Nat}

/-- The fields of a pipe that are not reference counts. -/
def ring (p : PipeRecord) : (Nat → UInt8) × Nat × Nat × Bool := (p.buffer, p.readPos, p.size, p.used)

/-- Every pipe holds what it held, or is not in use. -/
def PipesKept (s t : KernelState) : Prop :=
  ∀ k, (t.pipes k).used = false ∨ ring (t.pipes k) = ring (s.pipes k)

namespace PipesKept

theorem of_pipes (h : t.pipes = s.pipes) : PipesKept s t := fun k => .inr (by rw [h])

theorem refl (s : KernelState) : PipesKept s s := of_pipes rfl

theorem trans (h : PipesKept s t) (h' : PipesKept t u) : PipesKept s u := by
  intro k
  rcases h' k with hfree | hsame
  · exact .inl hfree
  · rcases h k with hfree | hsame'
    · have hused : (u.pipes k).used = (t.pipes k).used := congrArg (·.2.2.2) hsame
      exact .inl (hused.trans hfree)
    · exact .inr (hsame.trans hsame')

theorem setSocket (h : PipesKept s t) (r : SocketRecord) : PipesKept s (setSocket t i r) :=
  h.trans (of_pipes rfl)

theorem ring_dropPipeRef (p : PipeRecord) (w : Bool) : ring (dropPipeRef p w) = ring p := by
  unfold dropPipeRef
  grind [ring]

theorem closePipeEnd (h : PipesKept s t) (w : Bool) : PipesKept s (closePipeEnd t k w) := by
  unfold Fd.closePipeEnd
  split
  · refine h.trans fun j => ?_
    by_cases hj : j = k
    · subst hj
      simp only [setPipe, Function.update_self]
      split
      · exact .inl rfl
      · exact .inr (ring_dropPipeRef _ w)
    · exact .inr (by simp [setPipe, hj])
  · exact h

theorem clearPipe (h : PipesKept s t) (k : Nat) : PipesKept s (setPipe t k {}) := by
  refine h.trans fun j => ?_
  by_cases hj : j = k
  · exact .inl (by simp [setPipe, hj])
  · exact .inr (by simp [setPipe, hj])

theorem ignores (s : KernelState) : Ignores (PipesKept s) where
  table _ _ h := h.trans (of_pipes rfl)
  handles _ _ h := h.trans (of_pipes rfl)
  pipe _ _ w h := h.closePipeEnd w
  socket := closeSocket_rule (fun _ _ h => h.setSocket _) fun _ _ _ h => h.setSocket _

theorem install (h : PipesKept s t) (caller : Int) (source : FdRecord) (requested : Int) :
    PipesKept s (installFdRecord t caller source requested).2 :=
  (ignores s).install h caller source requested

end PipesKept

theorem PipesKept.ignoresRecords (s : KernelState) : IgnoresRecords (PipesKept s) where
  toIgnores := ignores s
  opened _ _ h := h.trans (of_pipes rfl)
  sockets _ _ h := h.trans (of_pipes rfl)
  processes _ _ h := h.trans (of_pipes rfl)
  objects _ _ _ _ h := h.trans (of_pipes rfl)

theorem PipesKept.openStdioFd (h : PipesKept s t) (fd : Int) : PipesKept s (openStdioFd t fd) := by
  have hopened : PipesKept s { t with opened := t.opened + 1 } := h.trans (.of_pipes rfl)
  exact hopened.install _ _ _

/-- The record a call to `rad_pipe_create` takes. -/
def createdPipe (s : KernelState) : Call → Option Nat
  | .pipe _ => (List.range maxPipes).find? fun i => !(s.pipes i).used
  | _ => none

/-- A call other than `rad_pipe_create`, or one that finds no record. -/
theorem perform_kept {c : Call} (hc : createdPipe s c = none) : PipesKept s (perform s c).2 := by
  refine (PipesKept.ignoresRecords s).perform (.refl s) c fun pid hpipe => ?_
  subst hpipe
  simp only [createdPipe] at hc
  simp only [radPipeCreate, hc]
  exact .refl s

theorem radPipeCreate_kept {pid : Int}
    (hk : (List.range maxPipes).find? (fun i => !(s.pipes i).used) = some k) :
    PipesKept (setPipe s k { used := true, readRefs := 1, writeRefs := 1 })
      (radPipeCreate s pid).2 :=
  (PipesKept.ignores _).survives.radPipeCreate hk (.refl _) fun _ h => h.clearPipe k

theorem pipeRead_cases (s : KernelState) (r : FdRecord) (size : Nat) :
    ((pipeRead s r size).1.2 = [] ∧ (pipeRead s r size).2 = s) ∨
      ((s.pipes r.pipeIndex).used = true ∧ ∃ n ≤ (s.pipes r.pipeIndex).size,
        pipeRead s r size =
          (((n : Int), Ring.peek pipeBufferBytes (s.pipes r.pipeIndex).readPos n
            (s.pipes r.pipeIndex).buffer),
            setPipe s r.pipeIndex
              { s.pipes r.pipeIndex with
                readPos := ((s.pipes r.pipeIndex).readPos + n) % pipeBufferBytes
                size := (s.pipes r.pipeIndex).size - n })) := by
  unfold pipeRead
  split
  · exact .inl ⟨rfl, rfl⟩
  · dsimp only
    split
    · exact .inl ⟨rfl, rfl⟩
    · next hused =>
      generalize hn : (if (s.pipes r.pipeIndex).size < size then (s.pipes r.pipeIndex).size
        else size) = n
      split
      · exact .inl ⟨rfl, rfl⟩
      · exact .inr ⟨by simpa using hused, n, by grind, rfl⟩

theorem pipeWrite_cases (s : KernelState) (r : FdRecord) (bytes : List UInt8) :
    ((pipeWrite s r bytes).1 ≤ 0 ∧ (pipeWrite s r bytes).2 = s) ∨
      ((s.pipes r.pipeIndex).used = true ∧ ∃ n ≤ bytes.length,
        n ≤ pipeBufferBytes - (s.pipes r.pipeIndex).size ∧
        pipeWrite s r bytes =
          ((n : Int), setPipe s r.pipeIndex
            { s.pipes r.pipeIndex with
              buffer := Ring.push pipeBufferBytes
                (((s.pipes r.pipeIndex).readPos + (s.pipes r.pipeIndex).size) % pipeBufferBytes)
                (s.pipes r.pipeIndex).buffer (bytes.take n)
              size := (s.pipes r.pipeIndex).size + n })) := by
  unfold pipeWrite
  split
  · exact .inl ⟨by simp [Status.code], rfl⟩
  · dsimp only
    split
    · exact .inl ⟨by simp [Status.code], rfl⟩
    · split
      · exact .inl ⟨by simp [Status.code], rfl⟩
      · next hused _ =>
        generalize hn : (if pipeBufferBytes - (s.pipes r.pipeIndex).size < bytes.length then
          pipeBufferBytes - (s.pipes r.pipeIndex).size else bytes.length) = n
        split
        · exact .inl ⟨le_rfl, rfl⟩
        · exact .inr ⟨by simpa using hused, n, by grind, by grind, rfl⟩

/-! ## The bytes of each pipe -/

/-- The tables and, for each pipe since it was created, the bytes that were accepted from
writers and those that were returned to readers. -/
structure Piped where
  tables : KernelState
  accepted : Nat → List UInt8 := fun _ => []
  returned : Nat → List UInt8 := fun _ => []

/-- A call of a process; `answer` is what a file or device would give. -/
inductive PipeEvent where
  | call (c : Call)
  | read (pid fd : Int) (size : Nat) (answer : Int × List UInt8)
  | write (pid fd : Int) (bytes : List UInt8) (answer : Int)

/-- The pipe that a descriptor denotes. -/
def pipeOf (s : KernelState) (pid fd : Int) : Option Nat :=
  match lookupFdRecord s.fds fd pid with
  | some r => if r.kind = .pipe then some r.pipeIndex else none
  | none => none

def Piped.next (w : Piped) : PipeEvent → Piped
  | .call c =>
    { tables := (perform w.tables c).2
      accepted := forget w.accepted (createdPipe w.tables c)
      returned := forget w.returned (createdPipe w.tables c) }
  | .read pid fd size answer =>
    let (result, tables) := radFdRead w.tables pid fd size answer
    { w with
      tables := tables
      returned := extend w.returned (pipeOf w.tables pid fd) result.2 }
  | .write pid fd bytes answer =>
    let (result, tables) := radFdWrite w.tables pid fd bytes answer
    { w with
      tables := tables
      accepted := extend w.accepted (pipeOf w.tables pid fd) (bytes.take result.toNat) }

/-- The pipe holds what was accepted and not yet returned. -/
structure Queued (p : PipeRecord) (accepted returned : List UInt8) : Prop where
  readPos_lt : p.readPos < pipeBufferBytes
  size_le : p.size ≤ pipeBufferBytes
  held : accepted = returned ++ Ring.queue pipeBufferBytes p.readPos p.size p.buffer

variable {p : PipeRecord} {accepted returned : List UInt8}

theorem Queued.congr {q : PipeRecord}
    (h : Queued p accepted returned) (hring : ring q = ring p) : Queued q accepted returned := by
  simp only [ring, Prod.mk.injEq] at hring
  obtain ⟨hbuffer, hpos, hsize, -⟩ := hring
  obtain ⟨hlt, hle, hheld⟩ := h
  exact ⟨hpos ▸ hlt, hsize ▸ hle, by rw [hbuffer, hpos, hsize, hheld]⟩

theorem Queued.fresh : Queued { used := true, readRefs := 1, writeRefs := 1 } [] [] where
  readPos_lt := by decide
  size_le := Nat.zero_le _
  held := rfl

def Piped.Sound (w : Piped) : Prop :=
  ∀ k, (w.tables.pipes k).used = true → Queued (w.tables.pipes k) (w.accepted k) (w.returned k)

/-- What is read is the front of what the pipe holds. -/
theorem Queued.read (h : Queued p accepted returned) (hn : n ≤ p.size) :
    Queued
      { p with
        readPos := (p.readPos + n) % pipeBufferBytes
        size := p.size - n }
      accepted (returned ++ Ring.peek pipeBufferBytes p.readPos n p.buffer) where
  readPos_lt := Nat.mod_lt _ (by decide)
  size_le := (Nat.sub_le _ _).trans h.size_le
  held := by
    rw [Ring.peek_eq h.readPos_lt hn h.size_le, Ring.queue_drop hn, List.append_assoc,
      List.take_append_drop]
    exact h.held

theorem Queued.write
    (h : Queued p accepted returned) (bytes : List UInt8) (hfit : p.size + bytes.length ≤ pipeBufferBytes) :
    Queued
      { p with
        buffer := Ring.push pipeBufferBytes ((p.readPos + p.size) % pipeBufferBytes) p.buffer bytes
        size := p.size + bytes.length }
      (accepted ++ bytes) returned where
  readPos_lt := h.readPos_lt
  size_le := hfit
  held := by
    rw [Ring.queue_push h.readPos_lt hfit, h.held, List.append_assoc]

namespace Piped

variable {w : Piped}

section
variable (h : w.Sound)
include h

/-- A pipe that is written or read, among others that stay. -/
theorem Sound.setPipe {accepted returned : Nat → List UInt8}
    (hk : Queued p (accepted k) (returned k))
    (hrest : ∀ j, j ≠ k → accepted j = w.accepted j ∧ returned j = w.returned j) :
    Sound { tables := setPipe w.tables k p, accepted := accepted, returned := returned } := by
  intro j hused
  by_cases hj : j = k
  · subst hj
    simpa [Fd.setPipe] using hk
  · have hsame : (Fd.setPipe w.tables k p).pipes j = w.tables.pipes j := by
      simp [Fd.setPipe, hj]
    obtain ⟨ha, hr⟩ := hrest j hj
    dsimp only at hused ⊢
    rw [hsame] at hused ⊢
    rw [ha, hr]
    exact h j hused

theorem Sound.pipeRead (r : FdRecord) (size : Nat) :
    Sound { w with
      tables := (pipeRead w.tables r size).2
      returned := extend w.returned (some r.pipeIndex) (pipeRead w.tables r size).1.2 } := by
  obtain ⟨hbytes, hsame⟩ | ⟨hused, n, hn, hread⟩ := pipeRead_cases w.tables r size
  · rw [hbytes, hsame, extend_nil]
    exact h
  · rw [hread]
    apply h.setPipe
    · simpa using (h _ hused).read hn
    · intro j hj
      exact ⟨rfl, extend_of_ne hj _⟩

theorem Sound.pipeWrite (r : FdRecord) (bytes : List UInt8) :
    Sound { w with
      tables := (pipeWrite w.tables r bytes).2
      accepted := extend w.accepted (some r.pipeIndex)
        (bytes.take (pipeWrite w.tables r bytes).1.toNat) } := by
  obtain ⟨hcode, hsame⟩ | ⟨hused, n, hn, hfit, hwrite⟩ := pipeWrite_cases w.tables r bytes
  · rw [Int.toNat_of_nonpos hcode, hsame, List.take_zero, extend_nil]
    exact h
  · have hsize := (h _ hused).size_le
    have hlen : (bytes.take n).length = n := List.length_take_of_le hn
    rw [hwrite, Int.toNat_natCast]
    apply h.setPipe
    · have hqueued := (h _ hused).write (bytes.take n) (by omega)
      simpa [hlen] using hqueued
    · intro j hj
      exact ⟨extend_of_ne hj _, rfl⟩

theorem Sound.kept (hk : PipesKept w.tables t) : Sound { w with tables := t } := by
  intro j hused
  rcases hk j with hfree | hsame
  · exact absurd hused (by simp [hfree])
  · have hbefore : (w.tables.pipes j).used = true := (congrArg (·.2.2.2) hsame).symm.trans hused
    exact (h j hbefore).congr hsame

theorem Sound.call (c : Call) : Sound (w.next (.call c)) := by
  cases hc : createdPipe w.tables c with
  | none => simpa [next, hc] using h.kept (perform_kept hc)
  | some k =>
    cases c with
    | pipe pid =>
      have hnew : Sound
          { tables := Fd.setPipe w.tables k { used := true, readRefs := 1, writeRefs := 1 }
            accepted := forget w.accepted (some k)
            returned := forget w.returned (some k) } := by
        apply h.setPipe
        · simpa using Queued.fresh
        · intro j hj
          exact ⟨forget_of_ne hj, forget_of_ne hj⟩
      simp only [next, hc]
      exact hnew.kept (radPipeCreate_kept hc)
    | _ => simp [createdPipe] at hc

theorem Sound.read (pid fd : Int) (size : Nat) (answer : Int × List UInt8) :
    Sound (w.next (.read pid fd size answer)) := by
  cases hr : lookupFdRecord w.tables.fds fd pid with
  | none => simpa [next, radFdRead, pipeOf, hr] using h
  | some r =>
    by_cases hpipe : r.kind = .pipe
    · simpa [next, radFdRead, pipeOf, hr, hpipe] using h.pipeRead r size
    · have hsame : (radFdRead w.tables pid fd size answer).2 = w.tables := by
        grind [radFdRead]
      simpa [next, pipeOf, hr, hpipe, hsame] using h

theorem Sound.write (pid fd : Int) (bytes : List UInt8) (answer : Int) :
    Sound (w.next (.write pid fd bytes answer)) := by
  cases hr : lookupFdRecord w.tables.fds fd pid with
  | none => simpa [next, radFdWrite, pipeOf, hr] using h
  | some r =>
    by_cases hpipe : r.kind = .pipe
    · simpa [next, radFdWrite, pipeOf, hr, hpipe] using h.pipeWrite r bytes
    · have hsame : (radFdWrite w.tables pid fd bytes answer).2 = w.tables := by
        grind [radFdWrite]
      simpa [next, pipeOf, hr, hpipe, hsame] using h

theorem Sound.next (e : PipeEvent) : (w.next e).Sound := by
  cases e with
  | call c => exact h.call c
  | read pid fd size answer => exact h.read pid fd size answer
  | write pid fd bytes answer => exact h.write pid fd bytes answer

end

theorem sound_boot (console : Bool) (processes : Nat → ProcessRecord) :
    Sound { tables := boot console processes } := by
  have hstart : PipesKept { processes := processes } (boot console processes) := by
    unfold boot
    split
    · exact (((PipesKept.refl _).openStdioFd 0).openStdioFd 1).openStdioFd 2
    · exact .refl _
  have hempty : Sound { tables := { processes := processes } } := fun k hused => by
    simp at hused
  exact hempty.kept hstart

/-- The pipe `k` is a bounded queue: readers get what writers gave, and a write through any
descriptor of its write end takes as much as there is room for while a reader is left. -/
structure Fifo (w : Piped) (k : Nat) : Prop where
  in_order : w.returned k <+: w.accepted k
  buffered : (w.accepted k).length = (w.returned k).length + (w.tables.pipes k).size
  size_le : (w.tables.pipes k).size ≤ pipeBufferBytes
  readPos_lt : (w.tables.pipes k).readPos < pipeBufferBytes
  accepts : ∀ pid fd bytes answer r, lookupFdRecord w.tables.fds fd pid = some r →
    r.kind = .pipe → r.pipeIndex = k → r.pipeWriteEnd = true →
    (radFdWrite w.tables pid fd bytes answer).1 =
      if 0 < (w.tables.pipes k).readRefs then
        ((min bytes.length (pipeBufferBytes - (w.tables.pipes k).size) : Nat) : Int)
      else Status.notFound.code

theorem Sound.fifo (h : w.Sound) (hk : k < maxPipes) (hused : (w.tables.pipes k).used = true) :
    w.Fifo k where
  in_order := ⟨_, (h k hused).held.symm⟩
  buffered := by simp [(h k hused).held]
  size_le := (h k hused).size_le
  readPos_lt := (h k hused).readPos_lt
  accepts := by
    rintro pid fd bytes answer r hr hpipe rfl hwrite
    simp only [radFdWrite, hr, hpipe, Fd.pipeWrite, hwrite, hused]
    grind

end Piped

/-- The tables at boot; nothing went through a pipe yet. -/
def Piped.Boot (w : Piped) : Prop := ∃ console processes, w = { tables := boot console processes }

/-- In every run of calls, reads and writes every pipe in use is a queue. -/
theorem fifo_of_run {w : Piped} (h : Run (Obeys Piped.next fun _ _ => True) Piped.Boot w)
    (k : Nat) (hk : k < maxPipes) (hused : (w.tables.pipes k).used = true) : w.Fifo k := by
  have hsound : w.Sound := by
    apply h.invariant
    · rintro _ ⟨console, processes, rfl⟩
      exact Piped.sound_boot console processes
    · rintro s e _ hs ⟨-, rfl⟩
      exact hs.next e
  exact hsound.fifo hk hused

/-- Three bytes go in through the write end and its copy, one comes out. -/
def dupWrite : List PipeEvent :=
  [.call (.pipe 1), .call (.dup 1 4), .write 1 4 [1, 2] 0, .write 1 5 [3] 0, .read 1 3 1 (0, [])]

theorem fifo_dupWrite :
    let w := dupWrite.foldl Piped.next { tables := boot false fun _ => {} }
    w.Fifo 0 ∧ w.accepted 0 = [1, 2, 3] ∧ w.returned 0 = [1] := by
  refine ⟨fifo_of_run ?_ 0 (by decide) (by decide), by decide, by decide⟩
  exact (Run.start ⟨false, fun _ => {}, rfl⟩).foldl dupWrite

end RadKernel.Fd
