import RadKernel.Fd.Calls

/-!
# Descriptors of other processes

What a process sees of the descriptor table: the slot each of its numbers leads to, the
object behind it and the flags of the descriptor. A number leads to the process's own
descriptor or, failing that, to the global one of that number.
-/

namespace RadKernel.Fd

open Kernel

variable {s t : KernelState} {fds : Nat → FdRecord} {slack slack' : Nat → Int} {i j k o fd : Nat}
  {n pid : Int}

/-- The object a descriptor number of `pid` leads to. -/
def objectOf (fds : Nat → FdRecord) (n pid : Int) : Option FdObject :=
  (lookupFdRecord fds n pid).map FdRecord.toFdObject

/-- Two states look the same to a process. -/
structure Isolated (s t : KernelState) (pid : Int) : Prop where
  slot : ∀ n, findFdSlot t.fds n pid true = findFdSlot s.fds n pid true
  object : ∀ n, objectOf t.fds n pid = objectOf s.fds n pid
  flags : ∀ n i, findFdSlot s.fds n pid true = some i →
    (t.fds i).descriptorFlags = (s.fds i).descriptorFlags

theorem Isolated.refl (s : KernelState) (pid : Int) : Isolated s s pid :=
  ⟨fun _ => rfl, fun _ => rfl, fun _ _ _ => rfl⟩

section
variable (hs : Table slack s.fds) (ht : Table slack' t.fds)
include hs ht

end

theorem Isolated.trans {u : KernelState} (h : Isolated s t pid) (h' : Isolated t u pid) :
    Isolated s u pid := by
  refine ⟨fun n => (h'.slot n).trans (h.slot n), fun n => (h'.object n).trans (h.object n), ?_⟩
  intro n i hi
  rw [h'.flags n i (by rw [h.slot, hi]), h.flags n i hi]

/-- The call works on nothing that process `q` sees: the slot it closes or flags is not one
that `q` finds under that number, and a duplicate does not become a global descriptor that
`q` would find, nor replace the owner of its object. -/
def Private (s : KernelState) (q : Int) : Call → Prop
  | .close p n => ∀ i, findFdSlot s.fds n p true = some i → findFdSlot s.fds n q true ≠ some i
  | .fcntl p n (.setFd argument) => ∀ i, findFdSlot s.fds n p true = some i →
      findFdSlot s.fds n q true ≠ some i ∨ (s.fds i).descriptorFlags = argument &&& 1
  | .dup2 p oldFd newFd => Apart s (.dup2 p oldFd newFd) ∧
      (p ≠ 0 ∨ findFdSlot s.fds newFd q false ≠ none)
  | _ => False

variable {p q : Int}

section
variable (hs : Table slack s.fds)
include hs

end

end RadKernel.Fd
