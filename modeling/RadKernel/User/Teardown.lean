import RadKernel.User.Processes

/-!
# The end of a process on several cores

The record of a process can be reaped as soon as the process has called `exit` or was killed. Its
task may be on a core then, with the address space loaded, or have pieces of `user_process_task`
before it.
-/

namespace RadKernel.User

open Kernel Fd Process

variable {s : Machine} {c c' t i : Nat}

/-- A task is not brought back between leaving its address space and destroying it, nor while another
core has the address space loaded; a process is reaped after its task. -/
def Orderly (s : Machine) : Action → Prop
  | .dispatch c t => ∀ x ∈ (s.users (s.tasks t).user).space,
      ((s.tasks t).point.Away →
        (s.users (s.tasks t).user).contextPid = 0 ∧ (s.cores c).space ≠ some x) ∧
      ∀ c' < maxCores, c' ≠ c → (s.cores c').space ≠ some x
  | .waitpid c pid => ∀ i ∈ nextReaped s.kernel (s.cores c).pid pid, s.Unused i
  | _ => True

instance (s : Machine) (c : Nat) : Decidable (s.InProcess c) :=
  inferInstanceAs (Decidable (∃ t ∈ (s.cores c).task, _ ∨ _))

instance (s : Machine) (i : Nat) : Decidable (s.Unused i) :=
  inferInstanceAs (Decidable (∀ t ∈ s.attached i, (_ ∨ _) ∧ _ ∧ ∀ x ∈ _, ∀ c < maxCores, _ → _))

instance (s : Machine) : ∀ a : Action, Decidable (Orderly s a)
  | .dispatch c t => inferInstanceAs (Decidable (∀ x ∈ (s.users (s.tasks t).user).space,
      ((s.tasks t).point.Away →
        (s.users (s.tasks t).user).contextPid = 0 ∧ (s.cores c).space ≠ some x) ∧
      ∀ c' < maxCores, c' ≠ c → (s.cores c').space ≠ some x))
  | .waitpid c pid =>
    inferInstanceAs (Decidable (∀ i ∈ nextReaped s.kernel (s.cores c).pid pid, s.Unused i))
  | .leave _ | .dispatchKernel _ _ | .advance _ _ _ | .exit _ _ | .execve _ | .fork _ _ | .spawn _ _ _
  | .kill _ _ _ => isTrue trivial

/-- The kernel just started, and there is no user process. -/
def Booted (s : Machine) : Prop := ∃ kernel, Process.Booted kernel ∧ s = { kernel }

namespace Inv

theorem booted (h : Booted s) : Inv s := by
  obtain ⟨kernel, hkernel, rfl⟩ := h
  have htree := booted_tree hkernel
  refine
    { range := htree.nextPid, distinct := htree.distinct, unattached := fun _ _ _ => rfl
      owner := ?_, waiting := ?_, ended := ?_, attach := ?_, onCore := ?_, single := ?_, bound := ?_
      unique := ?_, coreBound := ?_, safe := ?_ }
  all_goals simp

theorem perform (h : Inv s) (a : Action) (hcore : a.core < maxCores) (ha : Orderly s a) :
    Inv (s.perform a) := by
  cases a with
  | dispatch c t =>
    simp only [Machine.perform]
    split_ifs with hready
    · obtain ⟨hfree, hlt, hrunning, hfinished⟩ := hready
      refine h.dispatch hcore hfree hlt (by simpa using hrunning) (by simpa using hfinished) ?_ ?_
      · exact fun haway x hx => (ha x hx).1 haway
      · exact fun x hx => (ha x hx).2
    · exact h
  | leave c =>
    simp only [Machine.perform]
    cases ht : (s.cores c).task with
    | none => exact h
    | some t => exact h.leave hcore ht
  | dispatchKernel c pid =>
    simp only [Machine.perform]
    split_ifs with hfree
    · exact h.setCoreFree _ rfl (.inr rfl)
    · exact h
  | advance c path answer =>
    simp only [Machine.perform]
    cases ht : (s.cores c).task with
    | none => exact h
    | some t =>
      by_cases hclearing : (s.tasks t).point = .clearing
      · exact h.clear hcore ht hclearing path answer
      · exact h.advance hcore ht hclearing path answer
  | exit c code =>
    simp only [Machine.perform]
    cases hu : s.userTask c with
    | none => exact h
    | some t =>
      obtain ⟨ht, hpoint⟩ := Option.filter_eq_some_iff.1 hu
      exact h.exit hcore ht (by simpa using hpoint) code
  | execve c =>
    simp only [Machine.perform]
    cases hu : s.userTask c with
    | none => exact h
    | some t =>
      obtain ⟨ht, hpoint⟩ := Option.filter_eq_some_iff.1 hu
      exact h.execve hcore ht (by simpa using hpoint)
  | fork c path =>
    simp only [Machine.perform]
    split_ifs with hsome
    · obtain ⟨t, hu⟩ := Option.isSome_iff_exists.1 hsome
      obtain ⟨ht, hpoint⟩ := Option.filter_eq_some_iff.1 hu
      exact h.fork hcore ht (by simpa using hpoint) path
    · exact h
  | spawn c parentPid path =>
    simp only [Machine.perform]
    split_ifs with hfree
    · exact h.spawn hfree parentPid path
    · exact h
  | kill c pid signal =>
    simp only [Machine.perform]
    split_ifs
    · exact h.kill c pid signal
    · exact h
  | waitpid c pid =>
    simp only [Machine.perform]
    split_ifs with hcall
    · exact h.waitpid hcore hcall pid ha
    · exact h

theorem next (h : Inv s) (a : Action) (ha : Orderly s a) : Inv (s.next a) := by
  unfold Machine.next
  split_ifs with hcore
  · exact h.perform a hcore ha
  · exact h

end Inv

/-- In every run of orderly steps no address space is destroyed that a core has loaded, and no task
clears the slot or writes the state of the process of another task. -/
theorem safe_of_run (h : Run (Obeys Machine.next Orderly) Booted s) : ∀ e ∈ s.log, e.Safe := by
  have hinv : Inv s := by
    refine h.invariant (fun _ => Inv.booted) ?_
    rintro s a _ hs ⟨ha, rfl⟩
    exact hs.next a ha
  exact hinv.safe

def bootMachine : Machine := { kernel := bootKernel }

/-- The first process begins a child, the child exits and its task comes to its end, and the first
process reaps it. -/
def childReaped : List Action :=
  [.spawn 0 0 "/bin/init".toList, .dispatch 0 0, .advance 0 [] .failed, .fork 0 "/bin/sh".toList,
    .dispatch 1 1, .advance 1 [] .failed, .exit 1 0, .advance 1 [] .failed, .advance 1 [] .failed,
    .advance 1 [] .failed, .advance 1 [] .failed, .advance 1 [] .failed, .advance 1 [] .failed,
    .advance 1 [] .failed, .waitpid 0 2]

theorem safe_childReaped : (childReaped.foldl Machine.next bootMachine).log ≠ [] ∧
    ∀ e ∈ (childReaped.foldl Machine.next bootMachine).log, e.Safe :=
  ⟨by decide +kernel,
    safe_of_run (.along childReaped (.start ⟨bootKernel, ⟨rfl, rfl⟩, rfl⟩) (by decide +kernel))⟩

instance : ∀ e : Event, Decidable e.Safe
  | .destroyed space loaded =>
    inferInstanceAs (Decidable (∀ c < maxCores, loaded c ≠ some space))
  | .cleared task owner | .stateSet task owner =>
    inferInstanceAs (Decidable (owner = none ∨ owner = some task))

/-- The child has called `exit` on another core, where its task goes on after the first process has
reaped it and begun a new process in its slot. -/
theorem not_safe_reaped_early :
    ¬∀ s, Run (Obeys Machine.next fun _ _ => True) Booted s → ∀ e ∈ s.log, e.Safe := by
  intro h
  have hsafe := h _ (.along [.spawn 0 0 "/bin/init".toList, .dispatch 0 0,
    .advance 0 [] .failed, .fork 0 "/bin/sh".toList, .dispatch 1 1, .advance 1 [] .failed, .exit 1 0,
    .waitpid 0 2, .fork 0 "/bin/ls".toList, .advance 1 [] .failed, .advance 1 [] .failed,
    .advance 1 [] .failed, .advance 1 [] .failed, .advance 1 [] .failed, .advance 1 [] .failed,
    .advance 1 [] .failed] (.start ⟨bootKernel, ⟨rfl, rfl⟩, rfl⟩) (by simp [Along]))
  revert hsafe
  decide +kernel

end RadKernel.User
