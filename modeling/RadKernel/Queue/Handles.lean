import RadKernel.Lib.Handles
import RadKernel.Queue.Input

/-!
# Stale queue handles

Destroying a queue clears its handle, so the handle then leads to the record 0 of its table. A
call through a stale handle is refused exactly when that record is not in use; otherwise it
works on the queue there.
-/

namespace RadKernel.Queue

variable {ε : Type*} [Inhabited ε] {s : State ε}

/-- What holds of both tables in every reached state. -/
structure Tidy (s : State ε) : Prop where
  input : Handles.Tidy InputQueueRecord.used .zero maxQueues s.inputQueues s.inputQueueHandles
  wait : Handles.Tidy WaitQueueRecord.used {} maxQueues s.waitQueues s.waitQueueHandles

namespace Tidy

theorem zero : Tidy ((.zero : State ε)) := ⟨.start rfl, .start rfl⟩

variable {i : Nat}

theorem of_find {p : Nat → Bool} (h : (List.range maxQueues).find? p = some i) : i < maxQueues :=
  List.mem_range.1 (List.mem_of_find?_eq_some h)

section
variable (h : Tidy s)
include h

theorem inputCreate (capacity : Nat) : Tidy (radInputQueueCreate s capacity).2 := by
  unfold radInputQueueCreate
  dsimp only
  split
  · exact h
  · next hi => exact ⟨h.input.create (of_find hi) rfl, h.wait⟩

theorem waitCreate : Tidy (radWaitQueueCreate s).2 := by
  unfold radWaitQueueCreate
  split
  · exact h
  · next hi => exact ⟨h.input, h.wait.create (of_find hi) rfl⟩

theorem inputDestroy (queue : Nat) : Tidy (radInputQueueDestroy s queue) := by
  unfold radInputQueueDestroy
  dsimp only
  split
  · exact h
  · exact ⟨h.input.destroy rfl _, h.wait⟩

theorem waitDestroy (queue : Nat) : Tidy (radWaitQueueDestroy s queue) := by
  unfold radWaitQueueDestroy
  dsimp only
  split
  · exact h
  · exact ⟨h.input, h.wait.destroy rfl _⟩

theorem setInputQueue {r : InputQueueRecord ε}
    (hi : (s.inputQueues i).used = true) (hr : r.used = true) : Tidy (setInputQueue s i r) :=
  ⟨h.input.write hi hr, h.wait⟩

theorem setWaitQueue {r : WaitQueueRecord}
    (hi : (s.waitQueues i).used = true) (hr : r.used = true) : Tidy (setWaitQueue s i r) :=
  ⟨h.input, h.wait.write hi hr⟩

end

end Tidy

omit [Inhabited ε] in
@[simp] theorem takeEvents_used (room : Nat) (r : InputQueueRecord ε) :
    (takeEvents room r).2.used = r.used := by
  induction room generalizing r with
  | zero => rfl
  | succ room ih =>
    unfold takeEvents
    split
    · rfl
    · exact ih _

omit [Inhabited ε] in
@[simp] theorem pushEvent_used (r : InputQueueRecord ε) (event : ε) :
    (pushEvent r event).used = r.used := by
  grind [pushEvent]

namespace Tidy

section
variable (h : Tidy s)
include h

theorem push (queue : Nat) (event : ε) : Tidy (radInputQueuePush s queue event).2 := by
  unfold radInputQueuePush
  dsimp only
  split_ifs with hlimit hused
  · exact h
  · exact h
  · have hlive : (s.inputQueues (s.inputQueueHandles queue)).used = true := by simpa using hused
    exact h.setInputQueue hlive (by simpa using hlive)

theorem read (queue capacity : Nat) (expired : Bool) :
    Tidy (radInputQueueRead s queue capacity expired).2 := by
  unfold radInputQueueRead
  dsimp only
  split
  · exact h
  · split
    · exact h
    · next hused =>
      have hlive : (s.inputQueues (s.inputQueueHandles queue)).used = true := by simpa using hused
      exact h.setInputQueue hlive (by simpa using hlive)

/-- A record that is not in use has no signals. -/
theorem waitPass (index : Nat) (expired : Bool) : Tidy (waitPass s index expired).2 := by
  unfold Queue.waitPass
  dsimp only
  split
  · next hsignals =>
    have hlive : (s.waitQueues index).used = true := by
      by_contra hfree
      rw [(h.wait.free index (by simpa using hfree)).1] at hsignals
      exact absurd hsignals (by decide)
    exact h.setWaitQueue hlive hlive
  · exact h

theorem wait_call (queue : Nat) (expired : Bool) : Tidy (radWaitQueueWait s queue expired).2 := by
  unfold radWaitQueueWait
  dsimp only
  split_ifs with hlimit hused
  · exact h
  · exact h
  · exact h.waitPass _ _

theorem wake (queue : Nat) (signals : UInt64) : Tidy (wake s queue signals).2 := by
  unfold Queue.wake
  dsimp only
  split_ifs with hlimit hused
  · exact h
  · exact h
  · exact h.setWaitQueue (by simpa using hused) (by simpa using hused)

theorem step (c : Call ε) : Tidy (perform s c).2 := by
  cases c with
  | inputCreate capacity => exact h.inputCreate capacity
  | inputDestroy queue => exact h.inputDestroy queue
  | push queue event => exact h.push queue event
  | read queue capacity expired => exact h.read queue capacity expired
  | waitCreate => exact h.waitCreate
  | waitDestroy queue => exact h.waitDestroy queue
  | wait queue expired => exact h.wait_call queue expired
  | waitOn index expired => exact h.waitPass index expired
  | wakeOne queue => exact h.wake queue _
  | wakeAll queue => exact h.wake queue _

end

end Tidy

/-! ## Calls through handles -/

inductive Handle where
  | input (queue : Nat)
  | wait (queue : Nat)
  deriving DecidableEq

/-- The queue that a cleared handle of the same kind leads to. -/
def Handle.first : Handle → Handle
  | .input _ => .input 0
  | .wait _ => .wait 0

/-- The queue that was created under the handle exists. -/
def State.inUse (s : State ε) : Handle → Bool
  | .input queue => (s.inputQueues queue).used
  | .wait queue => (s.waitQueues queue).used

def Call.handle : Call ε → Option Handle
  | .inputDestroy queue | .push queue _ | .read queue _ _ => some (.input queue)
  | .waitDestroy queue | .wait queue _ | .wakeOne queue | .wakeAll queue => some (.wait queue)
  | .inputCreate _ | .waitCreate | .waitOn _ _ => none

/-- The events that wait in an input queue. -/
def State.events (s : State ε) (k : Nat) : Option (List ε) :=
  if (s.inputQueues k).used then some (pending (s.inputQueues k)) else none

def State.signals (s : State ε) (k : Nat) : Option UInt64 :=
  if (s.waitQueues k).used then some (s.waitQueues k).signals else none

/-- The call returns `RAD_STATUS_INVALID_ARGUMENT`, unless it returns nothing at all. -/
def Refused (s : State ε) : Call ε → Prop
  | .inputDestroy _ | .waitDestroy _ => True
  | c => (perform s c).1 = some .invalidArgument

/-- A call through `x` is refused and leaves the other queues alone. -/
structure Inert (s : State ε) (c : Call ε) (x : Handle) : Prop where
  refused : Refused s c
  events : ∀ k, .input k ≠ x → (perform s c).2.events k = s.events k
  signals : ∀ k, .wait k ≠ x → (perform s c).2.signals k = s.signals k

theorem Inert.of_same {c : Call ε} {x : Handle} (hrefused : Refused s c)
    (hsame : (perform s c).2 = s) : Inert s c x where
  refused := hrefused
  events k _ := by rw [hsame]
  signals k _ := by rw [hsame]

section

variable {queue : Nat}

theorem destroy_input_inert_iff (h : Tidy s) (hstale : (s.inputQueues queue).used = false) :
    Inert s (.inputDestroy queue) (.input queue) ↔ (s.inputQueues 0).used = false := by
  have hhandle := (h.input.free queue hstale).2
  constructor
  · intro hinert
    by_contra hused
    have hne : Handle.input 0 ≠ .input queue := by
      rintro ⟨⟩
      exact hused hstale
    have hevents := hinert.events 0 hne
    simp [perform, radInputQueueDestroy, hhandle, State.events, setInputQueue, maxQueues,
      InputQueueRecord.zero, hused] at hevents
  · intro hfirst
    obtain ⟨hrecords, hhandles⟩ := h.input.destroy_free hfirst
    refine .of_same trivial ?_
    simp [perform, radInputQueueDestroy, hhandle, setInputQueue, maxQueues, hrecords, hhandles]

theorem destroy_wait_inert_iff (h : Tidy s) (hstale : (s.waitQueues queue).used = false) :
    Inert s (.waitDestroy queue) (.wait queue) ↔ (s.waitQueues 0).used = false := by
  have hhandle := (h.wait.free queue hstale).2
  constructor
  · intro hinert
    by_contra hused
    have hne : Handle.wait 0 ≠ .wait queue := by
      rintro ⟨⟩
      exact hused hstale
    have hsignals := hinert.signals 0 hne
    simp [perform, radWaitQueueDestroy, hhandle, State.signals, setWaitQueue, maxQueues,
      hused] at hsignals
  · intro hfirst
    obtain ⟨hrecords, hhandles⟩ := h.wait.destroy_free hfirst
    refine .of_same trivial ?_
    simp [perform, radWaitQueueDestroy, hhandle, setWaitQueue, maxQueues, hrecords, hhandles]

variable {c : Call ε}

/-- A call that is refused exactly when the first queue is not in use, and then does nothing. -/
theorem inert_iff_of {x : Handle} {first : Bool}
    (hidle : first = false → Refused s c ∧ (perform s c).2 = s)
    (hbusy : first = true → ¬ Refused s c) : Inert s c x ↔ first = false := by
  constructor
  · intro hinert
    by_contra hfirst
    exact hbusy (by simpa using hfirst) hinert.refused
  · intro hfirst
    exact .of_same (hidle hfirst).1 (hidle hfirst).2

theorem input_inert_iff (h : Tidy s) (hc : c.handle = some (.input queue))
    (hstale : (s.inputQueues queue).used = false) :
    Inert s c (.input queue) ↔ (s.inputQueues 0).used = false := by
  have hhandle := (h.input.free queue hstale).2
  cases c with
  | inputDestroy queue =>
    cases hc
    exact destroy_input_inert_iff h hstale
  | push queue event =>
    cases hc
    apply inert_iff_of <;> intro hfirst <;>
      simp [perform, Refused, radInputQueuePush, hhandle, hfirst, maxQueues]
  | read queue capacity expired =>
    cases hc
    apply inert_iff_of <;> intro hfirst
    · simp [perform, Refused, radInputQueueRead, hhandle, hfirst, maxQueues]
    · simp only [Refused, perform, radInputQueueRead, hhandle, hfirst]
      grind [maxQueues]
  | _ => simp [Call.handle] at hc

theorem wait_inert_iff (h : Tidy s) (hc : c.handle = some (.wait queue))
    (hstale : (s.waitQueues queue).used = false) :
    Inert s c (.wait queue) ↔ (s.waitQueues 0).used = false := by
  have hhandle := (h.wait.free queue hstale).2
  cases c with
  | waitDestroy queue =>
    cases hc
    exact destroy_wait_inert_iff h hstale
  | wait queue expired =>
    cases hc
    apply inert_iff_of <;> intro hfirst
    · simp [perform, Refused, radWaitQueueWait, hhandle, hfirst, maxQueues]
    · simp only [Refused, perform, radWaitQueueWait, hhandle, hfirst]
      grind [maxQueues, waitPass]
  | wakeOne queue =>
    cases hc
    apply inert_iff_of <;> intro hfirst <;>
      simp [perform, Refused, radWaitQueueWakeOne, wake, hhandle, hfirst, maxQueues]
  | wakeAll queue =>
    cases hc
    apply inert_iff_of <;> intro hfirst <;>
      simp [perform, Refused, radWaitQueueWakeAll, wake, hhandle, hfirst, maxQueues]
  | _ => simp [Call.handle] at hc

end

/-- The states that calls reach. -/
def Reached (s : State ε) : Prop :=
  Run (Obeys (fun s c => (perform s c).2) fun _ _ => True) (· = State.zero) s

theorem reached_zero : Reached ((.zero : State ε)) := .start rfl

theorem tidy_of_reached (h : Reached s) : Tidy s := by
  apply h.invariant
  · rintro _ rfl
    exact .zero
  · rintro s c _ hs ⟨-, rfl⟩
    exact hs.step c

/-- A call through the handle of a queue that is gone is inert exactly when the first queue of its
kind is not in use. -/
theorem inert_iff_first_free (h : Reached s) (c : Call ε) (x : Handle) (hc : c.handle = some x)
    (hstale : s.inUse x = false) : Inert s c x ↔ s.inUse x.first = false := by
  have htidy := tidy_of_reached h
  cases x with
  | input queue => exact input_inert_iff htidy hc hstale
  | wait queue => exact wait_inert_iff htidy hc hstale

/-- Two input queues are created and the second one is destroyed. -/
def secondDestroyed : State Nat :=
  [.inputCreate 4, .inputCreate 4, .inputDestroy 1].foldl (fun s c => (perform s c).2) .zero

theorem reached_secondDestroyed : Reached secondDestroyed := Run.foldl _ reached_zero

/-- The stale handle leads to the first queue, which takes the event. -/
theorem not_inert_secondDestroyed : ¬ ∀ s : State Nat, Reached s → ∀ (c : Call Nat) (x : Handle),
    c.handle = some x → s.inUse x = false → Inert s c x := by
  intro h
  have hinert := h secondDestroyed reached_secondDestroyed (.push 1 7) (.input 1) rfl (by decide)
  have hstatus : (perform secondDestroyed (.push 1 7)).1 = some .ok := by decide
  exact absurd (hstatus.symm.trans hinert.refused) (by decide)

/-- With the first queue gone as well, the same call is refused. -/
theorem inert_bothDestroyed :
    let s := (perform secondDestroyed (.inputDestroy 0)).2
    s.inUse (.input 1) = false ∧ Inert s (.push 1 7) (.input 1) := by
  have hreached : Reached (perform secondDestroyed (.inputDestroy 0)).2 :=
    reached_secondDestroyed.step ⟨trivial, rfl⟩
  exact ⟨by decide, (inert_iff_first_free hreached _ _ rfl (by decide)).2 (by decide)⟩

end RadKernel.Queue
