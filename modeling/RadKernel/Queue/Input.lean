import RadKernel.Lib.Journal
import RadKernel.Lib.Newest
import RadKernel.Lib.Ring
import RadKernel.Lib.Run
import RadKernel.Queue.Model

/-!
# Input queues keep the newest events

Whatever calls are made, an input queue holds the last events that were pushed behind the last
one that was read, and readers get each event at most once, in order.
-/

namespace RadKernel.Queue

open Journal

variable {ε : Type*} {r : InputQueueRecord ε} {pushed returned : List ε} {k : Nat}

/-- The events that wait, oldest first. -/
def pending (r : InputQueueRecord ε) : List ε := Ring.queue r.capacity r.tail r.count r.events

structure Keeps (r : InputQueueRecord ε) (pushed returned : List ε) : Prop where
  tail_lt : r.tail < r.capacity
  count_le : r.count ≤ r.capacity
  head_eq : r.head = (r.tail + r.count) % r.capacity
  newest : Newest r.capacity pushed returned (pending r)

section
variable (h : Keeps r pushed returned)
include h

/-- The oldest event leaves a full queue, the new one comes last. -/
theorem pending_pushEvent (event : ε) :
    pending (pushEvent r event) = (pending r ++ [event]).rtake r.capacity := by
  have hle := h.count_le
  have hlt := h.tail_lt
  by_cases hfull : r.capacity ≤ r.count
  · have hcount : r.count = r.capacity := by omega
    have hhead : r.head = ((r.tail + 1) % r.capacity + (r.count - 1)) % r.capacity := by
      rw [h.head_eq, Nat.mod_add_mod]
      congr 1
      omega
    have hdrop : Ring.queue r.capacity ((r.tail + 1) % r.capacity) (r.count - 1) r.events =
        (pending r).drop 1 := Ring.queue_drop (by omega)
    simp only [pushEvent, if_pos hfull, pending]
    rw [hhead, Ring.queue_snoc (by omega), hdrop, List.rtake, List.drop_append_of_le_length]
    · simp [pending, hcount]
    · simp
      omega
  · simp only [pushEvent, if_neg hfull, pending]
    rw [h.head_eq, Ring.queue_snoc (by omega), List.rtake, List.length_append, Ring.length_queue,
      List.length_singleton, Nat.sub_eq_zero_of_le (by omega), List.drop_zero]

theorem Keeps.pushEvent (event : ε) : Keeps (pushEvent r event) (pushed ++ [event]) returned := by
  have hle := h.count_le
  have hlt := h.tail_lt
  have hcapacity : (Queue.pushEvent r event).capacity = r.capacity := by
    grind [Queue.pushEvent]
  have hnewest := h.newest.push event
  rw [← pending_pushEvent h, ← hcapacity] at hnewest
  refine ⟨?_, ?_, ?_, hnewest⟩
  · have hmod : (r.tail + 1) % r.capacity < r.capacity := Nat.mod_lt _ (by omega)
    grind [Queue.pushEvent]
  · grind [Queue.pushEvent]
  · by_cases hfull : r.capacity ≤ r.count
    · simp only [Queue.pushEvent, if_pos hfull, h.head_eq, Nat.mod_add_mod]
      congr 1
      omega
    · simp only [Queue.pushEvent, if_neg hfull, h.head_eq, Nat.mod_add_mod]
      rfl

theorem Keeps.takeEvent (hcount : r.count ≠ 0) :
    let rest := { r with tail := (r.tail + 1) % r.capacity, count := r.count - 1 }
    pending r = r.events r.tail :: pending rest ∧
      Keeps rest pushed (returned ++ [r.events r.tail]) := by
  have hle := h.count_le
  have hlt := h.tail_lt
  have hcons : pending r = r.events r.tail :: pending
      { r with tail := (r.tail + 1) % r.capacity, count := r.count - 1 } :=
    Ring.queue_eq_cons hlt (Nat.pos_of_ne_zero hcount)
  have hread := h.newest.read (n := 1) (by simp [hcons])
  rw [hcons] at hread
  refine ⟨hcons, Nat.mod_lt _ (by omega), (Nat.sub_le _ _).trans hle, ?_, hread⟩
  dsimp only
  rw [h.head_eq, Nat.mod_add_mod]
  congr 1
  omega

theorem Keeps.takeEvents (room : Nat) :
    (takeEvents room r).1 = (pending r).take room ∧
      Keeps (takeEvents room r).2 pushed (returned ++ (takeEvents room r).1) := by
  induction room generalizing r returned with
  | zero => simpa [Queue.takeEvents] using h
  | succ room ih =>
    unfold Queue.takeEvents
    split
    · next hcount => simpa [pending, hcount] using h
    · next hcount =>
      obtain ⟨hpending, hkeeps⟩ := h.takeEvent hcount
      obtain ⟨hevents, hrest⟩ := ih hkeeps
      dsimp only at hpending hevents ⊢
      refine ⟨?_, by simpa using hrest⟩
      rw [hpending, List.take_succ_cons, hevents]

end

/-! ## The events of each queue -/

theorem waitPass_inputQueues (s : State ε) (index : Nat) (expired : Bool) :
    (waitPass s index expired).2.inputQueues = s.inputQueues := by
  grind [waitPass, setWaitQueue]

theorem wake_inputQueues (s : State ε) (queue : Nat) (signals : UInt64) :
    (wake s queue signals).2.inputQueues = s.inputQueues := by
  grind [wake, setWaitQueue]

/-- The tables and, for each input queue since it was created, the events that were pushed and
those that readers got. -/
structure Journaled (ε : Type*) where
  tables : State ε
  pushed : Nat → List ε := fun _ => []
  returned : Nat → List ε := fun _ => []

variable [Inhabited ε] {w : Journaled ε}

namespace Journaled

def next (w : Journaled ε) : Call ε → Journaled ε
  | .inputCreate capacity =>
    let (result, tables) := radInputQueueCreate w.tables capacity
    { tables := tables
      pushed := forget w.pushed result.2
      returned := forget w.returned result.2 }
  | .push queue event =>
    let (status, tables) := radInputQueuePush w.tables queue event
    let index := w.tables.inputQueueHandles queue
    { w with
      tables := tables
      pushed := extend w.pushed (if status = .ok then some index else none) [event] }
  | .read queue capacity expired =>
    let (result, tables) := radInputQueueRead w.tables queue capacity expired
    { w with
      tables := tables
      returned := extend w.returned (some (w.tables.inputQueueHandles queue)) result.2 }
  | c => { w with tables := (perform w.tables c).2 }

def Sound (w : Journaled ε) : Prop :=
  ∀ k, (w.tables.inputQueues k).used = true →
    Keeps (w.tables.inputQueues k) (w.pushed k) (w.returned k)

omit [Inhabited ε] in
/-- One queue changes, the others stay. -/
theorem Sound.update {tables : State ε} {pushed returned : Nat → List ε} (h : w.Sound)
    (hkeeps : (tables.inputQueues k).used = true → Keeps (tables.inputQueues k) (pushed k) (returned k))
    (hrest : ∀ j, j ≠ k → tables.inputQueues j = w.tables.inputQueues j ∧
      pushed j = w.pushed j ∧ returned j = w.returned j) :
    Sound { tables := tables, pushed := pushed, returned := returned } := by
  intro j hused
  by_cases hj : j = k
  · subst hj
    exact hkeeps hused
  · obtain ⟨hrecord, hpushed, hreturned⟩ := hrest j hj
    dsimp only at hused ⊢
    rw [hrecord] at hused ⊢
    rw [hpushed, hreturned]
    exact h j hused

theorem Sound.create (h : w.Sound) (capacity : Nat) : (w.next (.inputCreate capacity)).Sound := by
  simp only [next, radInputQueueCreate]
  split
  · simpa using h
  · next i _ =>
    refine h.update (k := i) ?_ ?_
    · intro _
      simp only [setInputQueue, Function.update_self, forget_self]
      have hpositive : 0 < (if capacity = 0 ∨ inputQueueEvents < capacity then inputQueueEvents
          else capacity) := by
        grind [inputQueueEvents]
      exact ⟨hpositive, Nat.zero_le _, (Nat.zero_mod _).symm, .empty⟩
    · intro j hj
      simp [setInputQueue, hj, forget_of_ne hj]

theorem Sound.push (h : w.Sound) (queue : Nat) (event : ε) :
    (w.next (.push queue event)).Sound := by
  simp only [next, radInputQueuePush]
  split
  · simpa using h
  · split
    · simpa using h
    · next hused =>
      refine h.update (k := w.tables.inputQueueHandles queue) ?_ ?_
      · intro _
        simpa [setInputQueue] using (h _ (by simpa using hused)).pushEvent event
      · intro j hj
        simp [setInputQueue, hj, extend_of_ne hj]

theorem Sound.read (h : w.Sound) (queue capacity : Nat) (expired : Bool) :
    (w.next (.read queue capacity expired)).Sound := by
  simp only [next, radInputQueueRead]
  split
  · simpa using h
  · split
    · simpa using h
    · next hused =>
      refine h.update (k := w.tables.inputQueueHandles queue) ?_ ?_
      · intro _
        simpa [setInputQueue] using ((h _ (by simpa using hused)).takeEvents capacity).2
      · intro j hj
        simp [setInputQueue, hj, extend_of_ne hj]

theorem Sound.destroy (h : w.Sound) (queue : Nat) : (w.next (.inputDestroy queue)).Sound := by
  simp only [next, perform, radInputQueueDestroy]
  split
  · exact h
  · refine h.update (k := w.tables.inputQueueHandles queue) ?_ ?_
    · intro hused
      simp [setInputQueue, InputQueueRecord.zero] at hused
    · intro j hj
      simp [setInputQueue, hj]

theorem Sound.of_inputQueues {c : Call ε} (h : w.Sound)
    (hsame : (perform w.tables c).2.inputQueues = w.tables.inputQueues) :
    Sound { w with tables := (perform w.tables c).2 } := by
  intro j hused
  rw [hsame] at hused ⊢
  exact h j hused

theorem Sound.next (h : w.Sound) (c : Call ε) : (w.next c).Sound := by
  cases c with
  | inputCreate capacity => exact h.create capacity
  | inputDestroy queue => exact h.destroy queue
  | push queue event => exact h.push queue event
  | read queue capacity expired => exact h.read queue capacity expired
  | waitCreate => exact h.of_inputQueues (by grind [perform, radWaitQueueCreate, setWaitQueue])
  | waitDestroy queue =>
    exact h.of_inputQueues (by grind [perform, radWaitQueueDestroy, setWaitQueue])
  | wait queue expired =>
    exact h.of_inputQueues (by grind [perform, radWaitQueueWait, waitPass_inputQueues])
  | waitOn index expired => exact h.of_inputQueues (waitPass_inputQueues _ _ _)
  | wakeOne queue => exact h.of_inputQueues (wake_inputQueues _ _ _)
  | wakeAll queue => exact h.of_inputQueues (wake_inputQueues _ _ _)

end Journaled

/-- In every run an input queue in use holds the newest events that were pushed and not read,
readers got events at increasing positions, and the next read gets the oldest that wait. -/
theorem newest_of_run (h : Run (Obeys Journaled.next fun _ _ => True) (· = { tables := .zero }) w)
    (k : Nat) (hk : k < maxQueues) (hused : (w.tables.inputQueues k).used = true) :
    Newest (w.tables.inputQueues k).capacity (w.pushed k) (w.returned k)
        (pending (w.tables.inputQueues k)) ∧
      ∀ queue, w.tables.inputQueueHandles queue = k → ∀ capacity expired,
        (radInputQueueRead w.tables queue capacity expired).1.2 =
          (pending (w.tables.inputQueues k)).take capacity := by
  have hsound : w.Sound := by
    apply h.invariant
    · rintro _ rfl j hj
      simp [State.zero, InputQueueRecord.zero] at hj
    · rintro v c _ hv ⟨-, rfl⟩
      exact hv.next c
  refine ⟨(hsound k hused).newest, ?_⟩
  rintro queue rfl capacity expired
  simp only [radInputQueueRead, if_neg (Nat.not_le.2 hk), hused]
  exact ((hsound _ hused).takeEvents capacity).1

/-- Three events on a queue of two, with a read after the second. -/
def pushReadPush : Journaled Nat :=
  [.inputCreate 2, .push 0 10, .push 0 11, .read 0 1 true, .push 0 12, .push 0 13].foldl
    Journaled.next { tables := .zero }

theorem newest_pushReadPush : pushReadPush.pushed 0 = [10, 11, 12, 13] ∧
    pushReadPush.returned 0 = [10] ∧ pending (pushReadPush.tables.inputQueues 0) = [12, 13] ∧
    Newest 2 [10, 11, 12, 13] [10] [12, 13] := by
  have hnewest := newest_of_run (w := pushReadPush) (Run.foldl _ (.start rfl)) 0 (by decide)
    (by decide)
  exact ⟨by decide, by decide, by decide, hnewest.1⟩

end RadKernel.Queue
