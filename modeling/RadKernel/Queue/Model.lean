import RadKernel.Kernel.State

/-!
# Input queues and wait queues

The tables of input queues and wait queues of `core/RADKernel_runtime.cpp`. A handle is a cell
of a second table and holds the index of a record; callers keep pointers to such cells, so a
handle is named here by its position. Pointers that callers pass are not null. A blocking call
looks at its queue again and again: each pass is one step, and `expired` says whether the call
gives up after it.

What an event holds is not looked at, so its type is arbitrary; `default` is the zeroed event.
-/

namespace RadKernel.Queue

/-- `RAD_KERNEL_MAX_INPUT_QUEUES` and `RAD_KERNEL_MAX_WAIT_QUEUES`. -/
def maxQueues : Nat := 8

/-- `RAD_KERNEL_INPUT_QUEUE_EVENTS`. -/
def inputQueueEvents : Nat := 64

/-- `RAD_KERNEL_MAX_TASKS`, as it is added to the signals. -/
def maxTasks : UInt64 := 16

structure InputQueueRecord (ε : Type*) where
  events : Nat → ε
  head : Nat := 0
  tail : Nat := 0
  count : Nat := 0
  capacity : Nat := 0
  used : Bool := false

structure WaitQueueRecord where
  signals : UInt64 := 0
  used : Bool := false
  deriving DecidableEq

structure State (ε : Type*) where
  inputQueues : Nat → InputQueueRecord ε
  inputQueueHandles : Nat → Nat
  waitQueues : Nat → WaitQueueRecord
  waitQueueHandles : Nat → Nat

variable {ε : Type*}

/-- A record that `memset` cleared. -/
def InputQueueRecord.zero [Inhabited ε] : InputQueueRecord ε := { events := fun _ => default }

/-- The tables before the first call. -/
def State.zero [Inhabited ε] : State ε where
  inputQueues := fun _ => .zero
  inputQueueHandles := fun _ => 0
  waitQueues := fun _ => {}
  waitQueueHandles := fun _ => 0

def setInputQueue (s : State ε) (i : Nat) (r : InputQueueRecord ε) : State ε :=
  { s with inputQueues := Function.update s.inputQueues i r }

def setWaitQueue (s : State ε) (i : Nat) (r : WaitQueueRecord) : State ε :=
  { s with waitQueues := Function.update s.waitQueues i r }

/-! ## Input queues -/

/-- `rad_input_queue_create`; the handle is returned beside the status. -/
def radInputQueueCreate [Inhabited ε] (s : State ε) (capacity : Nat) :
    (Status × Option Nat) × State ε :=
  let capacity := if capacity = 0 ∨ inputQueueEvents < capacity then inputQueueEvents else capacity
  match (List.range maxQueues).find? fun i => !(s.inputQueues i).used with
  | none => ((.noMemory, none), s)
  | some i =>
    ((.ok, some i),
      { setInputQueue s i { InputQueueRecord.zero with used := true, capacity := capacity } with
        inputQueueHandles := Function.update s.inputQueueHandles i i })

def radInputQueueDestroy [Inhabited ε] (s : State ε) (queue : Nat) : State ε :=
  let index := s.inputQueueHandles queue
  if maxQueues ≤ index then s
  else
    { setInputQueue s index .zero with
      inputQueueHandles := Function.update s.inputQueueHandles index 0 }

/-- `rad_input_queue_push` on the record. The oldest event makes room. -/
def pushEvent (record : InputQueueRecord ε) (event : ε) : InputQueueRecord ε :=
  let record :=
    if record.capacity ≤ record.count then
      { record with
        tail := (record.tail + 1) % record.capacity
        count := record.count - 1 }
    else record
  { record with
    events := Function.update record.events record.head event
    head := (record.head + 1) % record.capacity
    count := record.count + 1 }

def radInputQueuePush (s : State ε) (queue : Nat) (event : ε) : Status × State ε :=
  let index := s.inputQueueHandles queue
  if maxQueues ≤ index then (.invalidArgument, s)
  else if !(s.inputQueues index).used then (.invalidArgument, s)
  else (.ok, setInputQueue s index (pushEvent (s.inputQueues index) event))

/-- The loop of `rad_input_queue_read` that fills a buffer with `room` places left. -/
def takeEvents : Nat → InputQueueRecord ε → List ε × InputQueueRecord ε
  | 0, record => ([], record)
  | room + 1, record =>
    if record.count = 0 then ([], record)
    else
      let (events, rest) := takeEvents room
        { record with
          tail := (record.tail + 1) % record.capacity
          count := record.count - 1 }
      (record.events record.tail :: events, rest)

/-- One pass of `rad_input_queue_read`: the status, unless another pass follows, and the events. -/
def radInputQueueRead (s : State ε) (queue capacity : Nat) (expired : Bool) :
    (Option Status × List ε) × State ε :=
  let index := s.inputQueueHandles queue
  if maxQueues ≤ index then ((some .invalidArgument, []), s)
  else if !(s.inputQueues index).used then ((some .invalidArgument, []), s)
  else
    let (events, record) := takeEvents capacity (s.inputQueues index)
    let status := if events ≠ [] then some Status.ok else if expired then some .timeout else none
    ((status, events), setInputQueue s index record)

/-! ## Wait queues -/

def radWaitQueueCreate (s : State ε) : (Status × Option Nat) × State ε :=
  match (List.range maxQueues).find? fun i => !(s.waitQueues i).used with
  | none => ((.noMemory, none), s)
  | some i =>
    ((.ok, some i),
      { setWaitQueue s i { used := true, signals := 0 } with
        waitQueueHandles := Function.update s.waitQueueHandles i i })

def radWaitQueueDestroy (s : State ε) (queue : Nat) : State ε :=
  let index := s.waitQueueHandles queue
  if maxQueues ≤ index then s
  else
    { setWaitQueue s index {} with
      waitQueueHandles := Function.update s.waitQueueHandles index 0 }

/-- One pass of the loop of `rad_wait_queue_wait` over the record it found: the status, unless
another pass follows. -/
def waitPass (s : State ε) (index : Nat) (expired : Bool) : Option Status × State ε :=
  let record := s.waitQueues index
  if 0 < record.signals then
    (some .ok, setWaitQueue s index { record with signals := record.signals - 1 })
  else (if expired then some .timeout else none, s)

/-- `rad_wait_queue_wait` with the first pass of its loop. -/
def radWaitQueueWait (s : State ε) (queue : Nat) (expired : Bool) : Option Status × State ε :=
  let index := s.waitQueueHandles queue
  if maxQueues ≤ index then (some .invalidArgument, s)
  else if !(s.waitQueues index).used then (some .invalidArgument, s)
  else waitPass s index expired

/-- `rad_wait_queue_wake_one` and `rad_wait_queue_wake_all` differ in how much they add. -/
def wake (s : State ε) (queue : Nat) (signals : UInt64) : Status × State ε :=
  let index := s.waitQueueHandles queue
  if maxQueues ≤ index then (.invalidArgument, s)
  else
    let record := s.waitQueues index
    if !record.used then (.invalidArgument, s)
    else (.ok, setWaitQueue s index { record with signals := record.signals + signals })

def radWaitQueueWakeOne (s : State ε) (queue : Nat) : Status × State ε := wake s queue 1

def radWaitQueueWakeAll (s : State ε) (queue : Nat) : Status × State ε := wake s queue maxTasks

/-! ## Calls -/

inductive Call (ε : Type*) where
  | inputCreate (capacity : Nat)
  | inputDestroy (queue : Nat)
  | push (queue : Nat) (event : ε)
  | read (queue capacity : Nat) (expired : Bool)
  | waitCreate
  | waitDestroy (queue : Nat)
  | wait (queue : Nat) (expired : Bool)
  /-- A later pass of a wait that found the record `index`. -/
  | waitOn (index : Nat) (expired : Bool)
  | wakeOne (queue : Nat)
  | wakeAll (queue : Nat)

/-- The status of a call, if it returns one, and the tables after it. -/
def perform [Inhabited ε] (s : State ε) : Call ε → Option Status × State ε
  | .inputCreate capacity =>
    let (result, s) := radInputQueueCreate s capacity
    (some result.1, s)
  | .inputDestroy queue => (none, radInputQueueDestroy s queue)
  | .push queue event =>
    let (status, s) := radInputQueuePush s queue event
    (some status, s)
  | .read queue capacity expired =>
    let (result, s) := radInputQueueRead s queue capacity expired
    (result.1, s)
  | .waitCreate =>
    let (result, s) := radWaitQueueCreate s
    (some result.1, s)
  | .waitDestroy queue => (none, radWaitQueueDestroy s queue)
  | .wait queue expired => radWaitQueueWait s queue expired
  | .waitOn index expired => waitPass s index expired
  | .wakeOne queue =>
    let (status, s) := radWaitQueueWakeOne s queue
    (some status, s)
  | .wakeAll queue =>
    let (status, s) := radWaitQueueWakeAll s queue
    (some status, s)

end RadKernel.Queue
