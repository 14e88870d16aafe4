import RadKernel.Kernel.State

/-!
# The virtio block device

`virtio_transfer_sectors` of `platforms/x86_64/x86_storage.cpp` and the device on the other side of
its queue. Every request uses descriptors 0 to 2 and one request header and status byte, so what the
device finds there is what the last call has left. A call prepares these, publishes the request by
raising the available index, and polls the used index until it changes or the call gives up. The device
can take a step between any two of them.

The entries of both rings are always descriptor 0. The bytes that the device moves are left out.
-/

namespace RadKernel.Virtio

open Kernel

/-- `VirtioBlkTIn`. -/
def typeIn : Nat := 0

/-- The arguments of a call. -/
structure Request where
  type : Nat
  sector : UInt64
  count : UInt32
  buffer : Nat
  deriving DecidableEq, Repr

/-- `g_request_header` and what changes in the descriptors. -/
structure Chain where
  type : Nat := 0
  sector : UInt64 := 0
  address : Nat := 0
  length : UInt32 := 0
  write : Bool := false
  deriving DecidableEq, Repr

def Request.chain (r : Request) : Chain where
  type := r.type
  sector := r.sector
  address := r.buffer
  length := r.count * 512
  write := r.type = typeIn

/-- What the device is doing with a request. -/
inductive Work where
  | idle
  /-- It has read the descriptors. -/
  | fetched (chain : Chain)
  /-- It has moved the data, or failed to. -/
  | moved (chain : Chain) (success : Bool)
  /-- It has written the status byte. -/
  | reported (chain : Chain)
  deriving DecidableEq, Repr

inductive Caller where
  | none
  /-- Before the available index is raised. -/
  | prepared (request : Request)
  /-- In the loop, with the number of the published request. -/
  | polling (number : Nat) (request : Request)
  deriving DecidableEq, Repr

inductive Event where
  | published (request : Request) (capacity : Nat)
  /-- A call returns, with what the device has completed until then. -/
  | returned (number : Nat) (request : Request) (status : Status) (completed : List Chain)
  deriving DecidableEq, Repr

/-- Indices are 16-bit numbers. The history is that of the published requests, each with the number of
calls that had written the descriptors by then, and of the requests that the device has completed. -/
structure Machine where
  capacity : Nat
  chain : Chain := {}
  status : Nat := 0
  /-- `avail->idx` and `used->idx`. -/
  availIdx : Nat := 0
  usedIdx : Nat := 0
  /-- `device->avail_idx` and `device->used_idx`. -/
  driverAvail : Nat := 0
  driverUsed : Nat := 0
  /-- The index up to which the device has taken requests. -/
  taken : Nat := 0
  work : Work := .idle
  caller : Caller := .none
  prepares : Nat := 0
  published : List (Nat × Request) := []
  completed : List Chain := []
  log : List Event := []
  deriving DecidableEq, Repr

def u16 (n : Nat) : Nat := n % 2 ^ 16

/-- The checks of `virtio_transfer_sectors`. -/
def Accepted (capacity : Nat) (r : Request) : Prop :=
  r.buffer ≠ 0 ∧ r.count ≠ 0 ∧ (r.sector.toNat + r.count.toNat) % 2 ^ 64 ≤ capacity ∧
    r.count.toNat ≤ 128

instance (capacity : Nat) (r : Request) : Decidable (Accepted capacity r) :=
  inferInstanceAs (Decidable (_ ∧ _))

inductive Action where
  | call (request : Request)
  | publish
  | poll
  /-- The last turn of the loop has not seen a change. -/
  | giveUp
  | fetch
  | move (success : Bool)
  | report
  | finish
  deriving DecidableEq, Repr

namespace Machine

def note (s : Machine) (event : Event) : Machine := { s with log := event :: s.log }

/-- A step that is not possible changes nothing. -/
def next (s : Machine) : Action → Machine
  | .call r =>
    match s.caller with
    | .none =>
      if Accepted s.capacity r then
        { s with chain := r.chain, status := 0xff, caller := .prepared r, prepares := s.prepares + 1 }
      else s
    | _ => s
  | .publish =>
    match s.caller with
    | .prepared r =>
      { s.note (.published r s.capacity) with
        driverAvail := u16 (s.driverAvail + 1)
        availIdx := u16 (s.driverAvail + 1)
        caller := .polling s.published.length r
        published := s.published ++ [(s.prepares, r)] }
    | _ => s
  | .poll =>
    match s.caller with
    | .polling number r =>
      if s.usedIdx ≠ s.driverUsed then
        { s.note (.returned number r (if s.status = 0 then .ok else .error) s.completed) with
          driverUsed := s.usedIdx
          caller := .none }
      else s
    | _ => s
  | .giveUp =>
    match s.caller with
    | .polling number r =>
      { s.note (.returned number r .timeout s.completed) with caller := .none }
    | _ => s
  | .fetch =>
    if s.work = .idle ∧ s.taken ≠ s.availIdx then
      { s with work := .fetched s.chain, taken := u16 (s.taken + 1) }
    else s
  | .move success =>
    match s.work with
    | .fetched chain => { s with work := .moved chain success }
    | _ => s
  | .report =>
    match s.work with
    | .moved chain success =>
      { s with work := .reported chain, status := if success then 0 else 1 }
    | _ => s
  | .finish =>
    match s.work with
    | .reported chain =>
      { s with
        work := .idle
        usedIdx := u16 (s.usedIdx + 1)
        completed := s.completed ++ [chain] }
    | _ => s

end Machine

end RadKernel.Virtio
