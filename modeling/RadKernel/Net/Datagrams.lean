import Mathlib.Algebra.Order.BigOperators.Group.Finset
import Mathlib.Algebra.Order.Group.Multiset
import Mathlib.Tactic.Abel
import RadKernel.Net.Ports
import RadKernel.Lib.Slots

/-!
# The order of received datagrams

A socket keeps its datagrams in an array. A new one goes into the first free place and
`rad_socket_recvfrom` takes the first place in use, so a datagram that is accepted while
others wait above the first free place overtakes them. None is lost in the queue or given twice.
-/

namespace RadKernel.Net

open Kernel Fd

variable {s t : KernelState} {r : SocketRecord} {i j : Nat}

/-- A sender and what it sent. -/
abbrev Message : Type := SockAddr × List UInt8

def places (r : SocketRecord) : Nat → Option Message := fun i =>
  if (r.datagrams i).used then some ((r.datagrams i).sender, (r.datagrams i).payload) else none

/-- The waiting datagrams in the order `rad_socket_recvfrom` returns them. -/
def waiting (r : SocketRecord) : List Message := Slots.contents maxUdpDatagrams (places r)

inductive Event where
  | enqueue (sender : SockAddr) (payload : List UInt8)
  | recvfrom (size : Nat)
  deriving DecidableEq, Repr

/-- The record of a socket, with what was accepted for it and what its owner was given: the
size of the buffer, the bytes and the sender. -/
structure Mailbox where
  record : SocketRecord
  accepted : List Message := []
  returned : List (Nat × List UInt8 × SockAddr) := []

def Event.apply (r : SocketRecord) : Event → SocketRecord
  | enqueue sender payload => (enqueueUdpDatagram r sender payload).2
  | recvfrom size => (takeDatagram r size).2

def Mailbox.step (m : Mailbox) (e : Event) : Mailbox :=
  match e with
  | .enqueue sender payload =>
    { m with
      record := e.apply m.record
      accepted := m.accepted ++
        if (enqueueUdpDatagram m.record sender payload).1 = .ok then [(sender, payload)] else [] }
  | .recvfrom size =>
    { m with
      record := e.apply m.record
      returned := m.returned ++ (takeDatagram m.record size).1.toList.map fun x => (size, x) }

/-- What the owner gets of a message with a buffer of some size: as much as fits, and the
message's own sender. -/
def Gives (m : Message) (got : Nat × List UInt8 × SockAddr) : Prop :=
  got.2 = (m.2.take got.1, m.1)

/-- The messages returned so far are the accepted ones in order, each once; the rest waits. -/
def InOrder (m : Mailbox) : Prop :=
  ∃ done, m.accepted = done ++ waiting m.record ∧ List.Forall₂ Gives done m.returned

/-- An accepted datagram finds nothing waiting above the first free place. -/
def AtTail (r : SocketRecord) : Event → Prop
  | .enqueue _ payload => payload.length ≤ udpPayloadBytes → ∀ i ∈ freeDatagram r,
      ∀ k < maxUdpDatagrams, (r.datagrams k).used → k < i
  | .recvfrom _ => True

instance (r : SocketRecord) : ∀ e, Decidable (AtTail r e)
  | .enqueue _ payload => inferInstanceAs (Decidable (payload.length ≤ udpPayloadBytes →
      ∀ i ∈ freeDatagram r, ∀ k < maxUdpDatagrams, (r.datagrams k).used → k < i))
  | .recvfrom _ => isTrue trivial

/-- Nothing was accepted yet. -/
def Fresh (m : Mailbox) : Prop :=
  (∀ i < maxUdpDatagrams, (m.record.datagrams i).used = false) ∧ m.accepted = [] ∧ m.returned = []

/-! ## Queues -/

theorem places_update (r : SocketRecord) (i : Nat) (d : UdpDatagram) :
    places { r with datagrams := Function.update r.datagrams i d } =
      Function.update (places r) i (if d.used then some (d.sender, d.payload) else none) := by
  funext k
  by_cases hk : k = i
  · subst hk
    simp [places]
  · simp [places, hk]

theorem places_eq_none : places r i = none ↔ (r.datagrams i).used = false := by
  simp [places]

variable {sender : SockAddr} {payload : List UInt8} {m : Mailbox} {r' : SocketRecord}

/-- An accepted datagram is appended when nothing waits above its place. -/
theorem waiting_enqueue (hok : (enqueueUdpDatagram r sender payload).1 = .ok)
    (htail : AtTail r (.enqueue sender payload)) :
    waiting (enqueueUdpDatagram r sender payload).2 = waiting r ++ [(sender, payload)] := by
  unfold enqueueUdpDatagram at hok ⊢
  split_ifs at hok ⊢ with hlen
  cases hfree : freeDatagram r with
  | none => simp [hfree] at hok
  | some i =>
    obtain ⟨-, hi, -⟩ := List.find?_range_eq_some.1 hfree
    rw [List.mem_range] at hi
    have habove : ∀ k, i ≤ k → k < maxUdpDatagrams → places r k = none := by
      intro k hk hlt
      rw [places_eq_none]
      by_contra hused
      have := htail (by omega) i hfree k hlt (by simpa using hused)
      omega
    simp only [waiting, places_update]
    exact Slots.contents_put hi habove _

theorem enqueue_failed (h : (enqueueUdpDatagram r sender payload).1 ≠ .ok) :
    (enqueueUdpDatagram r sender payload).2 = r := by
  unfold enqueueUdpDatagram at h ⊢
  split_ifs at h ⊢ with hlen
  · rfl
  · cases hfree : freeDatagram r with
    | none => rfl
    | some i => simp [hfree] at h

variable {size : Nat}

theorem waiting_take {got : List UInt8 × SockAddr} (h : (takeDatagram r size).1 = some got) :
    ∃ m, waiting r = m :: waiting (takeDatagram r size).2 ∧ Gives m (size, got) := by
  unfold takeDatagram at h ⊢
  cases hfirst : firstDatagram r with
  | none => simp [hfirst] at h
  | some i =>
    obtain ⟨hused, hi, hbelow⟩ := List.find?_range_eq_some.1 hfirst
    rw [List.mem_range] at hi
    refine ⟨((r.datagrams i).sender, (r.datagrams i).payload), ?_, ?_⟩
    · simp only [waiting, places_update]
      refine Slots.contents_take hi (fun k hk => ?_) ?_
      · rw [places_eq_none]
        simpa using hbelow k hk
      · simp [places, hused]
    · simp only [hfirst, Option.some.injEq] at h
      exact h.symm

theorem take_none (h : (takeDatagram r size).1 = none) : (takeDatagram r size).2 = r := by
  unfold takeDatagram at h ⊢
  cases hfirst : firstDatagram r with
  | none => rfl
  | some i => simp [hfirst] at h

/-! ## Runs -/

theorem fresh_inOrder (h : Fresh m) : InOrder m := by
  obtain ⟨hfree, haccepted, hreturned⟩ := h
  refine ⟨[], ?_, by rw [hreturned]; exact .nil⟩
  have hnil : waiting m.record = [] :=
    Slots.contents_eq_nil fun k hk => places_eq_none.2 (hfree k hk)
  rw [haccepted, hnil]
  rfl

theorem InOrder.step {e : Event} (h : InOrder m) (htail : AtTail m.record e) :
    InOrder (m.step e) := by
  obtain ⟨done, haccepted, hreturned⟩ := h
  cases e with
  | enqueue sender payload =>
    refine ⟨done, ?_, hreturned⟩
    simp only [Mailbox.step, Event.apply]
    by_cases hok : (enqueueUdpDatagram m.record sender payload).1 = .ok
    · rw [if_pos hok, waiting_enqueue hok htail, haccepted, List.append_assoc]
    · rw [if_neg hok, enqueue_failed hok, haccepted, List.append_nil]
  | recvfrom size =>
    simp only [Mailbox.step, Event.apply]
    cases htaken : (takeDatagram m.record size).1 with
    | none =>
      rw [take_none htaken]
      exact ⟨done, haccepted, by simpa using hreturned⟩
    | some got =>
      obtain ⟨first, hwaiting, hgives⟩ := waiting_take htaken
      refine ⟨done ++ [first], ?_, ?_⟩
      · rw [haccepted, hwaiting, List.append_assoc]
        rfl
      · exact List.rel_append hreturned (.cons hgives .nil)

/-- In every run that accepts no datagram below a waiting one, the datagrams returned are the
accepted ones in order. -/
theorem inOrder_of_accepted_at_tail {m : Mailbox}
    (h : Run (Obeys Mailbox.step fun m e => AtTail m.record e) Fresh m) : InOrder m := by
  refine h.invariant (fun m => fresh_inOrder) ?_
  rintro m e _ hm ⟨htail, rfl⟩
  exact hm.step htail

/-- A mailbox just made. -/
def newMailbox : Mailbox := { record := newSocket afInet sockDgram ipprotoUdp }

theorem fresh_newMailbox : Fresh newMailbox := ⟨fun _ _ => rfl, rfl, rfl⟩

def peer : SockAddr := ⟨afInet, 7, defaultIpv4Address⟩

theorem inOrder_two_then_read : InOrder
    ([Event.enqueue peer [1], .enqueue peer [2], .recvfrom 8, .recvfrom 8, .enqueue peer [3],
      .recvfrom 8].foldl Mailbox.step newMailbox) :=
  inOrder_of_accepted_at_tail (.along _ (.start fresh_newMailbox) (by decide +kernel))

/-- Two datagrams wait, one is read, and the third takes the free place before the second. -/
theorem not_inOrder_refilled :
    ¬∀ m, Run (Obeys Mailbox.step fun _ _ => True) Fresh m → InOrder m := by
  intro h
  obtain ⟨done, haccepted, hreturned⟩ := h _ (.along [.enqueue peer [1], .enqueue peer [2],
    .recvfrom 8, .enqueue peer [3], .recvfrom 8] (.start fresh_newMailbox) (by simp [Along]))
  -- the second is still waiting, though it is not the last accepted
  have hlast := congrArg List.getLast? haccepted
  have hwaiting : waiting ([Event.enqueue peer [1], .enqueue peer [2], .recvfrom 8,
      .enqueue peer [3], .recvfrom 8].foldl Mailbox.step newMailbox).record = [(peer, [2])] := by
    decide +kernel
  rw [hwaiting, List.getLast?_concat] at hlast
  revert hlast
  decide +kernel

/-! ## The calls -/

def Event.IsEnqueue : Event → Prop
  | enqueue _ _ => True
  | recvfrom _ => False

/-- Record `r'` came from `r` by accepting datagrams. -/
def Accepts (r r' : SocketRecord) : Prop :=
  ∃ es : List Event, (∀ e ∈ es, e.IsEnqueue) ∧ r' = es.foldl Event.apply r

theorem Accepts.refl (r : SocketRecord) : Accepts r r := ⟨[], by simp, rfl⟩

theorem Accepts.trans {r'' : SocketRecord} (h : Accepts r r') (h' : Accepts r' r'') :
    Accepts r r'' := by
  obtain ⟨es, hes, rfl⟩ := h
  obtain ⟨es', hes', rfl⟩ := h'
  refine ⟨es ++ es', fun e he => ?_, by rw [List.foldl_append]⟩
  exact (List.mem_append.1 he).elim (hes e) (hes' e)

theorem deliver_accepts (s : KernelState) (port : Nat) (sender : SockAddr)
    (payload : List UInt8) (j : Nat) :
    Accepts (s.sockets j) ((deliver s port sender payload).2.sockets j) := by
  unfold deliver
  cases findSocket s sockDgram port with
  | none => exact .refl _
  | some i =>
    by_cases hj : j = i
    · subst hj
      exact ⟨[.enqueue sender payload], by simp [Event.IsEnqueue], by simp [setSocket, Event.apply]⟩
    · simpa [setSocket, hj] using Accepts.refl _

theorem poll_accepts (frames : List Frame) (s : KernelState) (j : Nat) :
    Accepts (s.sockets j) ((pollNetworkForUdp s frames).sockets j) := by
  induction frames generalizing s with
  | nil => exact .refl _
  | cons f frames ih => exact (deliver_accepts s _ _ _ j).trans (ih _)

/-- `rad_socket_recvfrom` accepts what came in and takes one datagram from its own socket. -/
theorem recvfrom_queue {pid fd : Int} {frames : List Frame} (h : socketFromFd s pid fd = some i) :
    ∃ r, Accepts (s.sockets i) r ∧
      (radSocketRecvfrom s pid fd size frames).1 = (takeDatagram r size).1 ∧
      (radSocketRecvfrom s pid fd size frames).2.sockets i = (Event.recvfrom size).apply r ∧
      ∀ j ≠ i, Accepts (s.sockets j)
        ((radSocketRecvfrom s pid fd size frames).2.sockets j) := by
  refine ⟨_, poll_accepts frames s i, ?_, ?_, fun j hj => ?_⟩
  · simp [radSocketRecvfrom, h]
  · simp [radSocketRecvfrom, h, setSocket, Event.apply]
  · simpa [radSocketRecvfrom, h, setSocket, hj] using poll_accepts frames s j

/-- Ports and addresses play no part in the queue. -/
theorem accepts_datagrams {t : SocketRecord} (hsame : r'.datagrams = r.datagrams)
    (h : Accepts r' t) : ∃ t', Accepts r t' ∧ t'.datagrams = t.datagrams := by
  obtain ⟨es, hes, rfl⟩ := h
  refine ⟨es.foldl Event.apply r, ⟨es, hes, rfl⟩, ?_⟩
  clear hes
  induction es generalizing r r' with
  | nil => exact hsame.symm
  | cons e es ih =>
    refine ih ?_
    cases e with
    | enqueue sender payload =>
      simp only [Event.apply, enqueueUdpDatagram, freeDatagram, hsame]
      split_ifs
      · exact hsame
      · split <;> simp [hsame]
    | recvfrom size =>
      simp only [Event.apply, takeDatagram, firstDatagram, hsame]
      split <;> simp [hsame]

/-- `rad_socket_sendto` does nothing but accept datagrams to any queue. -/
theorem sendto_queue (s : KernelState) (pid fd : Int) (buffer : List UInt8) (address : SockAddr)
    (own : Ipv4Address) (frames : List Frame) (sent : Status) (j : Nat) :
    ∃ r, Accepts (s.sockets j) r ∧ r.datagrams =
      ((radSocketSendto s pid fd buffer address own frames sent).2.sockets j).datagrams := by
  unfold radSocketSendto
  split_ifs
  · exact ⟨_, .refl _, rfl⟩
  cases socketFromFd s pid fd with
  | none => exact ⟨_, .refl _, rfl⟩
  | some i =>
    have hnamed : ((setSocket s i (namedSender (s.sockets i) i own)).sockets j).datagrams =
        (s.sockets j).datagrams := by
      by_cases hj : j = i
      · subst hj
        simp [setSocket, namedSender]
      · simp [setSocket, hj]
    dsimp only
    split_ifs
    · exact accepts_datagrams hnamed (deliver_accepts _ _ _ _ j)
    · exact accepts_datagrams hnamed ((deliver_accepts _ _ _ _ j).trans (poll_accepts frames _ j))
    · exact accepts_datagrams hnamed (poll_accepts frames _ j)

/-! ## Datagrams of all sockets -/

/-- The datagrams that wait, of all sockets. -/
@[irreducible] def queued (s : KernelState) : Multiset Message :=
  ∑ j ∈ Finset.range maxUdpSockets, (waiting (s.sockets j) : Multiset Message)

def Frame.message (f : Frame) : Message := (⟨afInet, f.sourcePort, f.source⟩, f.payload)

/-- What `rad_socket_sendto` sends. -/
def sentMessage (s : KernelState) (pid fd : Int) (buffer : List UInt8) (own : Ipv4Address) :
    List Message :=
  match socketFromFd s pid fd with
  | none => []
  | some i =>
    let socket := namedSender (s.sockets i) i own
    [(⟨afInet, socket.localPort, socket.localAddress⟩, buffer)]

/-- The sockets, with all that was sent or came in, and all that callers were given. -/
structure Traffic where
  kernel : KernelState
  offered : List Message := []
  returned : List (Nat × List UInt8 × SockAddr) := []

def Traffic.step (t : Traffic) (e : Nat × UdpCall) : Traffic :=
  let u := { t with kernel := udpStep t.kernel e }
  match e.2 with
  | .call _ => u
  | .sendto fd buffer _ own frames _ =>
    { u with
      offered := t.offered ++ (sentMessage t.kernel e.1 fd buffer own ++ frames.map Frame.message) }
  | .recvfrom fd size frames =>
    let taken := (radSocketRecvfrom t.kernel e.1 fd size frames).1
    { u with
      offered := t.offered ++ frames.map Frame.message
      returned := t.returned ++ taken.toList.map fun x => (size, x) }

theorem socket_lt {pid fd : Int} (h : socketFromFd s pid fd = some i) : i < maxUdpSockets := by
  rw [socketFromFd] at h
  split at h
  · split_ifs at h with hsocket
    exact Option.some.inj h ▸ hsocket.2.1
  · cases h

end RadKernel.Net
