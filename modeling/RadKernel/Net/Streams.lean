import RadKernel.Net.Pairs

/-!
# Stream connections

A connection is a pair of sockets that name each other by their index. Beside the tables stands
which connection each socket is an end of, with the bytes that were sent into every end and
received from it. `rad_socket_connect` does not look whether the client is connected already,
and leaves the bytes that wait for it where they are.
-/

namespace RadKernel.Net

open Kernel Fd Function

/-- One end of a connection. -/
structure WireEnd where
  wire : Nat
  server : Bool
  deriving DecidableEq, Repr

def WireEnd.other (x : WireEnd) : WireEnd := { x with server := !x.server }

@[simp] theorem WireEnd.other_other (x : WireEnd) : x.other.other = x := by
  simp [WireEnd.other]

theorem WireEnd.other_ne (x : WireEnd) : x.other ≠ x := by
  cases x
  simp [WireEnd.other]

/-- The tables, the ends of the connections and the bytes they carried. -/
structure Wired where
  kernel : KernelState
  ends : Nat → Option WireEnd := fun _ => none
  sent : WireEnd → List UInt8 := fun _ => []
  received : WireEnd → List UInt8 := fun _ => []
  /-- Bytes received on sockets that are no end of a connection. -/
  stray : List UInt8 := []
  wires : Nat := 0

/-- A record stays an end while it is in use. -/
def keptEnds (s t : KernelState) (ends : Nat → Option WireEnd) : Nat → Option WireEnd := fun i =>
  if (s.sockets i).used && (t.sockets i).used then ends i else none

/-- A call of process `e.1`, and what it does to the connections. -/
def watchCall (w : Wired) (e : Nat × Call) : Wired :=
  let s := w.kernel
  let ((result, bytes), t) := e.2.perform e.1 s
  let v := { w with kernel := t, ends := keptEnds s t w.ends }
  match e.2 with
  | .connect fd address =>
    match connectParties s e.1 fd address with
    | .error _ => v
    | .ok (client, _, server) =>
      { v with
        ends := Function.update (Function.update v.ends client (some ⟨w.wires, false⟩)) server
          (some ⟨w.wires, true⟩)
        wires := w.wires + 1 }
  | .send fd buffer =>
    match (socketFromFd s e.1 fd).bind w.ends with
    | none => v
    | some x =>
      { v with sent := Function.update w.sent x (w.sent x ++ buffer.take result.toNat) }
  | .recv fd _ =>
    match socketFromFd s e.1 fd with
    | none => v
    | some i =>
      match w.ends i with
      | none => { v with stray := w.stray ++ bytes }
      | some x => { v with received := Function.update w.received x (w.received x ++ bytes) }
  | _ => v

/-- Peers name each other, a queue holds server ends that no descriptor refers to, and the bytes
received at an end are the first of those sent into the other one. -/
structure Paired (w : Wired) : Prop where
  peer : ∀ i, Live w.kernel i → (w.kernel.sockets i).peerIndex < maxUdpSockets →
    Live w.kernel (w.kernel.sockets i).peerIndex ∧
      (w.kernel.sockets (w.kernel.sockets i).peerIndex).type = sockStream ∧
      (w.kernel.sockets (w.kernel.sockets i).peerIndex).peerIndex = i
  pending : ∀ l, Live w.kernel l → ∀ n < (w.kernel.sockets l).pendingCount,
    Live w.kernel ((w.kernel.sockets l).pendingAccepts n) ∧
      (w.kernel.sockets ((w.kernel.sockets l).pendingAccepts n)).type = sockStream ∧
      (∃ c, w.ends ((w.kernel.sockets l).pendingAccepts n) = some ⟨c, true⟩) ∧
      ∀ fd, ¬ Holds w.kernel fd ((w.kernel.sockets l).pendingAccepts n)
  inOrder : ∀ x, w.received x <+: w.sent x.other
  stray : w.stray = []

/-- The client of a connection that is made has no peer, and no bytes wait for it. -/
def Unconnected (w : Wired) (e : Nat × Call) : Prop :=
  match e.2 with
  | .connect fd address => ∀ c l j, connectParties w.kernel e.1 fd address = .ok (c, l, j) →
      maxUdpSockets ≤ (w.kernel.sockets c).peerIndex ∧ (w.kernel.sockets c).streamRx = []
  | _ => True

/-- The tables after start-up, without connections. -/
def Started (w : Wired) : Prop := ∃ console processes, w = { kernel := boot console processes }

variable {s t : KernelState} {ends ends' : Nat → Option WireEnd} {wires : Nat}
  {sent received : WireEnd → List UInt8} {i j k l c fd : Nat} {r : SocketRecord}

/-! ## Links -/

/-- The links between sockets, the queues and the descriptors fit together. -/
structure Links (s : KernelState) (ends : Nat → Option WireEnd) (wires : Nat) : Prop where
  grouped : Grouped s
  held : ∀ i k, Holds s i k → Live s k
  peer : ∀ i, Live s i → (s.sockets i).peerIndex < maxUdpSockets →
    Live s (s.sockets i).peerIndex ∧ (s.sockets (s.sockets i).peerIndex).type = sockStream ∧
      (s.sockets (s.sockets i).peerIndex).peerIndex = i
  pending : ∀ l, Live s l → ∀ n < (s.sockets l).pendingCount,
    Live s ((s.sockets l).pendingAccepts n) ∧
      (s.sockets ((s.sockets l).pendingAccepts n)).type = sockStream ∧
      (∃ c, ends ((s.sockets l).pendingAccepts n) = some ⟨c, true⟩) ∧
      ∀ fd, ¬ Holds s fd ((s.sockets l).pendingAccepts n)
  once : ∀ l l' n n', Live s l → Live s l' → n < (s.sockets l).pendingCount →
    n' < (s.sockets l').pendingCount →
    (s.sockets l).pendingAccepts n = (s.sockets l').pendingAccepts n' → l = l' ∧ n = n'
  known : ∀ i x, Live s i → ends i = some x → x.wire < wires
  apart : ∀ i j x, Live s i → Live s j → ends i = some x → ends j = some x → i = j
  across : ∀ i, Live s i → (s.sockets i).peerIndex < maxUdpSockets →
    ∃ x, ends i = some x ∧ ends (s.sockets i).peerIndex = some x.other

/-- The record has the same links and the same queue. -/
structure SameLinks (r r' : SocketRecord) : Prop where
  type : r'.type = r.type
  peer : r'.peerIndex = r.peerIndex
  accepts : r'.pendingAccepts = r.pendingAccepts
  count : r'.pendingCount = r.pendingCount

theorem SameLinks.refl (r : SocketRecord) : SameLinks r r := ⟨rfl, rfl, rfl, rfl⟩

section
variable (h : Links s ends wires)
include h

theorem Links.of_live (hgrouped : Grouped t)
    (hheld : ∀ i k, Holds t i k → ∃ j, Holds s j k) (hlive : ∀ i, Live t i ↔ Live s i)
    (hsame : ∀ i, Live s i → SameLinks (s.sockets i) (t.sockets i))
    (hends : ∀ i, Live s i → ends' i = ends i) : Links t ends' wires := by
  constructor
  case grouped => exact hgrouped
  case held =>
    intro i k hi
    obtain ⟨j, hj⟩ := hheld i k hi
    exact (hlive k).2 (h.held j k hj)
  case peer =>
    intro i hi hpeer
    rw [hlive] at hi
    rw [(hsame i hi).peer] at hpeer ⊢
    obtain ⟨hpeerLive, htype, hback⟩ := h.peer i hi hpeer
    rw [hlive, (hsame _ hpeerLive).type, (hsame _ hpeerLive).peer]
    exact ⟨hpeerLive, htype, hback⟩
  case pending =>
    intro l hl n hn
    rw [hlive] at hl
    rw [(hsame l hl).count] at hn
    rw [(hsame l hl).accepts]
    obtain ⟨hp, htype, hserver, hfree⟩ := h.pending l hl n hn
    rw [hlive, (hsame _ hp).type, hends _ hp]
    refine ⟨hp, htype, hserver, fun fd hfd => ?_⟩
    obtain ⟨j, hj⟩ := hheld fd _ hfd
    exact hfree j hj
  case once =>
    intro l l' n n' hl hl' hn hn' heq
    rw [hlive] at hl hl'
    rw [(hsame l hl).count] at hn
    rw [(hsame l' hl').count] at hn'
    rw [(hsame l hl).accepts, (hsame l' hl').accepts] at heq
    exact h.once l l' n n' hl hl' hn hn' heq
  case known =>
    intro i x hi hx
    rw [hlive] at hi
    rw [hends i hi] at hx
    exact h.known i x hi hx
  case apart =>
    intro i j x hi hj hx hx'
    rw [hlive] at hi hj
    rw [hends i hi] at hx
    rw [hends j hj] at hx'
    exact h.apart i j x hi hj hx hx'
  case across =>
    intro i hi hpeer
    rw [hlive] at hi
    rw [(hsame i hi).peer] at hpeer ⊢
    rw [hends i hi, hends _ (h.peer i hi hpeer).1]
    exact h.across i hi hpeer

theorem Links.symmetric : Symmetric s := by
  refine ⟨fun i hi hpeer => ?_, fun i hi hself => ?_⟩
  · obtain ⟨hlive, -, hback⟩ := h.peer i hi hpeer
    exact ⟨hlive, hback⟩
  · obtain ⟨x, hx, hx'⟩ := h.across i hi (hself.symm ▸ hi.1)
    rw [hself, hx, Option.some.injEq] at hx'
    exact x.other_ne hx'.symm

theorem Links.queue (hk : Holds s fd k) : Queue s k := by
  have hlive := h.held fd k hk
  refine ⟨fun n hn => (h.pending k hlive n hn).1, fun n hn hself => ?_, fun m n hm hn heq => ?_⟩
  · exact (h.pending k hlive n hn).2.2.2 fd (hself.symm ▸ hk)
  · exact (h.once k k m n hlive hlive hm hn heq).2

theorem Links.closed (hk : Holds s fd k) (ht : t.sockets = (closeSocket s k).sockets) (i : Nat) :
    (Live t i ↔ Live s i ∧ ¬ Dead s k i) ∧ (Live t i →
      (t.sockets i).type = (s.sockets i).type ∧
      (t.sockets i).pendingAccepts = (s.sockets i).pendingAccepts ∧
      (t.sockets i).pendingCount = (s.sockets i).pendingCount ∧
      (t.sockets i).streamRx = (s.sockets i).streamRx ∧
      (t.sockets i).peerIndex =
        if Dead s k (s.sockets i).peerIndex then maxUdpSockets else (s.sockets i).peerIndex) := by
  have hi := closeSocket_sockets h.symmetric (h.held fd k hk) (h.queue hk) i
  rw [← ht] at hi
  by_cases hdead : Dead s k i
  · rw [if_pos hdead] at hi
    simp [Live, hi, hdead]
  · rw [if_neg hdead] at hi
    by_cases hpeer : Live s i ∧ Dead s k (s.sockets i).peerIndex
    · rw [if_pos hpeer] at hi
      simp only [Live, hi, hdead, not_false_eq_true, and_true, true_and, hpeer.2, if_true]
      exact fun _ => trivial
    · rw [if_neg hpeer] at hi
      simp only [Live, hi, hdead, not_false_eq_true, and_true, true_and]
      intro hlive
      rw [if_neg fun hd => hpeer ⟨hlive, hd⟩]

theorem Links.close (hk : Holds s fd k) (hgrouped : Grouped t)
    (hheld : ∀ i m, Holds t i m → Holds s i m) (hlast : ∀ i, ¬ Holds t i k)
    (ht : t.sockets = (closeSocket s k).sockets) (hends : ∀ i, Live t i → ends' i = ends i) :
    Links t ends' wires := by
  have hclosed := h.closed hk ht
  have hkLive := h.held fd k hk
  -- a connection that waits elsewhere is neither the socket nor in its queue
  have hkept : ∀ l, Live s l → ¬ Dead s k l → ∀ n < (s.sockets l).pendingCount,
      ¬ Dead s k ((s.sockets l).pendingAccepts n) := by
    rintro l hl hdead n hn (hself | ⟨m, hm, hwait⟩)
    · exact (h.pending l hl n hn).2.2.2 fd (hself.symm ▸ hk)
    · exact hdead (.inl (h.once k l m n hkLive hl hm hn hwait).1.symm)
  constructor
  case grouped => exact hgrouped
  case held =>
    intro i m hm
    refine (hclosed m).1.2 ⟨h.held i m (hheld i m hm), ?_⟩
    rintro (rfl | ⟨n, hn, rfl⟩)
    · exact hlast i hm
    · exact (h.pending k hkLive n hn).2.2.2 i (hheld i _ hm)
  case peer =>
    intro i hi hpeer
    obtain ⟨hiLive, hiDead⟩ := (hclosed i).1.1 hi
    obtain ⟨-, -, -, -, hlink⟩ := (hclosed i).2 hi
    rw [hlink] at hpeer ⊢
    split_ifs at hpeer ⊢ with hdead
    · exact absurd hpeer (Nat.lt_irrefl _)
    · obtain ⟨hpeerLive, htype, hback⟩ := h.peer i hiLive hpeer
      have hpeer' := (hclosed _).1.2 ⟨hpeerLive, hdead⟩
      obtain ⟨htype', -, -, -, hlink'⟩ := (hclosed _).2 hpeer'
      refine ⟨hpeer', htype'.trans htype, ?_⟩
      rw [hlink', hback, if_neg hiDead]
  case pending =>
    intro l hl n hn
    obtain ⟨hlLive, hlDead⟩ := (hclosed l).1.1 hl
    obtain ⟨-, haccepts, hcount, -, -⟩ := (hclosed l).2 hl
    rw [hcount] at hn
    rw [haccepts]
    obtain ⟨hp, htype, hserver, hfree⟩ := h.pending l hlLive n hn
    have hp' := (hclosed _).1.2 ⟨hp, hkept l hlLive hlDead n hn⟩
    refine ⟨hp', ((hclosed _).2 hp').1.trans htype, by rwa [hends _ hp'], fun i hi => ?_⟩
    exact hfree i (hheld i _ hi)
  case once =>
    intro l l' n n' hl hl' hn hn' heq
    obtain ⟨-, haccepts, hcount, -, -⟩ := (hclosed l).2 hl
    obtain ⟨-, haccepts', hcount', -, -⟩ := (hclosed l').2 hl'
    rw [hcount] at hn
    rw [hcount'] at hn'
    rw [haccepts, haccepts'] at heq
    exact h.once l l' n n' ((hclosed l).1.1 hl).1 ((hclosed l').1.1 hl').1 hn hn' heq
  case known =>
    intro i x hi hx
    rw [hends i hi] at hx
    exact h.known i x ((hclosed i).1.1 hi).1 hx
  case apart =>
    intro i j x hi hj hx hx'
    rw [hends i hi] at hx
    rw [hends j hj] at hx'
    exact h.apart i j x ((hclosed i).1.1 hi).1 ((hclosed j).1.1 hj).1 hx hx'
  case across =>
    intro i hi hpeer
    obtain ⟨hiLive, -⟩ := (hclosed i).1.1 hi
    obtain ⟨-, -, -, -, hlink⟩ := (hclosed i).2 hi
    rw [hlink] at hpeer ⊢
    split_ifs at hpeer ⊢ with hdead
    · exact absurd hpeer (Nat.lt_irrefl _)
    · have hpeer' := (hclosed _).1.2 ⟨(h.peer i hiLive hpeer).1, hdead⟩
      rw [hends i hi, hends _ hpeer']
      exact h.across i hiLive hpeer

theorem Links.hold (hgrouped : Grouped t)
    (hsockets : t.sockets = s.sockets) (hheld : ∀ i m, Holds t i m → Holds s i m ∨ m = k)
    (hk : Live s k) (hfree : ∀ l, Live s l → ∀ n < (s.sockets l).pendingCount,
      (s.sockets l).pendingAccepts n ≠ k) : Links t ends wires := by
  have hlive : ∀ i, Live t i ↔ Live s i := fun i => by rw [Live, Live, hsockets]
  constructor
  case grouped => exact hgrouped
  case held =>
    intro i m hm
    rw [hlive]
    obtain hm | rfl := hheld i m hm
    · exact h.held i m hm
    · exact hk
  case peer => simpa only [hlive, hsockets] using h.peer
  case pending =>
    intro l hl n hn
    rw [hlive] at hl
    rw [hsockets] at hn ⊢
    obtain ⟨hp, htype, hserver, hnone⟩ := h.pending l hl n hn
    refine ⟨(hlive _).2 hp, htype, hserver, fun i hi => ?_⟩
    obtain hi | hself := hheld i _ hi
    · exact hnone i hi
    · exact hfree l hl n hn hself
  case once => simpa only [hlive, hsockets] using h.once
  case known => simpa only [hlive] using h.known
  case apart => simpa only [hlive] using h.apart
  case across => simpa only [hlive, hsockets] using h.across

/-- A record comes into use that is linked to nothing. -/
theorem Links.add (hi : i < maxUdpSockets) (hfree : ¬ Live s i)
    (hfds : t.fds = s.fds) (ht : t.sockets = update s.sockets i r)
    (hpeer : maxUdpSockets ≤ r.peerIndex) (hcount : r.pendingCount = 0)
    (hends : ∀ j, Live s j → ends' j = ends j) (hnone : ends' i = none) : Links t ends' wires := by
  have hne : ∀ j, Live s j → j ≠ i := by
    rintro j hj rfl
    exact hfree hj
  have hother : ∀ j, j ≠ i → t.sockets j = s.sockets j := fun j hj => by
    rw [ht, update_of_ne hj]
  have hlive : ∀ j, j ≠ i → (Live t j ↔ Live s j) := fun j hj => by rw [Live, Live, hother j hj]
  have hself : t.sockets i = r := by rw [ht, update_self]
  have hheld : ∀ a m, Holds t a m ↔ Holds s a m := fun a m => holds_congr hfds
  constructor
  case grouped => exact h.grouped.congr hfds
  case held =>
    intro a m hm
    have hm' := h.held a m ((hheld a m).1 hm)
    exact (hlive m (hne m hm')).2 hm'
  case peer =>
    intro a ha hpeer'
    by_cases hai : a = i
    · rw [hai, hself] at hpeer'
      omega
    · rw [hlive a hai] at ha
      rw [hother a hai] at hpeer' ⊢
      obtain ⟨hlink, htype, hback⟩ := h.peer a ha hpeer'
      have hlinkNe := hne _ hlink
      rw [hlive _ hlinkNe, hother _ hlinkNe]
      exact ⟨hlink, htype, hback⟩
  case pending =>
    intro l hl n hn
    by_cases hli : l = i
    · rw [hli, hself, hcount] at hn
      omega
    · rw [hlive l hli] at hl
      rw [hother l hli] at hn ⊢
      obtain ⟨hp, htype, hserver, hnone⟩ := h.pending l hl n hn
      have hpNe := hne _ hp
      rw [hlive _ hpNe, hother _ hpNe, hends _ hp]
      exact ⟨hp, htype, hserver, fun a ha => hnone a ((hheld a _).1 ha)⟩
  case once =>
    intro l l' n n' hl hl' hn hn' heq
    by_cases hli : l = i
    · rw [hli, hself, hcount] at hn
      omega
    by_cases hli' : l' = i
    · rw [hli', hself, hcount] at hn'
      omega
    rw [hlive l hli] at hl
    rw [hlive l' hli'] at hl'
    rw [hother l hli] at hn heq
    rw [hother l' hli'] at hn' heq
    exact h.once l l' n n' hl hl' hn hn' heq
  case known =>
    intro a x ha hx
    by_cases hai : a = i
    · simp [hai, hnone] at hx
    · rw [hlive a hai] at ha
      rw [hends a ha] at hx
      exact h.known a x ha hx
  case apart =>
    intro a b x ha hb hx hx'
    by_cases hai : a = i
    · simp [hai, hnone] at hx
    by_cases hbi : b = i
    · simp [hbi, hnone] at hx'
    rw [hlive a hai] at ha
    rw [hlive b hbi] at hb
    rw [hends a ha] at hx
    rw [hends b hb] at hx'
    exact h.apart a b x ha hb hx hx'
  case across =>
    intro a ha hpeer'
    by_cases hai : a = i
    · rw [hai, hself] at hpeer'
      omega
    · rw [hlive a hai] at ha
      rw [hother a hai] at hpeer' ⊢
      rw [hends a ha, hends _ (h.peer a ha hpeer').1]
      exact h.across a ha hpeer'

/-- The first connection leaves the queue of a listener. -/
theorem Links.pop (hl : Live s l) (hpos : 0 < (s.sockets l).pendingCount) (hfds : t.fds = s.fds)
    (ht : t.sockets = update s.sockets l
      { s.sockets l with
        pendingAccepts := fun i =>
          if i + 1 < (s.sockets l).pendingCount then (s.sockets l).pendingAccepts (i + 1)
          else (s.sockets l).pendingAccepts i
        pendingCount := (s.sockets l).pendingCount - 1 }) :
    Links t ends wires ∧ ∀ a, Live t a → ∀ n < (t.sockets a).pendingCount,
      (t.sockets a).pendingAccepts n ≠ (s.sockets l).pendingAccepts 0 := by
  have hsame : ∀ a, (t.sockets a).used = (s.sockets a).used ∧
      (t.sockets a).type = (s.sockets a).type ∧
      (t.sockets a).peerIndex = (s.sockets a).peerIndex := by
    intro a
    by_cases hal : a = l <;> simp [ht, hal]
  -- an entry of a queue was there before, one place further back at the listener
  have hqueue : ∀ a n, n < (t.sockets a).pendingCount →
      n + (if a = l then 1 else 0) < (s.sockets a).pendingCount ∧
      (t.sockets a).pendingAccepts n =
        (s.sockets a).pendingAccepts (n + if a = l then 1 else 0) := by
    intro a n hn
    by_cases hal : a = l
    · subst hal
      simp only [ht, update_self] at hn ⊢
      have hlt : n + 1 < (s.sockets a).pendingCount := by omega
      simp [hlt]
    · simp only [ht, update_of_ne hal, if_neg hal] at hn ⊢
      exact ⟨hn, rfl⟩
  have hlive : ∀ a, Live t a ↔ Live s a := fun a => by rw [Live, Live, (hsame a).1]
  have hheld : ∀ a m, Holds t a m ↔ Holds s a m := fun a m => holds_congr hfds
  refine ⟨?_, fun a ha n hn heq => ?_⟩
  · constructor
    case grouped => exact h.grouped.congr hfds
    case held => exact fun a m hm => (hlive m).2 (h.held a m ((hheld a m).1 hm))
    case peer =>
      intro a ha hpeer
      rw [hlive] at ha
      rw [(hsame a).2.2] at hpeer ⊢
      rw [hlive, (hsame _).2.1, (hsame _).2.2]
      exact h.peer a ha hpeer
    case pending =>
      intro a ha n hn
      rw [hlive] at ha
      obtain ⟨hn', hentry⟩ := hqueue a n hn
      rw [hentry, hlive, (hsame _).2.1]
      obtain ⟨hp, htype, hserver, hnone⟩ := h.pending a ha _ hn'
      exact ⟨hp, htype, hserver, fun b hb => hnone b ((hheld b _).1 hb)⟩
    case once =>
      intro a b n n' ha hb hn hn' heq
      rw [hlive] at ha hb
      obtain ⟨hlt, hentry⟩ := hqueue a n hn
      obtain ⟨hlt', hentry'⟩ := hqueue b n' hn'
      rw [hentry, hentry'] at heq
      obtain ⟨rfl, hplace⟩ := h.once a b _ _ ha hb hlt hlt' heq
      exact ⟨rfl, Nat.add_right_cancel hplace⟩
    case known => exact fun a x ha => h.known a x ((hlive a).1 ha)
    case apart => exact fun a b x ha hb => h.apart a b x ((hlive a).1 ha) ((hlive b).1 hb)
    case across =>
      intro a ha hpeer
      rw [hlive] at ha
      rw [(hsame a).2.2] at hpeer ⊢
      exact h.across a ha hpeer
  · rw [hlive] at ha
    obtain ⟨hlt, hentry⟩ := hqueue a n hn
    rw [hentry] at heq
    obtain ⟨hal, hplace⟩ := h.once a l _ 0 ha hl hlt hpos heq
    rw [if_pos hal] at hplace
    omega

end

theorem connectSockets_server {address : SockAddr} (hjc : j ≠ c) (hjl : j ≠ l) :
    let r := (connectSockets s c l j address).sockets j
    r.used = true ∧ r.type = sockStream ∧ r.peerIndex = c ∧ r.pendingCount = 0 ∧
      r.streamRx = [] := by
  simp [connectSockets_apply hjc hjl, serverSocket]

/-- The client gets a peer, the listener a waiting connection. -/
theorem connectSockets_other {address : SockAddr} (hjc : j ≠ c) (hjl : j ≠ l) (ha : i ≠ j) :
    let r := (connectSockets s c l j address).sockets i
    r.used = (s.sockets i).used ∧ r.type = (s.sockets i).type ∧
      r.peerIndex = (if i = c then j else (s.sockets i).peerIndex) ∧
      r.streamRx = (s.sockets i).streamRx ∧
      r.pendingCount = (s.sockets i).pendingCount + (if i = l then 1 else 0) ∧
      r.pendingAccepts = if i = l then
        update (s.sockets i).pendingAccepts (s.sockets i).pendingCount j
        else (s.sockets i).pendingAccepts := by
  simp only [connectSockets_apply hjc hjl, if_neg ha]
  by_cases hic : i = c
  · subst hic
    split_ifs <;> simp [linkedClient, connectedClient, enqueuePending]
  · split_ifs <;> simp [enqueuePending]

/-- A client without a peer is connected to a new server end. -/
theorem Links.connect {address : SockAddr} (h : Links s ends wires) (hc : Holds s fd c)
    (hstream : (s.sockets c).type = sockStream) (hl : Live s l) (hj : j < maxUdpSockets)
    (hfree : ¬ Live s j) (halone : maxUdpSockets ≤ (s.sockets c).peerIndex)
    (hends : ∀ i, Live s i → i ≠ c → ends' i = ends i) (hclient : ends' c = some ⟨wires, false⟩)
    (hserver : ends' j = some ⟨wires, true⟩) :
    Links (connectSockets s c l j address) ends' (wires + 1) := by
  have hcLive := h.held fd c hc
  have hjc : j ≠ c := fun hjc => hfree (hjc ▸ hcLive)
  have hjl : j ≠ l := fun hjl => hfree (hjl ▸ hl)
  obtain ⟨hjUsed, hjType, hjPeer, hjCount, -⟩ :=
    @connectSockets_server s j l c address hjc hjl
  have hother := fun i (hi : i ≠ j) => @connectSockets_other s i j l c address hjc hjl hi
  have hfds : (connectSockets s c l j address).fds = s.fds := rfl
  generalize connectSockets s c l j address = t at hjUsed hjType hjPeer hjCount hother hfds ⊢
  have hjLive : Live t j := ⟨hj, hjUsed⟩
  have hlive : ∀ i, i ≠ j → (Live t i ↔ Live s i) := fun i hi => by rw [Live, Live, (hother i hi).1]
  have hne : ∀ i, Live s i → i ≠ j := by
    rintro i hi rfl
    exact hfree hi
  have hheld : ∀ a m, Holds t a m ↔ Holds s a m := fun a m => holds_congr hfds
  -- nobody else was linked to the client
  have hunlinked : ∀ i, Live s i → (s.sockets i).peerIndex < maxUdpSockets →
      i ≠ c ∧ (s.sockets i).peerIndex ≠ c := by
    intro i hi hpeer
    refine ⟨fun hic => ?_, fun hic => ?_⟩
    · rw [hic] at hpeer
      omega
    · obtain ⟨-, -, hback⟩ := h.peer i hi hpeer
      rw [hic] at hback
      have := hi.1
      omega
  -- an entry of a queue was there before, or is the new server end at the listener
  have hqueue : ∀ a n, a ≠ j → n < (t.sockets a).pendingCount → (n < (s.sockets a).pendingCount ∧
        (t.sockets a).pendingAccepts n = (s.sockets a).pendingAccepts n) ∨
      (a = l ∧ n = (s.sockets l).pendingCount ∧ (t.sockets a).pendingAccepts n = j) := by
    intro a n ha hn
    obtain ⟨-, -, -, -, hcount, haccepts⟩ := hother a ha
    rw [hcount] at hn
    by_cases hal : a = l
    · subst hal
      rw [if_pos rfl] at hn haccepts
      by_cases hlast : n = (s.sockets a).pendingCount
      · exact .inr ⟨rfl, hlast, by rw [haccepts, hlast, update_self]⟩
      · exact .inl ⟨by omega, by rw [haccepts, update_of_ne hlast]⟩
    · rw [if_neg hal] at hn haccepts
      exact .inl ⟨hn, by rw [haccepts]⟩
  constructor
  case grouped => exact h.grouped.congr hfds
  case held =>
    intro a m hm
    have hm' := h.held a m ((hheld a m).1 hm)
    exact (hlive m (hne m hm')).2 hm'
  case peer =>
    intro i hi hpeer
    by_cases hij : i = j
    · subst hij
      obtain ⟨hcUsed, hcType, hcPeer, -⟩ := hother c (Ne.symm hjc)
      rw [hjPeer]
      refine ⟨(hlive c (Ne.symm hjc)).2 hcLive, hcType.trans hstream, ?_⟩
      rw [hcPeer, if_pos rfl]
    · obtain ⟨-, -, hiPeer, -⟩ := hother i hij
      rw [hlive i hij] at hi
      rw [hiPeer] at hpeer ⊢
      split_ifs at hpeer ⊢ with hic
      · subst hic
        exact ⟨hjLive, hjType, hjPeer⟩
      · obtain ⟨hpLive, hpType, hback⟩ := h.peer i hi hpeer
        have hpNe := hne _ hpLive
        obtain ⟨-, hpType', hpPeer, -⟩ := hother _ hpNe
        refine ⟨(hlive _ hpNe).2 hpLive, hpType'.trans hpType, ?_⟩
        rw [hpPeer, if_neg (hunlinked i hi hpeer).2, hback]
  case pending =>
    intro a ha n hn
    by_cases haj : a = j
    · rw [haj, hjCount] at hn
      omega
    · rw [hlive a haj] at ha
      obtain ⟨hn', hentry⟩ | ⟨-, -, hentry⟩ := hqueue a n haj hn
      · obtain ⟨hp, hpType, hpServer, hpFree⟩ := h.pending a ha n hn'
        have hpNe := hne _ hp
        have hpc : (s.sockets a).pendingAccepts n ≠ c := fun hpc => hpFree fd (hpc.symm ▸ hc)
        rw [hentry]
        refine ⟨(hlive _ hpNe).2 hp, (hother _ hpNe).2.1.trans hpType, ?_, fun b hb => ?_⟩
        · rwa [hends _ hp hpc]
        · exact hpFree b ((hheld b _).1 hb)
      · rw [hentry]
        refine ⟨hjLive, hjType, ⟨wires, hserver⟩, fun b hb => ?_⟩
        exact hfree (h.held b j ((hheld b j).1 hb))
  case once =>
    intro a b n n' ha hb hn hn' heq
    have haj : a ≠ j := by
      rintro rfl
      omega
    have hbj : b ≠ j := by
      rintro rfl
      omega
    rw [hlive a haj] at ha
    rw [hlive b hbj] at hb
    obtain ⟨hlt, hentry⟩ | ⟨hal, hlast, hentry⟩ := hqueue a n haj hn <;>
      obtain ⟨hlt', hentry'⟩ | ⟨hbl, hlast', hentry'⟩ := hqueue b n' hbj hn'
    · exact h.once a b n n' ha hb hlt hlt' (by rw [← hentry, heq, hentry'])
    · rw [hentry, hentry'] at heq
      exact absurd heq (hne _ (h.pending a ha n hlt).1)
    · rw [hentry, hentry'] at heq
      exact absurd heq.symm (hne _ (h.pending b hb n' hlt').1)
    · exact ⟨hal.trans hbl.symm, hlast.trans hlast'.symm⟩
  case known =>
    intro i x hi hx
    by_cases hij : i = j
    · rw [hij, hserver, Option.some.injEq] at hx
      simp [← hx]
    · rw [hlive i hij] at hi
      by_cases hic : i = c
      · rw [hic, hclient, Option.some.injEq] at hx
        simp [← hx]
      · rw [hends i hi hic] at hx
        exact Nat.lt_succ_of_lt (h.known i x hi hx)
  case apart =>
    intro a b x ha hb hx hx'
    -- the ends of the new connection are one of a kind
    have hnew : ∀ i, Live t i → ∀ server, ends' i = some ⟨wires, server⟩ →
        i = if server then j else c := by
      intro i hi server hi'
      by_cases hij : i = j
      · rw [hij, hserver] at hi'
        simp_all
      · by_cases hic : i = c
        · rw [hic, hclient] at hi'
          simp_all
        · rw [hlive i hij] at hi
          rw [hends i hi hic] at hi'
          exact absurd (h.known i _ hi hi') (Nat.lt_irrefl _)
    by_cases hwire : x.wire = wires
    · obtain ⟨wire, server⟩ := x
      obtain rfl : wire = wires := hwire
      rw [hnew a ha server hx, hnew b hb server hx']
    · have hold : ∀ i, Live t i → ends' i = some x → Live s i ∧ ends i = some x := by
        intro i hi hi'
        have hij : i ≠ j := by
          rintro rfl
          rw [hserver, Option.some.injEq] at hi'
          exact hwire (by rw [← hi'])
        have hic : i ≠ c := by
          rintro rfl
          rw [hclient, Option.some.injEq] at hi'
          exact hwire (by rw [← hi'])
        rw [hlive i hij] at hi
        rw [hends i hi hic] at hi'
        exact ⟨hi, hi'⟩
      obtain ⟨ha', hxa⟩ := hold a ha hx
      obtain ⟨hb', hxb⟩ := hold b hb hx'
      exact h.apart a b x ha' hb' hxa hxb
  case across =>
    intro i hi hpeer
    by_cases hij : i = j
    · rw [hij, hjPeer, hserver, hclient]
      exact ⟨_, rfl, rfl⟩
    · obtain ⟨-, -, hiPeer, -⟩ := hother i hij
      rw [hlive i hij] at hi
      rw [hiPeer] at hpeer ⊢
      split_ifs at hpeer ⊢ with hic
      · rw [hic, hserver, hclient]
        exact ⟨_, rfl, rfl⟩
      · rw [hends i hi hic, hends _ (h.peer i hi hpeer).1 (hunlinked i hi hpeer).2]
        exact h.across i hi hpeer

/-! ## Bytes -/

/-- What was received at an end, with what waits there, is what was sent into the other end. -/
structure Carried (s : KernelState) (ends : Nat → Option WireEnd) (wires : Nat)
    (sent received : WireEnd → List UInt8) : Prop where
  balance : ∀ i x, Live s i → ends i = some x →
    received x ++ (s.sockets i).streamRx = sent x.other
  quiet : ∀ i, Live s i → ends i = none → (s.sockets i).streamRx = []
  inOrder : ∀ x, received x <+: sent x.other
  unborn : ∀ x : WireEnd, wires ≤ x.wire → sent x = [] ∧ received x = []

/-- Sockets go, or come without bytes; the others are as they were. -/
theorem Carried.keep (h : Carried s ends wires sent received)
    (ht : ∀ i, Live t i →
      (Live s i ∧ (t.sockets i).streamRx = (s.sockets i).streamRx ∧ ends' i = ends i) ∨
      ((t.sockets i).streamRx = [] ∧ ends' i = none)) : Carried t ends' wires sent received := by
  refine ⟨fun i x hi hx => ?_, fun i hi hx => ?_, h.inOrder, h.unborn⟩
  · obtain ⟨hi', hrx, hends⟩ | ⟨-, hends⟩ := ht i hi
    · rw [hrx]
      exact h.balance i x hi' (hends ▸ hx)
    · simp [hends] at hx
  · obtain ⟨hi', hrx, hends⟩ | ⟨hrx, -⟩ := ht i hi
    · rw [hrx]
      exact h.quiet i hi' (hends ▸ hx)
    · exact hrx

/-- Two sockets without bytes become the ends of a new connection. -/
theorem Carried.connect (h : Carried s ends wires sent received)
    (hclient : ends' c = some ⟨wires, false⟩) (hserver : ends' j = some ⟨wires, true⟩)
    (hc : (t.sockets c).streamRx = []) (hj : (t.sockets j).streamRx = [])
    (ht : ∀ i, Live t i → i ≠ c → i ≠ j →
      Live s i ∧ (t.sockets i).streamRx = (s.sockets i).streamRx ∧ ends' i = ends i) :
    Carried t ends' (wires + 1) sent received := by
  have hempty : ∀ server, sent ⟨wires, server⟩ = [] ∧ received ⟨wires, server⟩ = [] :=
    fun server => h.unborn _ (Nat.le_refl _)
  refine ⟨fun i x hi hx => ?_, fun i hi hx => ?_, h.inOrder, fun x hx => h.unborn x (by omega)⟩
  · by_cases hic : i = c
    · obtain rfl : ⟨wires, false⟩ = x := Option.some.inj (hclient.symm.trans (hic ▸ hx))
      rw [hic, hc, (hempty false).2]
      exact (hempty true).1.symm
    · by_cases hij : i = j
      · obtain rfl : ⟨wires, true⟩ = x := Option.some.inj (hserver.symm.trans (hij ▸ hx))
        rw [hij, hj, (hempty true).2]
        exact (hempty false).1.symm
      · obtain ⟨hi', hrx, hends⟩ := ht i hi hic hij
        rw [hrx]
        exact h.balance i x hi' (hends ▸ hx)
  · by_cases hic : i = c
    · rw [hic, hc]
    · by_cases hij : i = j
      · rw [hij, hj]
      · obtain ⟨hi', hrx, hends⟩ := ht i hi hic hij
        rw [hrx]
        exact h.quiet i hi' (hends ▸ hx)

variable {x : WireEnd}

section
variable (h : Carried s ends wires sent received) (hlinks : Links s ends wires)
include h hlinks

theorem Carried.send {bytes : List UInt8} (hj : Live s j) (hx : ends j = some x.other)
    (ht : t.sockets = update s.sockets j
      { s.sockets j with streamRx := (s.sockets j).streamRx ++ bytes }) :
    Carried t ends wires (update sent x (sent x ++ bytes)) received := by
  have hlive : ∀ i, Live t i ↔ Live s i := by
    intro i
    by_cases hi : i = j <;> simp [Live, ht, hi]
  have hwire : x.other.wire < wires := hlinks.known j _ hj hx
  refine ⟨fun i y hi hy => ?_, fun i hi hy => ?_, fun y => ?_, fun y hy => ?_⟩
  · rw [hlive] at hi
    have hold := h.balance i y hi hy
    by_cases hij : i = j
    · subst hij
      obtain rfl : x.other = y := Option.some.inj (hx.symm.trans hy)
      rw [WireEnd.other_other] at hold ⊢
      simp [ht, ← hold]
    · have hyx : y.other ≠ x := by
        rintro rfl
        rw [WireEnd.other_other] at hx
        exact hij (hlinks.apart i j y hi hj hy hx)
      rw [update_of_ne hyx]
      simpa [ht, hij] using hold
  · rw [hlive] at hi
    have hij : i ≠ j := by
      rintro rfl
      simp [hx] at hy
    simpa [ht, hij] using h.quiet i hi hy
  · by_cases hyx : y.other = x
    · subst hyx
      rw [update_self]
      exact (h.inOrder y).trans (List.prefix_append _ _)
    · rw [update_of_ne hyx]
      exact h.inOrder y
  · have hyx : y ≠ x := by
      rintro rfl
      exact absurd hy (Nat.not_le.2 hwire)
    rw [update_of_ne hyx]
    exact h.unborn y hy

theorem Carried.recv {bytes rest : List UInt8} (hi : Live s i)
    (hx : ends i = some x) (hrx : (s.sockets i).streamRx = bytes ++ rest)
    (ht : t.sockets = update s.sockets i { s.sockets i with streamRx := rest }) :
    Carried t ends wires sent (update received x (received x ++ bytes)) := by
  have hlive : ∀ j, Live t j ↔ Live s j := by
    intro j
    by_cases hj : j = i <;> simp [Live, ht, hj]
  have hbalance := h.balance i x hi hx
  rw [hrx, ← List.append_assoc] at hbalance
  refine ⟨fun j y hj hy => ?_, fun j hj hy => ?_, fun y => ?_, fun y hy => ?_⟩
  · rw [hlive] at hj
    by_cases hji : j = i
    · subst hji
      obtain rfl : x = y := Option.some.inj (hx.symm.trans hy)
      simpa [ht] using hbalance
    · have hyx : y ≠ x := by
        rintro rfl
        exact hji (hlinks.apart j i y hj hi hy hx)
      rw [update_of_ne hyx]
      simpa [ht, hji] using h.balance j y hj hy
  · rw [hlive] at hj
    have hji : j ≠ i := by
      rintro rfl
      simp [hx] at hy
    simpa [ht, hji] using h.quiet j hj hy
  · by_cases hyx : y = x
    · subst hyx
      rw [update_self]
      exact ⟨rest, hbalance⟩
    · rw [update_of_ne hyx]
      exact h.inOrder y
  · have hyx : y ≠ x := by
      rintro rfl
      have := hlinks.known i y hi hx
      omega
    rw [update_of_ne hyx]
    exact h.unborn y hy

end

end RadKernel.Net
