import RadKernel.Fd.Frame
import RadKernel.Net.Connect

/-!
# Ports of datagram sockets

`rad_socket_bind` turns down a port that another socket of the type has. `rad_socket_sendto` gives
a socket without a port the one that belongs to its index, and does not look whether another
socket was bound to it before.
-/

namespace RadKernel.Net

open Kernel Fd

/-! ## The property -/

/-- The socket gets the datagrams for the port. -/
def Serves (r : SocketRecord) (port : Nat) : Prop :=
  r.used = true ∧ r.type = sockDgram ∧ r.localPort = port ∧ port ≠ 0

instance Serves.decidable (r : SocketRecord) (port : Nat) : Decidable (Serves r port) :=
  inferInstanceAs (Decidable (_ ∧ _))

def Bound (s : KernelState) (i port : Nat) : Prop := i < maxUdpSockets ∧ Serves (s.sockets i) port

/-- Datagram sockets have different ports, and each gets the datagrams for its port. -/
structure Apart (s : KernelState) : Prop where
  unique : ∀ i j port, Bound s i port → Bound s j port → i = j
  queued : ∀ i port sender payload, Bound s i port → deliver s port sender payload =
    ((enqueueUdpDatagram (s.sockets i) sender payload).1,
      setSocket s i (enqueueUdpDatagram (s.sockets i) sender payload).2)

inductive UdpCall where
  | call (call : Call)
  | sendto (fd : Int) (buffer : List UInt8) (address : SockAddr) (own : Ipv4Address)
      (frames : List Frame) (sent : Status)
  | recvfrom (fd : Int) (size : Nat) (frames : List Frame)
  deriving DecidableEq

/-- A call of process `e.1`. -/
def udpStep (s : KernelState) (e : Nat × UdpCall) : KernelState :=
  match e.2 with
  | .call c => (c.perform e.1 s).2
  | .sendto fd buffer address own frames sent =>
    (radSocketSendto s e.1 fd buffer address own frames sent).2
  | .recvfrom fd size frames => (radSocketRecvfrom s e.1 fd size frames).2

/-- The state in which a call dispatches datagrams: `rad_socket_sendto` has named its socket. -/
def named (s : KernelState) (e : Nat × UdpCall) : KernelState :=
  match e.2 with
  | .sendto fd _ address own _ _ =>
    if address.family ≠ afInet ∨ address.port = 0 then s
    else
      match socketFromFd s e.1 fd with
      | none => s
      | some i => setSocket s i (namedSender (s.sockets i) i own)
  | _ => s

def automaticPort (i : Nat) : Nat := 49152 + i % 1024

/-- If `rad_socket_sendto` assigns a port to a datagram socket, no other one has it. -/
def Unclaimed (s : KernelState) (e : Nat × UdpCall) : Prop :=
  match e.2 with
  | .sendto fd _ address _ _ _ => address.family = afInet → address.port ≠ 0 →
      ∀ i ∈ socketFromFd s e.1 fd, (s.sockets i).type = sockDgram → (s.sockets i).localPort = 0 →
        ∀ j < maxUdpSockets, j ≠ i → ¬Serves (s.sockets j) (automaticPort i)
  | _ => True

instance Unclaimed.decidable (s : KernelState) : ∀ e, Decidable (Unclaimed s e)
  | (pid, .sendto fd _ address _ _ _) =>
    inferInstanceAs (Decidable (address.family = afInet → address.port ≠ 0 →
      ∀ i ∈ socketFromFd s pid fd, (s.sockets i).type = sockDgram → (s.sockets i).localPort = 0 →
        ∀ j < maxUdpSockets, j ≠ i → ¬Serves (s.sockets j) (automaticPort i)))
  | (_, .call _) | (_, .recvfrom _ _ _) => isTrue trivial

variable {s t u : KernelState} {r : SocketRecord} {i j k port : Nat}

theorem Apart.of_unique (h : ∀ i j port, Bound s i port → Bound s j port → i = j) : Apart s := by
  refine ⟨h, fun i port sender payload hi => ?_⟩
  obtain ⟨hlt, hused, htype, hport, hne⟩ := hi
  have hfind : findSocket s sockDgram port = some i := by
    refine findSocket_eq hne hlt hused htype hport fun k hk hused' htype' hport' => ?_
    have hsame := h i k port ⟨hlt, hused, htype, hport, hne⟩ ⟨by omega, hused', htype', hport', hne⟩
    omega
  simp [deliver, hfind]

theorem findSocket_none (h : findSocket s sockDgram port = none) (hi : i < maxUdpSockets) :
    ¬Serves (s.sockets i) port := by
  rintro ⟨hused, htype, hport, hne⟩
  unfold findSocket at h
  rw [if_neg hne, List.find?_eq_none] at h
  exact h i (List.mem_range.2 hi) (by simp [hused, htype, hport])

/-! ## Calls that bind no socket -/

/-- Every bound socket was bound to the port before. -/
def NoNewPorts (s t : KernelState) : Prop := ∀ i port, Bound t i port → Bound s i port

theorem Apart.mono (h : Apart s) (hports : NoNewPorts s t) : Apart t :=
  .of_unique fun i j port hi hj => h.unique i j port (hports i port hi) (hports j port hj)

namespace NoNewPorts

theorem refl (s : KernelState) : NoNewPorts s s := fun _ _ hi => hi

theorem trans (h : NoNewPorts s t) (h' : NoNewPorts t u) : NoNewPorts s u :=
  fun _ _ hi => h _ _ (h' _ _ hi)

theorem of_sockets (h : t.sockets = s.sockets) : NoNewPorts s t :=
  fun _ _ hi => ⟨hi.1, h ▸ hi.2⟩

theorem setSocket (h : NoNewPorts s t) (hr : ∀ port, Serves r port → Serves (t.sockets i) port) :
    NoNewPorts s (setSocket t i r) := by
  refine h.trans fun j port hj => ⟨hj.1, ?_⟩
  have hserves := hj.2
  by_cases hji : j = i
  · subst hji
    exact hr port (by simpa [Fd.setSocket] using hserves)
  · simpa [Fd.setSocket, hji] using hserves

/-- A change of a record that leaves its port alone. -/
theorem keepPort (h : NoNewPorts s t) (hused : r.used = (t.sockets i).used)
    (htype : r.type = (t.sockets i).type) (hport : r.localPort = (t.sockets i).localPort) :
    NoNewPorts s (Fd.setSocket t i r) :=
  h.setSocket fun _ hr => ⟨hused ▸ hr.1, htype ▸ hr.2.1, hport ▸ hr.2.2.1, hr.2.2.2⟩

theorem clear (h : NoNewPorts s t) (i : Nat) : NoNewPorts s (Fd.setSocket t i {}) :=
  h.setSocket fun _ hr => absurd hr.1 (by simp)

theorem ignores (s : KernelState) : Ignores (NoNewPorts s) where
  table _ _ h := h.trans (of_sockets rfl)
  handles _ _ h := h.trans (of_sockets rfl)
  pipe t k w h := by
    refine h.trans (of_sockets ?_)
    unfold closePipeEnd
    split <;> rfl
  socket := closeSocket_rule (fun _ _ h => h.clear _) fun _ _ _ h => h.keepPort rfl rfl rfl

theorem install (h : NoNewPorts s t) (caller : Int) (source : FdRecord) (requested : Int) :
    NoNewPorts s (installFdRecord t caller source requested).2 :=
  (ignores s).install h caller source requested

end NoNewPorts

theorem noNewPorts_boot (console : Bool) (processes : Nat → ProcessRecord) :
    NoNewPorts {} (boot console processes) := by
  have hopen : ∀ {t : KernelState} (fd : Int), NoNewPorts {} t →
      NoNewPorts {} (openStdioFd t fd) := by
    intro t fd h
    have hopened : NoNewPorts {} { t with opened := t.opened + 1 } := h.trans (.of_sockets rfl)
    exact hopened.install _ _ _
  have hs : NoNewPorts {} { processes := processes } := .of_sockets rfl
  unfold boot
  split
  · exact hopen 2 (hopen 1 (hopen 0 hs))
  · exact hs

theorem apart_boot (console : Bool) (processes : Nat → ProcessRecord) :
    Apart (boot console processes) := by
  have hempty : Apart {} := .of_unique fun i j port hi => absurd hi.2.1 (by simp)
  exact hempty.mono (noNewPorts_boot console processes)

theorem radSocketCreate_ports (s : KernelState) (pid domain type protocol : Int) :
    NoNewPorts s (radSocketCreate s pid domain type protocol).2 := by
  unfold radSocketCreate
  split
  · exact .refl s
  · split
    · exact .refl s
    · split
      · exact .refl s
      · next i _ =>
        -- the new socket has no port
        have hnew : NoNewPorts s (setSocket s i (newSocket domain type ‹Int›)) :=
          (NoNewPorts.refl s).setSocket fun port hr => absurd hr.2.2.1.symm hr.2.2.2
        dsimp only
        split
        · exact (hnew.install _ _ _).clear _
        · exact hnew.install _ _ _

theorem radSocketAccept_ports (s : KernelState) (pid fd : Int) :
    NoNewPorts s (radSocketAccept s pid fd).2 := by
  unfold radSocketAccept
  split
  · exact .refl s
  · dsimp only
    split_ifs
    · exact .refl s
    · exact .refl s
    · exact .refl s
    · refine NoNewPorts.install ?_ _ _ _
      exact (NoNewPorts.refl s).keepPort rfl rfl rfl

/-- A client and the server's end are stream sockets. -/
theorem radSocketConnect_ports (s : KernelState) (pid fd : Int) (address : SockAddr) :
    NoNewPorts s (radSocketConnect s pid fd address).2 := by
  unfold radSocketConnect
  split
  · exact .refl s
  · next c l j hparties =>
    obtain ⟨-, -, -, htype, -⟩ := connectParties_ok hparties
    have hclient : NoNewPorts s (setSocket s c (connectedClient (s.sockets c) c address)) := by
      apply (NoNewPorts.refl s).setSocket
      intro port hr
      have hdgram : (s.sockets c).type = sockDgram := hr.2.1
      rw [htype] at hdgram
      exact absurd hdgram (by decide)
    have hserver := hclient.setSocket (i := j)
      (r := serverSocket ((setSocket s c (connectedClient (s.sockets c) c address)).sockets l)
        ((setSocket s c (connectedClient (s.sockets c) c address)).sockets c) c)
      fun port hr => absurd (show (sockStream : Int) = sockDgram from hr.2.1) (by decide)
    apply NoNewPorts.keepPort
    · exact hserver.keepPort rfl rfl rfl
    all_goals rfl

theorem perform_ports {c : Call} {pid : Nat} (hc : ∀ fd address, c ≠ .bind fd address) :
    NoNewPorts s (c.perform pid s).2 := by
  have hs := NoNewPorts.refl s
  cases c with
  | socket domain type protocol => exact radSocketCreate_ports s _ _ _ _
  | bind fd address => exact absurd rfl (hc fd address)
  | listen fd backlog =>
    simp only [Call.perform, radSocketListen]
    split
    · exact hs
    · split
      · exact hs
      · exact hs.keepPort rfl rfl rfl
  | connect fd address => exact radSocketConnect_ports s _ _ _
  | accept fd => exact radSocketAccept_ports s _ _
  | send fd buffer =>
    simp only [Call.perform, radSocketSend]
    split
    · exact hs
    · split_ifs
      · exact hs
      · exact hs
      · exact hs.keepPort rfl rfl rfl
  | recv fd size =>
    simp only [Call.perform, radSocketRecv]
    split
    · exact hs
    · split_ifs
      · exact hs
      · exact hs.keepPort rfl rfl rfl
  | shutdown fd how =>
    simp only [Call.perform, radSocketShutdown]
    split
    · exact hs
    · exact hs.keepPort rfl rfl rfl
  | dup fd => exact (NoNewPorts.ignores s).survives.radFdDup hs _ _
  | close fd => exact (NoNewPorts.ignores s).survives.radFdClose hs _ _

/-! ## Datagrams -/

theorem enqueueUdpDatagram_port (r : SocketRecord) (sender : SockAddr) (payload : List UInt8) :
    (enqueueUdpDatagram r sender payload).2.used = r.used ∧
      (enqueueUdpDatagram r sender payload).2.type = r.type ∧
      (enqueueUdpDatagram r sender payload).2.localPort = r.localPort := by
  unfold enqueueUdpDatagram
  split
  · exact ⟨rfl, rfl, rfl⟩
  · split <;> exact ⟨rfl, rfl, rfl⟩

theorem takeDatagram_port (r : SocketRecord) (size : Nat) :
    (takeDatagram r size).2.used = r.used ∧ (takeDatagram r size).2.type = r.type ∧
      (takeDatagram r size).2.localPort = r.localPort := by
  unfold takeDatagram
  split <;> exact ⟨rfl, rfl, rfl⟩

theorem NoNewPorts.deliver (h : NoNewPorts s t) (port : Nat) (sender : SockAddr)
    (payload : List UInt8) : NoNewPorts s (deliver t port sender payload).2 := by
  unfold Net.deliver
  split
  · exact h
  · next i _ =>
    obtain ⟨hused, htype, hport⟩ := enqueueUdpDatagram_port (t.sockets i) sender payload
    exact h.keepPort hused htype hport

theorem NoNewPorts.poll (h : NoNewPorts s t) (frames : List Frame) :
    NoNewPorts s (pollNetworkForUdp t frames) := by
  induction frames generalizing t with
  | nil => exact h
  | cons f frames ih => exact ih (h.deliver _ _ _)

theorem radSocketRecvfrom_ports (s : KernelState) (pid fd : Int) (size : Nat)
    (frames : List Frame) : NoNewPorts s (radSocketRecvfrom s pid fd size frames).2 := by
  unfold radSocketRecvfrom
  split
  · exact .refl s
  · next i _ =>
    obtain ⟨hused, htype, hport⟩ :=
      takeDatagram_port ((pollNetworkForUdp s frames).sockets i) size
    exact ((NoNewPorts.refl s).poll frames).keepPort hused htype hport

theorem radSocketSendto_ports (s : KernelState) (pid : Nat) (fd : Int) (buffer : List UInt8)
    (address : SockAddr) (own : Ipv4Address) (frames : List Frame) (sent : Status) :
    NoNewPorts (named s (pid, .sendto fd buffer address own frames sent))
      (radSocketSendto s pid fd buffer address own frames sent).2 := by
  simp only [named, radSocketSendto]
  split
  · exact .refl _
  · cases socketFromFd s pid fd with
    | none => exact .refl _
    | some i =>
      have hnamed := NoNewPorts.refl (setSocket s i (namedSender (s.sockets i) i own))
      dsimp only
      split
      · split
        · exact hnamed.deliver _ _ _
        · exact (hnamed.deliver _ _ _).poll _
      · exact hnamed.poll _

/-! ## Calls that bind a socket -/

theorem Apart.bind (h : Apart s) (hports : ∀ k port, Bound t k port → Bound s k port ∨
      (k = i ∧ ∀ j < maxUdpSockets, j ≠ i → ¬Serves (s.sockets j) port)) : Apart t := by
  refine .of_unique fun j k port hj hk => ?_
  rcases hports j port hj with hj' | ⟨rfl, hfree⟩
  · rcases hports k port hk with hk' | ⟨rfl, hfree⟩
    · exact h.unique j k port hj' hk'
    · by_contra hne
      exact hfree j hj'.1 hne hj'.2
  · rcases hports k port hk with hk' | ⟨rfl, -⟩
    · by_contra hne
      exact hfree k hk'.1 (Ne.symm hne) hk'.2
    · rfl

theorem Apart.radSocketBind (h : Apart s) (pid fd : Int) (address : SockAddr) :
    Apart (radSocketBind s pid fd address).2 := by
  unfold Net.radSocketBind
  split
  · exact h
  · next haddress =>
    split
    · exact h
    · next i hi =>
      dsimp only
      split
      · exact h
      · next hfound =>
        refine h.bind (i := i) fun k port hk => ?_
        by_cases hki : k = i
        · subst hki
          obtain ⟨hlt, hr⟩ := hk
          simp only [setSocket, Function.update_self] at hr
          obtain ⟨hused, htype, rfl, hpos⟩ := hr
          refine .inr ⟨rfl, fun j hj hne hserves => ?_⟩
          rw [htype] at hfound
          cases hother : findSocket s sockDgram address.port with
          | none => exact findSocket_none hother hj hserves
          | some l =>
            have hlk : l = k := by simpa [hother] using hfound
            subst hlk
            obtain ⟨-, hused', htype', hport', -⟩ := findSocket_some hother
            exact hne (h.unique j l address.port ⟨hj, hserves⟩ ⟨hlt, hused', htype', hport', hpos⟩)
        · exact .inl ⟨hk.1, by simpa [setSocket, hki] using hk.2⟩

variable {e : Nat × UdpCall}

theorem Apart.named (h : Apart s) (he : Unclaimed s e) : Apart (named s e) := by
  obtain ⟨pid, c⟩ := e
  cases c with
  | call c => exact h
  | recvfrom fd size frames => exact h
  | sendto fd buffer address own frames sent =>
    simp only [Net.named]
    split
    · exact h
    · next haddress =>
      push Not at haddress
      split
      · exact h
      · next i hi =>
        refine h.bind (i := i) fun k port hk => ?_
        by_cases hki : k = i
        · subst hki
          obtain ⟨hlt, hr⟩ := hk
          simp only [setSocket, Function.update_self] at hr
          obtain ⟨hused, htype, hport, hpos⟩ := hr
          simp only [namedSender] at hport
          split at hport
          · next hnone =>
            subst hport
            exact .inr ⟨rfl, he haddress.1 haddress.2 k hi htype hnone⟩
          · exact .inl ⟨hlt, hused, htype, hport, hpos⟩
        · exact .inl ⟨hk.1, by simpa [setSocket, hki] using hk.2⟩

/-! ## Runs -/

theorem Apart.step (h : Apart s) (he : Unclaimed s e) : Apart (udpStep s e) := by
  obtain ⟨pid, c⟩ := e
  cases c with
  | call c =>
    by_cases hbind : ∃ fd address, c = .bind fd address
    · obtain ⟨fd, address, rfl⟩ := hbind
      exact h.radSocketBind _ _ _
    · push Not at hbind
      exact h.mono (perform_ports hbind)
  | sendto fd buffer address own frames sent =>
    exact (h.named he).mono (radSocketSendto_ports s _ _ _ _ _ _ _)
  | recvfrom fd size frames => exact h.mono (radSocketRecvfrom_ports s _ _ _ _)

/-- The tables before the first call. -/
def Cold (s : KernelState) : Prop := ∃ console processes, s = boot console processes

theorem apart_of_steps (h : Run (Obeys udpStep Unclaimed) Cold s) : Apart s := by
  apply h.invariant
  · rintro s ⟨console, processes, rfl⟩
    exact apart_boot console processes
  · rintro s e _ hs ⟨he, rfl⟩
    exact hs.step he

/-- In every run in which `rad_socket_sendto` assigns no port that is in use, datagram sockets have
different ports, between the calls and while a call dispatches datagrams. -/
theorem apart_of_run (h : Run (Obeys udpStep Unclaimed) Cold s) : Apart s ∧
    ∀ e, Unclaimed s e → ∀ frames, Apart (pollNetworkForUdp (named s e) frames) := by
  have hs := apart_of_steps h
  refine ⟨hs, fun e he frames => ?_⟩
  exact (hs.named he).mono ((NoNewPorts.refl _).poll frames)

/-- The first of two datagram sockets is bound to the port, the second sends without one. -/
def boundThenSent (port : Nat) : List (Nat × UdpCall) :=
  [(1, .call (.socket afInet sockDgram 0)), (1, .call (.socket afInet sockDgram 0)),
    (1, .call (.bind 3 ⟨afInet, port, {}⟩)), (1, .sendto 4 [1] ⟨afInet, port, {}⟩ {} [] .ok)]

theorem apart_boundThenSent : Apart ((boundThenSent 7).foldl udpStep (boot false fun _ => {})) ∧
    ∀ e, Unclaimed ((boundThenSent 7).foldl udpStep (boot false fun _ => {})) e → ∀ frames,
      Apart (pollNetworkForUdp
        (named ((boundThenSent 7).foldl udpStep (boot false fun _ => {})) e) frames) :=
  apart_of_run (.along _ (.start ⟨false, fun _ => {}, rfl⟩) (by decide +kernel))

/-- The port was the one that belongs to the second socket. -/
theorem not_apart_boundThenSent : ¬∀ s, Run (Obeys udpStep fun _ _ => True) Cold s → Apart s := by
  intro h
  have hapart := h _ (.foldl (boundThenSent 49153) (.start ⟨false, fun _ => {}, rfl⟩))
  have hsame := hapart.unique 0 1 49153 ⟨by decide, by decide +kernel⟩ ⟨by decide, by decide +kernel⟩
  exact absurd hsame (by decide)

end RadKernel.Net
