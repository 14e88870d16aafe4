import RadKernel.Net.Model
import RadKernel.Lib.Run

/-!
# Which listener a connection reaches

`rad_socket_connect` looks the listener up by its port among all stream sockets. Server ends
carry the port of their listener too, so one that got a lower record hides it.
-/

namespace RadKernel.Net

open Kernel Fd

variable {s t : KernelState} {pid fd : Int} {address : SockAddr} {c l j k : Nat}

theorem freeSocket_some (h : freeSocket s = some j) : j < maxUdpSockets ∧ ¬(s.sockets j).used := by
  obtain ⟨hp, hmem, -⟩ := List.find?_range_eq_some.1 h
  exact ⟨List.mem_range.1 hmem, by simpa using hp⟩

variable {type : Int} {port : Nat}

theorem findSocket_some (h : findSocket s type port = some l) :
    l < maxUdpSockets ∧ (s.sockets l).used ∧ (s.sockets l).type = type ∧
      (s.sockets l).localPort = port ∧
      ∀ i < l, (s.sockets i).used → (s.sockets i).type = type → (s.sockets i).localPort ≠ port := by
  unfold findSocket at h
  split_ifs at h with hport
  obtain ⟨hp, hmem, hbelow⟩ := List.find?_range_eq_some.1 h
  simp only [decide_eq_true_eq] at hp
  refine ⟨List.mem_range.1 hmem, hp.1, hp.2.1, hp.2.2, fun i hi hused htype hlocal => ?_⟩
  have := hbelow i hi
  simp [hused, htype, hlocal] at this

theorem findSocket_eq (hport : port ≠ 0) (hl : l < maxUdpSockets)
    (hused : (s.sockets l).used) (htype : (s.sockets l).type = type)
    (hlocal : (s.sockets l).localPort = port)
    (hbelow : ∀ i < l, (s.sockets i).used → (s.sockets i).type = type →
      (s.sockets i).localPort ≠ port) : findSocket s type port = some l := by
  unfold findSocket
  rw [if_neg hport, List.find?_range_eq_some]
  refine ⟨by simp [hused, htype, hlocal], List.mem_range.2 hl, fun i hi => ?_⟩
  grind

theorem socketFromFd_some (h : socketFromFd s pid fd = some c) :
    c < maxUdpSockets ∧ (s.sockets c).used := by
  unfold socketFromFd at h
  split at h
  · split_ifs at h with hr
    obtain rfl := Option.some.inj h
    exact hr.2
  · simp at h

/-- The parties of a connection: the client behind the descriptor, the first stream socket with
the port, which listens and has room, and a free record. -/
theorem connectParties_ok (h : connectParties s pid fd address = .ok (c, l, j)) :
    address.family = afInet ∧ address.port ≠ 0 ∧ socketFromFd s pid fd = some c ∧
      (s.sockets c).type = sockStream ∧ findSocket s sockStream address.port = some l ∧
      (s.sockets l).tcpState = .listen ∧ (s.sockets l).pendingCount < maxUdpSockets ∧
      freeSocket s = some j := by
  unfold connectParties at h
  split_ifs at h with haddress
  push Not at haddress
  cases hclient : socketFromFd s pid fd with
  | none => simp [hclient] at h
  | some c' =>
    simp only [hclient] at h
    split_ifs at h with htype
    cases hlistener : findSocket s sockStream address.port with
    | none => simp [hlistener] at h
    | some l' =>
      simp only [hlistener] at h
      split_ifs at h with hlisten
      push Not at hlisten
      cases hfree : freeSocket s with
      | none => simp [hfree] at h
      | some j' =>
        simp only [hfree, Except.ok.injEq, Prod.mk.injEq] at h
        obtain ⟨rfl, rfl, rfl⟩ := h
        exact ⟨haddress.1, haddress.2, rfl, by simpa using htype, rfl, hlisten.1,
          by omega, rfl⟩

def linkedClient (r : SocketRecord) (client server : Nat) (address : SockAddr) : SocketRecord :=
  { connectedClient r client address with peerIndex := server }

theorem connectSockets_apply (hjc : j ≠ c) (hjl : j ≠ l) (k : Nat) :
    (connectSockets s c l j address).sockets k =
      if k = j then
        serverSocket (Function.update s.sockets c (connectedClient (s.sockets c) c address) l)
          (connectedClient (s.sockets c) c address) c
      else
        let r := if k = c then linkedClient (s.sockets c) c j address else s.sockets k
        if k = l then enqueuePending r j else r := by
  unfold connectSockets
  dsimp only [setSocket, linkedClient]
  by_cases hkj : k = j
  · subst hkj
    simp [hjc, hjl]
  · by_cases hkl : k = l
    · subst hkl
      by_cases hkc : k = c
      · subst hkc
        simp [hkj]
      · simp [hkj, hkc]
    · by_cases hkc : k = c
      · subst hkc
        simp [hkj, hkl]
      · simp [hkj, hkl, hkc]

/-- From `s` to `t` a server end for the client `c`, in a record that was free, was appended to
the queue of `l`. -/
structure Appended (s t : KernelState) (l c : Nat) : Prop where
  count : (t.sockets l).pendingCount = (s.sockets l).pendingCount + 1
  earlier : ∀ k < (s.sockets l).pendingCount,
    (t.sockets l).pendingAccepts k = (s.sockets l).pendingAccepts k
  server : ∃ j < maxUdpSockets, (t.sockets l).pendingAccepts (s.sockets l).pendingCount = j ∧
    ¬(s.sockets j).used ∧ (t.sockets j).used ∧ (t.sockets j).type = sockStream ∧
    (t.sockets j).tcpState = .established ∧ (t.sockets j).localPort = (s.sockets l).localPort ∧
    (t.sockets j).peerIndex = c

section
variable (hc : (s.sockets c).used) (hl : (s.sockets l).used)
include hc hl

theorem connectSockets_appended
    (hport : (s.sockets l).localPort ≠ 0) (hj : j < maxUdpSockets) (hfree : ¬(s.sockets j).used) :
    Appended s (connectSockets s c l j address) l c := by
  have hjc : j ≠ c := fun h => hfree (h ▸ hc)
  have hjl : j ≠ l := fun h => hfree (h ▸ hl)
  have hat := fun k => @connectSockets_apply s address c l j hjc hjl k
  have hatl := hat l
  have hatj := hat j
  rw [if_pos rfl] at hatj
  rw [if_neg (Ne.symm hjl)] at hatl
  simp only [if_true] at hatl
  have hsame : ∀ r : SocketRecord, r = (if l = c then linkedClient (s.sockets c) c j address
      else s.sockets l) → r.pendingCount = (s.sockets l).pendingCount ∧
        r.pendingAccepts = (s.sockets l).pendingAccepts := by
    rintro r rfl
    split_ifs with hlc
    · subst hlc
      exact ⟨rfl, rfl⟩
    · exact ⟨rfl, rfl⟩
  obtain ⟨hcount, haccepts⟩ := hsame _ rfl
  refine ⟨?_, fun k hk => ?_, j, hj, ?_, hfree, ?_, ?_, ?_, ?_, ?_⟩
  · rw [hatl, enqueuePending, hcount]
  · rw [hatl, enqueuePending]
    dsimp only
    rw [hcount, haccepts, Function.update_of_ne (by omega)]
  · rw [hatl, enqueuePending]
    dsimp only
    rw [hcount, Function.update_self]
  all_goals rw [hatj]
  · rfl
  · rfl
  · rfl
  · by_cases hlc : l = c
    · subst hlc
      simp [serverSocket, connectedClient, hport]
    · simp [serverSocket, hlc]
  · rfl

/-- Only the queue of the listener that was found grows. -/
theorem connectSockets_count (hfree : ¬(s.sockets j).used) (hk : (s.sockets k).used) (hkl : k ≠ l) :
    ((connectSockets s c l j address).sockets k).pendingCount = (s.sockets k).pendingCount := by
  have hjc : j ≠ c := fun h => hfree (h ▸ hc)
  have hjl : j ≠ l := fun h => hfree (h ▸ hl)
  have hkj : k ≠ j := fun h => hfree (h ▸ hk)
  rw [connectSockets_apply hjc hjl, if_neg hkj]
  split_ifs with hkc
  · subst hkc
    rfl
  · rfl

end

/-- A stream socket `c` that connects to a port on which `l` listens with room, while a record
is free, reaches `l` if and only if no lower record in use is a stream socket of that port. -/
theorem connect_reaches_iff (hclient : socketFromFd s pid fd = some c)
    (hstream : (s.sockets c).type = sockStream) (hfamily : address.family = afInet)
    (hport : address.port ≠ 0) (hl : l < maxUdpSockets) (hused : (s.sockets l).used)
    (htype : (s.sockets l).type = sockStream) (hbound : (s.sockets l).localPort = address.port)
    (hlisten : (s.sockets l).tcpState = .listen)
    (hroom : (s.sockets l).pendingCount < maxUdpSockets) (hslot : (freeSocket s).isSome) :
    ((radSocketConnect s pid fd address).1 = .ok ∧
        Appended s (radSocketConnect s pid fd address).2 l c) ↔
      ∀ i < l, (s.sockets i).used → (s.sockets i).type = sockStream →
        (s.sockets i).localPort ≠ address.port := by
  obtain ⟨-, hcused⟩ := socketFromFd_some hclient
  obtain ⟨j, hfree⟩ := Option.isSome_iff_exists.1 hslot
  obtain ⟨hj, hjfree⟩ := freeSocket_some hfree
  constructor
  · rintro ⟨hok, happended⟩
    unfold radSocketConnect at hok happended
    cases hparties : connectParties s pid fd address with
    | error status =>
      simp only [hparties] at happended
      have := happended.count
      omega
    | ok parties =>
      obtain ⟨c', l', j'⟩ := parties
      obtain ⟨-, -, hclient', -, hfind, -, -, hfree'⟩ := connectParties_ok hparties
      obtain rfl : c = c' := Option.some.inj (hclient.symm.trans hclient')
      obtain ⟨-, hused', -, -, hbelow⟩ := findSocket_some hfind
      obtain ⟨-, hjfree'⟩ := freeSocket_some hfree'
      simp only [hparties] at happended
      by_cases hll : l = l'
      · subst hll
        exact hbelow
      · have hcount := happended.count
        rw [connectSockets_count hcused hused' hjfree' hused hll] at hcount
        omega
  · intro hbelow
    have hfind := findSocket_eq hport hl hused htype hbound hbelow
    have hparties : connectParties s pid fd address = .ok (c, l, j) := by
      simp [connectParties, hfamily, hport, hclient, hstream, hfind, hlisten, hfree, hroom]
    simp only [radSocketConnect, hparties, true_and]
    exact connectSockets_appended hcused hused (by omega) hj hjfree

/-- One process with a socket in record 0, a listener on port 80 in record 1 and a client in
record 2. It closes the first socket, the client connects, and a second client is made. -/
def hiddenListener : List (Nat × Call) :=
  [(1, .socket afInet sockStream 0), (1, .socket afInet sockStream 0),
    (1, .bind 4 ⟨afInet, 80, {}⟩), (1, .listen 4 1), (1, .socket afInet sockStream 0),
    (1, .close 3), (1, .connect 5 ⟨afInet, 80, {}⟩), (1, .socket afInet sockStream 0)]

/-- Without the socket in record 0. -/
def seenListener : List (Nat × Call) :=
  [(1, .socket afInet sockStream 0), (1, .bind 3 ⟨afInet, 80, {}⟩), (1, .listen 3 1),
    (1, .socket afInet sockStream 0)]

theorem connect_reaches_seenListener :
    let s := seenListener.foldl callStep (boot false fun _ => {})
    (radSocketConnect s 1 4 ⟨afInet, 80, {}⟩).1 = .ok ∧
      Appended s (radSocketConnect s 1 4 ⟨afInet, 80, {}⟩).2 0 1 :=
  (connect_reaches_iff (by decide +kernel) (by decide +kernel) (by decide +kernel)
    (by decide +kernel) (by decide +kernel) (by decide +kernel) (by decide +kernel)
    (by decide +kernel) (by decide +kernel) (by decide +kernel) (by decide +kernel)).2
    (by decide +kernel)

/-- The server end in record 0 has the listener's port, and the second client is turned down. -/
theorem not_reaches_hiddenListener :
    ¬∀ s, Run (Obeys callStep fun _ _ => True) (fun s => s = boot false fun _ => {}) s →
      ∀ (pid fd : Int) (address : SockAddr) (c l : Nat), socketFromFd s pid fd = some c →
      (s.sockets c).type = sockStream → maxUdpSockets ≤ (s.sockets c).peerIndex →
      address.family = afInet → address.port ≠ 0 → l < maxUdpSockets → (s.sockets l).used →
      (s.sockets l).type = sockStream → (s.sockets l).localPort = address.port →
      (s.sockets l).tcpState = .listen → (s.sockets l).pendingCount < maxUdpSockets →
      (freeSocket s).isSome → (radSocketConnect s pid fd address).1 = .ok ∧
        Appended s (radSocketConnect s pid fd address).2 l c := by
  intro h
  have hrun := h _ (.along hiddenListener (.start rfl) (by simp [hiddenListener, Along]))
  have hok := (hrun 1 3 ⟨afInet, 80, {}⟩ 3 1 (by decide +kernel) (by decide +kernel)
    (by decide +kernel) rfl (by decide) (by decide) (by decide +kernel) (by decide +kernel)
    (by decide +kernel) (by decide +kernel) (by decide +kernel) (by decide +kernel)).1
  revert hok
  decide +kernel

end RadKernel.Net
