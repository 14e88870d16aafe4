import RadKernel.Fd.Sound
import RadKernel.Net.Streams

/-!
# Runs of stream calls

Every call on stream sockets keeps the links, the queues and the bytes in order, as long as no
client connects that has a peer or bytes waiting.
-/

namespace RadKernel.Net

open Kernel Fd Function

variable {s t : KernelState} {w : Wired} {ends : Nat → Option WireEnd} {wires : Nat}
  {sent received : WireEnd → List UInt8} {pid : Nat} {fd : Int}

structure Linked (w : Wired) : Prop where
  links : Links w.kernel w.ends w.wires
  carried : Carried w.kernel w.ends w.wires w.sent w.received
  stray : w.stray = []

theorem Linked.paired (h : Linked w) : Paired w :=
  ⟨h.links.peer, h.links.pending, h.carried.inOrder, h.stray⟩

variable {i : Nat} {r : SocketRecord} {n : Int}

theorem keptEnds_live (hs : Live s i) (ht : Live t i) : keptEnds s t ends i = ends i := by
  simp [keptEnds, hs.2, ht.2]

theorem keptEnds_new (hs : (s.sockets i).used = false) : keptEnds s t ends i = none := by
  simp [keptEnds, hs]

/-- After a call: the tables of `t`, and the ends of the sockets still in use. -/
def Wired.after (w : Wired) (t : KernelState) : Wired :=
  { w with kernel := t, ends := keptEnds w.kernel t w.ends }

section
variable (h : Linked w)
include h

theorem Linked.of_live (hgrouped : Grouped t) (hheld : ∀ i k, Holds t i k → ∃ j, Holds w.kernel j k)
    (hlive : ∀ i, Live t i ↔ Live w.kernel i)
    (hsame : ∀ i, Live w.kernel i → SameLinks (w.kernel.sockets i) (t.sockets i) ∧
      (t.sockets i).streamRx = (w.kernel.sockets i).streamRx) : Linked (w.after t) where
  links := h.links.of_live hgrouped hheld hlive (fun i hi => (hsame i hi).1) fun i hi =>
    keptEnds_live hi ((hlive i).2 hi)
  carried := h.carried.keep fun i hi => by
    have hi' := (hlive i).1 hi
    exact .inl ⟨hi', (hsame i hi').2, keptEnds_live hi' hi⟩
  stray := h.stray

theorem Linked.unchanged : Linked (w.after w.kernel) :=
  h.of_live h.links.grouped (fun i _ hi => ⟨i, hi⟩) (fun _ => Iff.rfl) fun _ _ => ⟨.refl _, rfl⟩

/-- A record in use changes in fields that are neither links nor bytes. -/
theorem Linked.setSocket (hr : r.used = (w.kernel.sockets i).used)
    (hsame : SameLinks (w.kernel.sockets i) r) (hrx : r.streamRx = (w.kernel.sockets i).streamRx) :
    Linked (w.after (setSocket w.kernel i r)) := by
  refine h.of_live (h.links.grouped.congr rfl) (fun a k ha => ⟨a, (holds_congr rfl).1 ha⟩) ?_ ?_
  · intro a
    by_cases hai : a = i <;> simp [Live, Fd.setSocket, hai, hr]
  · intro a _
    by_cases hai : a = i
    · subst hai
      simpa [Fd.setSocket] using ⟨hsame, hrx⟩
    · simpa [Fd.setSocket, hai] using SameLinks.refl _

theorem Linked.bind (address : SockAddr) :
    Linked (w.after (radSocketBind w.kernel pid fd address).2) := by
  unfold radSocketBind
  by_cases haddress : address.family ≠ afInet ∨ address.port = 0
  · rw [if_pos haddress]
    exact h.unchanged
  · rw [if_neg haddress]
    cases socketFromFd w.kernel pid fd with
    | none => exact h.unchanged
    | some i =>
      dsimp only
      split_ifs
      · exact h.unchanged
      · exact h.setSocket rfl ⟨rfl, rfl, rfl, rfl⟩ rfl
      · exact h.setSocket rfl ⟨rfl, rfl, rfl, rfl⟩ rfl

theorem Linked.listen (backlog : Int) :
    Linked (w.after (radSocketListen w.kernel pid fd backlog).2) := by
  unfold radSocketListen
  cases socketFromFd w.kernel pid fd with
  | none => exact h.unchanged
  | some i =>
    dsimp only
    split_ifs
    · exact h.unchanged
    · exact h.setSocket rfl ⟨rfl, rfl, rfl, rfl⟩ rfl

theorem Linked.shutdown (how : Int) :
    Linked (w.after (radSocketShutdown w.kernel pid fd how).2) := by
  unfold radSocketShutdown
  cases socketFromFd w.kernel pid fd with
  | none => exact h.unchanged
  | some i => exact h.setSocket rfl ⟨rfl, rfl, rfl, rfl⟩ rfl

theorem Linked.dup : Linked (w.after (radFdDup w.kernel pid fd).2) := by
  obtain ⟨hgrouped, hsockets, hheld⟩ := h.links.grouped.radFdDup pid fd
  refine h.of_live hgrouped hheld (fun i => ?_) fun i _ => ?_
  · rw [Live, Live, hsockets]
  · rw [hsockets]
    exact ⟨.refl _, rfl⟩

theorem Linked.close : Linked (w.after (radFdClose w.kernel pid fd).2) := by
  unfold radFdClose
  cases hslot : findFdSlot w.kernel.fds fd pid true with
  | none => exact h.unchanged
  | some slot =>
    obtain ⟨hgrouped, hheld, hsockets | ⟨k, hk, hsockets, hlast⟩⟩ :=
      h.links.grouped.closeFdIndex (findFdSlot_used hslot)
    · refine h.of_live hgrouped (fun i m hi => ⟨i, hheld i m hi⟩) (fun i => ?_) fun i _ => ?_
      · rw [Live, Live, hsockets]
      · rw [hsockets]
        exact ⟨.refl _, rfl⟩
    · have hclosed := h.links.closed hk hsockets
      have hends : ∀ i, Live (closeFdIndex w.kernel slot) i →
          keptEnds w.kernel (closeFdIndex w.kernel slot) w.ends i = w.ends i := fun i hi =>
        keptEnds_live ((hclosed i).1.1 hi).1 hi
      refine ⟨h.links.close hk hgrouped hheld hlast hsockets hends, ?_, h.stray⟩
      refine h.carried.keep fun i hi => .inl ⟨((hclosed i).1.1 hi).1, ?_, hends i hi⟩
      exact ((hclosed i).2 hi).2.2.2.1

/-- A new socket, held by a new descriptor or taken back. -/
theorem Linked.socket (domain type protocol : Int) :
    Linked (w.after (radSocketCreate w.kernel pid domain type protocol).2) := by
  unfold radSocketCreate
  by_cases hdomain : domain ≠ afInet
  · rw [if_pos hdomain]
    exact h.unchanged
  rw [if_neg hdomain]
  cases socketProtocol type protocol with
  | none => exact h.unchanged
  | some protocol' =>
    cases hfind : (List.range maxUdpSockets).find? fun i => !(w.kernel.sockets i).used with
    | none => exact h.unchanged
    | some i =>
      have hi : i < maxUdpSockets := List.mem_range.1 (List.mem_of_find?_eq_some hfind)
      have hunused : (w.kernel.sockets i).used = false := by simpa using List.find?_some hfind
      have hfree : ¬ Live w.kernel i := by simp [Live, hunused]
      dsimp only
      generalize hr : installFdRecord (Fd.setSocket w.kernel i (newSocket domain type protocol'))
        pid (newRecord { kind := .socket, socketIndex := i } (vfsRead ||| vfsWrite) pid) (-1) = r
      obtain ⟨result, t⟩ := r
      have hnone : ∀ a, ¬ Holds (Fd.setSocket w.kernel i (newSocket domain type protocol')) a i :=
        fun a ha => hfree (h.links.held a i ((holds_congr rfl).1 ha))
      have hadd : Grouped (Fd.setSocket w.kernel i (newSocket domain type protocol')) :=
        h.links.grouped.congr rfl
      obtain ⟨hgrouped, hsockets, hheld, hback⟩ := hadd.install hnone hr
      split_ifs with hneg
      · -- no room for the descriptor: the record is cleared again
        rw [hback hneg]
        refine h.of_live (h.links.grouped.congr rfl) (fun a k ha => ⟨a, (holds_congr rfl).1 ha⟩) ?_ ?_
        · intro a
          by_cases hai : a = i
          · simp [Live, Fd.setSocket, hai, hunused]
          · simp [Live, Fd.setSocket, hai]
        · intro a ha
          have hai : a ≠ i := fun hai => hfree (hai ▸ ha)
          simpa [Fd.setSocket, hai] using SameLinks.refl _
      · have hself :
    t.sockets i = newSocket domain type protocol' := by simp [hsockets, Fd.setSocket]
        have hother : ∀ a, a ≠ i → t.sockets a = w.kernel.sockets a := fun a ha => by
          simp [hsockets, Fd.setSocket, ha]
        have hkept : ∀ a, Live w.kernel a → keptEnds w.kernel t w.ends a = w.ends a := by
          intro a ha
          have hai : a ≠ i := fun hai => hfree (hai ▸ ha)
          exact keptEnds_live ha (by rwa [Live, hother a hai])
        have hadded : Links (Fd.setSocket w.kernel i (newSocket domain type protocol'))
            (keptEnds w.kernel t w.ends) w.wires :=
          h.links.add hi hfree rfl rfl (Nat.le_refl _) rfl hkept (keptEnds_new hunused)
        refine ⟨hadded.hold hgrouped hsockets hheld ?_ ?_, h.carried.keep fun a ha => ?_, h.stray⟩
        · exact ⟨hi, by simp [Fd.setSocket, newSocket]⟩
        · intro l hl n hn hqueued
          exact (hadded.pending l hl n hn).2.2.1.elim fun c hc => by
            simp [hqueued, keptEnds_new hunused] at hc
        · by_cases hai : a = i
          · subst hai
            exact .inr ⟨congrArg SocketRecord.streamRx hself, keptEnds_new hunused⟩
          · have ha' : Live w.kernel a := by rwa [Live, ← hother a hai]
            exact .inl ⟨ha', congrArg SocketRecord.streamRx (hother a hai), hkept a ha'⟩

/-- A connection leaves the queue, and gets a descriptor if there is room. -/
theorem Linked.accept : Linked (w.after (radSocketAccept w.kernel pid fd).2) := by
  unfold radSocketAccept
  cases hsocket : socketFromFd w.kernel pid fd with
  | none => exact h.unchanged
  | some l =>
    dsimp only
    obtain ⟨hl, hused⟩ := socketFromFd_some hsocket
    have hlive : Live w.kernel l := ⟨hl, hused⟩
    by_cases hlisten : (w.kernel.sockets l).type ≠ sockStream ∨
        (w.kernel.sockets l).tcpState ≠ .listen
    · rw [if_pos hlisten]
      exact h.unchanged
    rw [if_neg hlisten]
    by_cases hempty : (w.kernel.sockets l).pendingCount = 0
    · rw [if_pos hempty]
      exact h.unchanged
    rw [if_neg hempty]
    by_cases hgone : maxUdpSockets ≤ (w.kernel.sockets l).pendingAccepts 0 ∨
        (!(w.kernel.sockets ((w.kernel.sockets l).pendingAccepts 0)).used) = true
    · rw [if_pos hgone]
      exact h.unchanged
    rw [if_neg hgone]
    have hpos := Nat.pos_of_ne_zero hempty
    generalize hu : Fd.setSocket w.kernel l _ = u
    obtain ⟨hpopped, hfresh⟩ := h.links.pop hlive hpos (t := u) (by rw [← hu]; rfl)
      (by rw [← hu]; rfl)
    have hsame : ∀ a, (u.sockets a).used = (w.kernel.sockets a).used ∧
        (u.sockets a).streamRx = (w.kernel.sockets a).streamRx := by
      intro a
      rw [← hu]
      by_cases hal : a = l <;> simp [Fd.setSocket, hal]
    have hfds : u.fds = w.kernel.fds := by rw [← hu]; rfl
    obtain ⟨hwaiting, -, -, hunheld⟩ := h.links.pending l hlive 0 hpos
    generalize (w.kernel.sockets l).pendingAccepts 0 = k at hfresh hwaiting hunheld ⊢
    generalize hr : installFdRecord u pid _ (-1) = r
    obtain ⟨result, t⟩ := r
    obtain ⟨hgrouped, hsockets, hheld, -⟩ :=
      hpopped.grouped.install (fun i hi => hunheld i ((holds_congr hfds).1 hi)) hr
    have hlives : ∀ a, Live t a ↔ Live w.kernel a := fun a => by
      rw [Live, Live, hsockets, (hsame a).1]
    have hends : ∀ a, Live t a → keptEnds w.kernel t w.ends a = w.ends a := fun a ha =>
      keptEnds_live ((hlives a).1 ha) ha
    have hk : Live u k := by rwa [Live, (hsame k).1]
    have hlinks := hpopped.hold hgrouped hsockets hheld hk hfresh
    refine ⟨?_, h.carried.keep fun a ha => .inl ⟨(hlives a).1 ha, ?_, hends a ha⟩, h.stray⟩
    · exact hlinks.of_live hgrouped (fun i _ hi => ⟨i, hi⟩) (fun _ => Iff.rfl)
        (fun _ _ => .refl _) hends
    · show (t.sockets a).streamRx = _
      rw [hsockets, (hsame a).2]

/-- The client gets a server end as its peer, and both are ends of a new connection. -/
theorem Linked.connect {address : SockAddr} {c l j : Nat}
    (hok : connectParties w.kernel pid fd address = .ok (c, l, j))
    (halone : maxUdpSockets ≤ (w.kernel.sockets c).peerIndex)
    (hrx : (w.kernel.sockets c).streamRx = []) :
    let v := w.after (connectSockets w.kernel c l j address)
    Linked { v with
      ends := update (update v.ends c (some ⟨w.wires, false⟩)) j
        (some ⟨w.wires, true⟩)
      wires := w.wires + 1 } := by
  intro v
  obtain ⟨-, -, hclient, hstream, hfind, -, -, hfree⟩ := connectParties_ok hok
  obtain ⟨slack, htable⟩ := h.links.grouped.table
  obtain ⟨hc, hcUsed, fd', hholds⟩ := socketFromFd_holds htable hclient
  obtain ⟨hl, hlUsed, -⟩ := findSocket_some hfind
  obtain ⟨hj, hjUnused⟩ := freeSocket_some hfree
  have hjc : j ≠ c := fun hjc => hjUnused (hjc ▸ hcUsed)
  have hjl : j ≠ l := fun hjl => hjUnused (hjl ▸ hlUsed)
  have hother := fun i (hi : i ≠ j) => @connectSockets_other w.kernel i j l c address hjc hjl hi
  have hkept : ∀ i, Live w.kernel i → i ≠ c → update (update v.ends c (some ⟨w.wires, false⟩)) j
        (some ⟨w.wires, true⟩) i = w.ends i := by
    intro i hi hic
    have hij : i ≠ j := fun hij => hjUnused (hij ▸ hi.2)
    rw [update_of_ne hij, update_of_ne hic]
    refine keptEnds_live hi ⟨hi.1, ?_⟩
    rw [(hother i hij).1]
    exact hi.2
  have hfalse : update (update v.ends c (some ⟨w.wires, false⟩)) j
      (some ⟨w.wires, true⟩) c = some ⟨w.wires, false⟩ := by
    rw [update_of_ne (Ne.symm hjc), update_self]
  have htrue : update (update v.ends c (some ⟨w.wires, false⟩)) j
      (some ⟨w.wires, true⟩) j = some ⟨w.wires, true⟩ := update_self ..
  refine ⟨?_, ?_, h.stray⟩
  · exact h.links.connect hholds hstream ⟨hl, hlUsed⟩ hj (fun hlive => hjUnused hlive.2) halone
      hkept hfalse htrue
  · refine h.carried.connect hfalse htrue ?_ ?_ fun i hi hic hij => ?_
    · exact (hother c (Ne.symm hjc)).2.2.2.1.trans hrx
    · exact (connectSockets_server hjc hjl).2.2.2.2
    · have hi' : Live w.kernel i := by rwa [Live, ← (hother i hij).1]
      exact ⟨hi', (hother i hij).2.2.2.1, hkept i hi' hic⟩

/-- The records that are in use keep their links, and the bytes are accounted for. -/
theorem Linked.of_carried {stray : List UInt8}
    (hr : r.used = (w.kernel.sockets i).used) (hsame : SameLinks (w.kernel.sockets i) r)
    (hcarried : Carried (Fd.setSocket w.kernel i r) w.ends w.wires sent received)
    (hstray : stray = []) :
    Linked { w.after (Fd.setSocket w.kernel i r) with
      sent := sent, received := received, stray := stray } := by
  have hlive : ∀ a, Live (Fd.setSocket w.kernel i r) a ↔ Live w.kernel a := by
    intro a
    by_cases hai : a = i <;> simp [Live, Fd.setSocket, hai, hr]
  have hends : ∀ a, Live w.kernel a →
      keptEnds w.kernel (Fd.setSocket w.kernel i r) w.ends a = w.ends a := fun a ha =>
    keptEnds_live ha ((hlive a).2 ha)
  refine ⟨?_, hcarried.keep fun a ha => .inl ⟨ha, rfl, hends a ((hlive a).1 ha)⟩, hstray⟩
  refine h.links.of_live (h.links.grouped.congr rfl) (fun a k ha => ⟨a, (holds_congr rfl).1 ha⟩)
    hlive (fun a _ => ?_) hends
  show SameLinks _ (update w.kernel.sockets i r a)
  by_cases hai : a = i
  · subst hai
    rwa [update_self]
  · rw [update_of_ne hai]
    exact .refl _

theorem Linked.sendNothing (o : Option WireEnd) (buffer : List UInt8) (hn : n ≤ 0) :
    Linked (match o with
      | none => w.after w.kernel
      | some x => { w.after w.kernel with
          sent := update w.sent x (w.sent x ++ buffer.take n.toNat) }) := by
  cases o with
  | none => exact h.unchanged
  | some x =>
    dsimp only
    rw [Int.toNat_of_nonpos hn, List.take_zero, List.append_nil, update_eq_self]
    exact h.unchanged

theorem Linked.send (buffer : List UInt8) : Linked (watchCall w (pid, .send fd buffer)) := by
  simp only [watchCall, Call.perform, radSocketSend]
  cases hsocket : socketFromFd w.kernel pid fd with
  | none => exact h.unchanged
  | some i =>
    obtain ⟨hi, hused⟩ := socketFromFd_some hsocket
    simp only [Option.bind_some]
    by_cases hbad : (w.kernel.sockets i).type ≠ sockStream ∨
        (w.kernel.sockets i).tcpState ≠ .established ∨
        maxUdpSockets ≤ (w.kernel.sockets i).peerIndex
    · rw [if_pos hbad]
      exact h.sendNothing _ _ (n := Status.invalidArgument.code) (by decide)
    rw [if_neg hbad]
    have hpeer : (w.kernel.sockets i).peerIndex < maxUdpSockets := by
      by_contra hpeer
      exact hbad (.inr (.inr (Nat.not_lt.1 hpeer)))
    obtain ⟨x, hx, hother⟩ := h.links.across i ⟨hi, hused⟩ hpeer
    obtain ⟨hlive, -⟩ := h.links.peer i ⟨hi, hused⟩ hpeer
    by_cases hshut : (!(w.kernel.sockets (w.kernel.sockets i).peerIndex).used) = true ∨
        (w.kernel.sockets i).shutdownWrite = true ∨
        (w.kernel.sockets (w.kernel.sockets i).peerIndex).shutdownRead = true
    · rw [if_pos hshut]
      exact h.sendNothing _ _ (n := Status.notFound.code) (by decide)
    rw [if_neg hshut, hx]
    exact h.of_carried rfl ⟨rfl, rfl, rfl, rfl⟩ (h.carried.send h.links hlive hother rfl) h.stray

theorem Linked.recv (size : Nat) : Linked (watchCall w (pid, .recv fd size)) := by
  simp only [watchCall, Call.perform, radSocketRecv]
  cases hsocket : socketFromFd w.kernel pid fd with
  | none => exact h.unchanged
  | some i =>
    obtain ⟨hi, hused⟩ := socketFromFd_some hsocket
    dsimp only
    by_cases hstream : (w.kernel.sockets i).type ≠ sockStream
    · rw [if_pos hstream]
      cases w.ends i with
      | none =>
        rw [List.append_nil]
        exact h.unchanged
      | some x =>
        dsimp only
        rw [List.append_nil, update_eq_self]
        exact h.unchanged
    rw [if_neg hstream]
    cases hx : w.ends i with
    | none =>
      have hquiet := h.carried.quiet i ⟨hi, hused⟩ hx
      rw [hquiet]
      refine h.of_carried rfl ⟨rfl, rfl, rfl, rfl⟩ (h.carried.keep fun a ha => ?_) (by simp [h.stray])
      by_cases hai : a = i
      · subst hai
        exact .inl ⟨⟨hi, hused⟩, by simp [Fd.setSocket, hquiet], rfl⟩
      · have ha' : Live w.kernel a := by simpa [Live, Fd.setSocket, hai] using ha
        exact .inl ⟨ha', by simp [Fd.setSocket, hai], rfl⟩
    | some x =>
      exact h.of_carried rfl ⟨rfl, rfl, rfl, rfl⟩ (h.carried.recv h.links ⟨hi, hused⟩ hx
        (List.take_append_drop _ _).symm rfl) h.stray

theorem Linked.step {e : Nat × Call} (he : Unconnected w e) : Linked (watchCall w e) := by
  obtain ⟨pid, call⟩ := e
  cases call with
  | socket domain type protocol => exact h.socket domain type protocol
  | bind fd address => exact h.bind address
  | listen fd backlog => exact h.listen backlog
  | connect fd address =>
    simp only [watchCall, Call.perform, radSocketConnect]
    cases hok : connectParties w.kernel pid fd address with
    | error status => exact h.unchanged
    | ok parties =>
      obtain ⟨c, l, j⟩ := parties
      obtain ⟨halone, hrx⟩ := he c l j hok
      exact h.connect hok halone hrx
  | accept fd => exact h.accept
  | send fd buffer => exact h.send buffer
  | recv fd size => exact h.recv size
  | shutdown fd how => exact h.shutdown how
  | dup fd => exact h.dup
  | close fd => exact h.close

end

/-- No slot holds a socket. -/
def Bare (s : KernelState) : Prop := (∃ slack, Table slack s.fds) ∧ ∀ i k, ¬ Holds s i k

theorem Bare.install {source : FdRecord} (h : Bare s) (hkind : source.kind ≠ .socket)
    (howner : source.ownerFd < 0) (hrefs : source.refs = 1) (hpid : 0 ≤ source.ownerPid)
    (caller : Int) : Bare (installFdRecord s caller source n).2 := by
  obtain ⟨⟨slack, ht⟩, hnone⟩ := h
  have hinst := installFdRecord_installed s caller n source hpid
  obtain ⟨slack', ht', -⟩ := ht.installed_new hinst howner hrefs hpid
  have hplaced : ∀ (u : KernelState) m slot i k, (∀ i k, ¬ Holds u i k) →
      ¬ Holds (setFd u slot (placed source m slot)) i k := by
    intro u m slot i k hu hi
    obtain hi | ⟨hsocket, -⟩ := hi.of_setFd
    · exact hu i k hi
    · exact hkind hsocket
  generalize installFdRecord s caller source n = r at hinst ht' ⊢
  refine ⟨⟨slack', ht'⟩, fun i k => ?_⟩
  cases hinst with
  | new m slot _ _ _ _ => exact hplaced _ m slot i k hnone
  | replaced e slot hfound _ =>
    have hdrop := closeFdIndex_drop ht (findFdSlot_used hfound)
    exact hplaced _ n slot i k fun j m hj => hnone j m (hj.of_drop hdrop)
  | full _ => exact hnone i k
  | stuck e hfound _ =>
    have hdrop := closeFdIndex_drop ht (findFdSlot_used hfound)
    exact fun hi => hnone i k (hi.of_drop hdrop)

theorem Bare.openStdioFd (h : Bare s) : Bare (openStdioFd s n) :=
  Bare.install (s := { s with opened := s.opened + 1 }) h (by simp) (by simp) rfl (by simp) 0

theorem bare_boot (console : Bool) (processes : Nat → ProcessRecord) :
    Bare (boot console processes) := by
  obtain ⟨slack, ht, -⟩ := sound_empty processes
  have h : Bare { processes := processes } := ⟨⟨slack, ht⟩, by simp [Holds]⟩
  unfold boot
  split_ifs
  · exact h.openStdioFd.openStdioFd.openStdioFd
  · exact h

theorem Linked.of_started (h : Started w) : Linked w := by
  obtain ⟨console, processes, rfl⟩ := h
  obtain ⟨htable, hnone⟩ := bare_boot console processes
  have hsockets : (boot console processes).sockets = fun _ => {} := by
    cases console <;> rfl
  have hdead : ∀ i, ¬ Live (boot console processes) i := by simp [Live, hsockets]
  constructor
  case links =>
    constructor
    case grouped => exact ⟨htable, fun i _ k hi => absurd hi (hnone i k)⟩
    case held => exact fun i k hi => absurd hi (hnone i k)
    all_goals exact fun i => by grind
  case carried => exact ⟨by grind, by grind, fun _ => List.prefix_rfl, fun _ _ => ⟨rfl, rfl⟩⟩
  case stray => rfl

/-- In a run where every client that connects has no peer and no bytes waiting, peers name each
other, the queues hold server ends that nobody accepted, and what is received at an end was sent
into the other one. -/
theorem paired_of_run (h : Run (Obeys watchCall Unconnected) Started w) : Paired w := by
  refine (h.invariant (fun _ => Linked.of_started) ?_ : Linked w).paired
  rintro v e _ hv ⟨he, rfl⟩
  exact hv.step he

instance Unconnected.decidable (w : Wired) (e : Nat × Call) : Decidable (Unconnected w e) :=
  match e with
  | (pid, .connect fd address) =>
    match hok : connectParties w.kernel pid fd address with
    | .error _ => isTrue fun _ _ _ h => by simp [hok] at h
    | .ok (c, l, j) =>
      decidable_of_iff
        (maxUdpSockets ≤ (w.kernel.sockets c).peerIndex ∧ (w.kernel.sockets c).streamRx = [])
        ⟨fun h c' l' j' h' => by
          obtain ⟨rfl, rfl, rfl⟩ : c = c' ∧ l = l' ∧ j = j' := by simpa [hok] using h'
          exact h, fun h => h c l j hok⟩
  | (_, .socket ..) | (_, .bind ..) | (_, .listen ..) | (_, .accept ..) | (_, .send ..)
  | (_, .recv ..) | (_, .shutdown ..) | (_, .dup ..) | (_, .close ..) => isTrue trivial

def started : Wired := { kernel := boot false fun _ => {} }

/-- A process listens on port 80 with descriptor 3 and has a client in descriptor 4. -/
def oneClient : List (Nat × Call) :=
  [(1, .socket afInet sockStream 0), (1, .bind 3 ⟨afInet, 80, {}⟩), (1, .listen 3 1),
    (1, .socket afInet sockStream 0)]

/-- The client connects, is accepted and sends two bytes, of which one is received. -/
def connectedOnce : List (Nat × Call) :=
  oneClient ++ [(1, .connect 4 ⟨afInet, 80, {}⟩), (1, .accept 3), (1, .send 4 [1, 2]),
    (1, .recv 5 1)]

theorem paired_connectedOnce :
    let w := connectedOnce.foldl watchCall started
    w.received ⟨0, true⟩ = [1] ∧ w.sent ⟨0, false⟩ = [1, 2] ∧ Paired w :=
  ⟨by decide +kernel, by decide +kernel,
    paired_of_run (.along connectedOnce (.start ⟨false, _, rfl⟩) (by decide +kernel))⟩

/-- The client of a connection connects again: its first server end keeps naming it. -/
theorem not_paired_connectedTwice :
    ¬ ∀ w, Run (Obeys watchCall fun _ _ => True) Started w → Paired w := by
  intro h
  have hpaired := h _ (.along (oneClient ++ [(1, .connect 4 ⟨afInet, 80, {}⟩),
    (1, .connect 4 ⟨afInet, 80, {}⟩)]) (.start (s := started) ⟨false, _, rfl⟩)
    (by simp [oneClient, Along]))
  have hback := (hpaired.peer 2 (by decide +kernel) (by decide +kernel)).2.2
  revert hback
  decide +kernel

end RadKernel.Net
