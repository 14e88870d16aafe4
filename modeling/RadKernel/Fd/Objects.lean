import RadKernel.Fd.Rollback

/-!
# Objects behind descriptors

What descriptors stand for: a file, directory or device handle, an end of a pipe, a socket.
An object is backed while some descriptor holds it, and is closed when the last one goes.
Shared memory objects are not closed with their descriptors.
-/

namespace RadKernel.Fd

open Kernel Function

variable {s t : KernelState} {fds : Nat → FdRecord} {slack : Nat → Int} {i j o p fd : Nat}
  {f : FdObject}

inductive Object where
  | handle (h : Nat)
  | pipeEnd (pipe : Nat) (writeEnd : Bool)
  | socket (i : Nat)
  deriving DecidableEq

variable {x y : Object} {H E : Set Object}

/-- The fields of a record name one object, or a piece of shared memory. -/
inductive Denotes : FdObject → Option Object → Prop
  | file (h : Nat) : Denotes { kind := .file, file := some h } (some (.handle h))
  | dir (h : Nat) : Denotes { kind := .dir, dir := some h } (some (.handle h))
  | device (h : Nat) : Denotes { kind := .device, device := some h } (some (.handle h))
  | pipe (k : Nat) (w : Bool) :
      Denotes { kind := .pipe, pipeIndex := k, pipeWriteEnd := w } (some (.pipeEnd k w))
  | socket (k : Nat) : Denotes { kind := .socket, socketIndex := k } (some (.socket k))
  | shm (k : Nat) : Denotes { kind := .shm, shmIndex := k } none

variable {a : Option Object} {source : FdRecord} {n : Int}

theorem Denotes.unique {b : Option Object} (h : Denotes f a) (h' : Denotes f b) : a = b := by
  cases h <;> cases h' <;> rfl

/-- The objects some used slot stands for. -/
def held (fds : Nat → FdRecord) : Set Object :=
  { x | ∃ i, (fds i).used = true ∧ Denotes (fds i).toFdObject (some x) }

/-- Every used slot stands for something, and two owners for two objects. -/
structure Shape (fds : Nat → FdRecord) : Prop where
  denotes : ∀ i, (fds i).used → ∃ a, Denotes (fds i).toFdObject a
  distinct : ∀ o o' x, own fds o = some o → own fds o' = some o' →
    Denotes (fds o).toFdObject (some x) → Denotes (fds o').toFdObject (some x) → o = o'

def pipeRefs (pipe : PipeRecord) : Bool → Int
  | true => pipe.writeRefs
  | false => pipe.readRefs

/-- The handles, pipe ends and sockets that are open are those of `H`; a handle outside of it
was closed once. -/
structure Backed (s : KernelState) (H : Set Object) : Prop where
  handle_open : ∀ h, .handle h ∈ H → h < s.opened ∧ h ∉ s.closed
  handle_closed : ∀ h, h < s.opened → .handle h ∉ H → s.closed.count h = 1
  closed_lt : ∀ h ∈ s.closed, h < s.opened
  pipe_lt : ∀ k w, .pipeEnd k w ∈ H → k < maxPipes
  pipe_open : ∀ k w, .pipeEnd k w ∈ H → pipeRefs (s.pipes k) w = 1
  pipe_closed : ∀ k w, .pipeEnd k w ∉ H → pipeRefs (s.pipes k) w = 0
  pipe_used : ∀ k, (s.pipes k).used = true ↔ ∃ w, .pipeEnd k w ∈ H
  socket_lt : ∀ k, .socket k ∈ H → k < maxUdpSockets
  socket_used : ∀ k, (s.sockets k).used = true ↔ .socket k ∈ H
  socket_idle : ∀ k, (s.sockets k).pendingCount = 0 ∧
    ((s.sockets k).used = true → (s.sockets k).peerIndex = maxUdpSockets)

/-! ## Backing -/

namespace Backed

theorem congr (h : Backed s H) (hp : t.pipes = s.pipes) (hs : t.sockets = s.sockets)
    (ho : t.opened = s.opened) (hc : t.closed = s.closed) : Backed t H := by
  constructor
  · rw [ho, hc]
    exact h.handle_open
  · rw [ho, hc]
    exact h.handle_closed
  · rw [ho, hc]
    exact h.closed_lt
  · exact h.pipe_lt
  · rw [hp]
    exact h.pipe_open
  · rw [hp]
    exact h.pipe_closed
  · rw [hp]
    exact h.pipe_used
  · exact h.socket_lt
  · rw [hs]
    exact h.socket_used
  · rw [hs]
    exact h.socket_idle

theorem openHandle (h : Backed s H) :
    Backed { s with opened := s.opened + 1 } (insert (.handle s.opened) H) := by
  refine ⟨?_, ?_, ?_, by simpa using h.pipe_lt, by simpa using h.pipe_open,
    by simpa using h.pipe_closed, by simpa using h.pipe_used, by simpa using h.socket_lt,
    by simpa using h.socket_used, h.socket_idle⟩
  · intro k hk
    rcases hk with hk | hk
    · obtain rfl : k = s.opened := by simpa using hk
      exact ⟨by simp, fun hm => absurd (h.closed_lt _ hm) (by omega)⟩
    · obtain ⟨hlt, hnot⟩ := h.handle_open k hk
      exact ⟨by simp; omega, hnot⟩
  · intro k hk hnot
    have hne : k ≠ s.opened := by
      rintro rfl
      exact hnot (Set.mem_insert _ _)
    simp only at hk
    exact h.handle_closed k (by omega) fun hm => hnot (Set.mem_insert_of_mem _ hm)
  · intro k hk
    have := h.closed_lt k hk
    simp only
    omega

variable {k : Nat} {H' : Set Object}

section
variable (h : Backed s H)
include h

theorem closeHandle (hk : .handle k ∈ H) : Backed (closeHandle s (some k)) (H \ {.handle k}) := by
  refine ⟨?_, ?_, ?_, by simpa [Fd.closeHandle] using h.pipe_lt,
    by simpa [Fd.closeHandle] using h.pipe_open, by simpa [Fd.closeHandle] using h.pipe_closed,
    by simpa [Fd.closeHandle] using h.pipe_used, by simpa [Fd.closeHandle] using h.socket_lt,
    by simpa [Fd.closeHandle] using h.socket_used, h.socket_idle⟩
  · rintro m ⟨hm, hne⟩
    have hne' : m ≠ k := fun e => hne (by rw [e]; rfl)
    obtain ⟨hlt, hnot⟩ := h.handle_open m hm
    exact ⟨hlt, by simp [Fd.closeHandle, hne', hnot]⟩
  · intro m hlt hnot
    by_cases hne : m = k
    · subst hne
      simpa [Fd.closeHandle, List.count_eq_zero] using (h.handle_open m hk).2
    · have hm : Object.handle m ∉ H := fun hm => hnot ⟨hm, by simpa using hne⟩
      rw [show (Fd.closeHandle s (some k)).closed = k :: s.closed from rfl,
        List.count_cons_of_ne (Ne.symm hne)]
      exact h.handle_closed m hlt hm
  · intro m hm
    rcases List.mem_cons.1 hm with rfl | hm
    · exact (h.handle_open m hk).1
    · exact h.closed_lt m hm

theorem setPipe {pipe : PipeRecord} (hk : k < maxPipes)
    (hopen : ∀ w, .pipeEnd k w ∈ H' → pipeRefs pipe w = 1)
    (hclosed : ∀ w, .pipeEnd k w ∉ H' → pipeRefs pipe w = 0)
    (hused : pipe.used = true ↔ ∃ w, .pipeEnd k w ∈ H')
    (hrest : ∀ x, (∀ w, x ≠ .pipeEnd k w) → (x ∈ H' ↔ x ∈ H)) : Backed (setPipe s k pipe) H' := by
  have hhandle : ∀ m, (Object.handle m ∈ H' ↔ Object.handle m ∈ H) := fun m => hrest _ (by simp)
  have hsocket : ∀ m, (Object.socket m ∈ H' ↔ Object.socket m ∈ H) := fun m => hrest _ (by simp)
  have hpipe : ∀ m w, m ≠ k → (Object.pipeEnd m w ∈ H' ↔ Object.pipeEnd m w ∈ H) := by
    intro m w hm
    exact hrest _ (by simp [hm])
  refine ⟨fun m hm => h.handle_open m ((hhandle m).1 hm),
    fun m hlt hm => h.handle_closed m hlt (fun hin => hm ((hhandle m).2 hin)), h.closed_lt,
    ?_, ?_, ?_, ?_, fun m hm => h.socket_lt m ((hsocket m).1 hm),
    fun m => (h.socket_used m).trans (hsocket m).symm, h.socket_idle⟩
  · intro m w hm
    by_cases hmk : m = k
    · exact hmk ▸ hk
    · exact h.pipe_lt m w ((hpipe m w hmk).1 hm)
  · intro m w hm
    by_cases hmk : m = k
    · subst hmk
      simpa [Fd.setPipe] using hopen w hm
    · simpa [Fd.setPipe, hmk] using h.pipe_open m w ((hpipe m w hmk).1 hm)
  · intro m w hm
    by_cases hmk : m = k
    · subst hmk
      simpa [Fd.setPipe] using hclosed w hm
    · simpa [Fd.setPipe, hmk] using h.pipe_closed m w (fun hin => hm ((hpipe m w hmk).2 hin))
  · intro m
    by_cases hmk : m = k
    · subst hmk
      simpa [Fd.setPipe] using hused
    · simp only [Fd.setPipe, update_of_ne hmk, h.pipe_used m, hpipe m _ hmk]

theorem closePipeEnd {w : Bool} (hk : .pipeEnd k w ∈ H) :
    Backed (closePipeEnd s k w) (H \ {.pipeEnd k w}) := by
  have hlt := h.pipe_lt k w hk
  have hone := h.pipe_open k w hk
  have hused : (s.pipes k).used = true := (h.pipe_used k).2 ⟨w, hk⟩
  have hself : pipeRefs (dropPipeRef (s.pipes k) w) w = 0 := by
    cases w <;> simp only [pipeRefs, dropPipeRef] at hone ⊢ <;> rw [if_pos (by omega)] <;>
      simp [hone]
  have hother : pipeRefs (dropPipeRef (s.pipes k) w) (!w) = pipeRefs (s.pipes k) (!w) := by
    cases w <;> simp only [pipeRefs, dropPipeRef, Bool.not_true, Bool.not_false] <;>
      split <;> rfl
  have hmem : ∀ v, (Object.pipeEnd k v ∈ H \ {.pipeEnd k w} ↔ v = !w ∧ Object.pipeEnd k v ∈ H) := by
    intro v
    cases v <;> cases w <;> simp
  have hboth : ((dropPipeRef (s.pipes k) w).readRefs = 0 ∧
      (dropPipeRef (s.pipes k) w).writeRefs = 0) ↔ Object.pipeEnd k (!w) ∉ H := by
    have hopen := h.pipe_open k (!w)
    have hclosed := h.pipe_closed k (!w)
    rw [← hother] at hopen hclosed
    constructor
    · rintro ⟨hr, hw⟩ hin
      have := hopen hin
      cases w <;> simp only [pipeRefs, Bool.not_true, Bool.not_false] at this <;> omega
    · intro hnot
      have hzero := hclosed hnot
      cases w
      · exact ⟨hself, hzero⟩
      · exact ⟨hzero, hself⟩
  unfold Fd.closePipeEnd
  rw [if_pos hlt]
  refine h.setPipe hlt ?_ ?_ ?_ ?_
  · intro v hv
    obtain ⟨rfl, hin⟩ := (hmem v).1 hv
    rw [if_neg (fun hz => hboth.1 hz hin), hother]
    exact h.pipe_open k _ hin
  · intro v hv
    split
    · cases v <;> rfl
    · rename_i hz
      rw [hboth, not_not] at hz
      have hvw : v = w := by
        by_contra hne
        refine hv ((hmem v).2 ?_)
        have : v = !w := by cases v <;> cases w <;> simp_all
        exact ⟨this, this ▸ hz⟩
      rw [hvw]
      exact hself
  · split
    · rename_i hz
      have hz' := hboth.1 hz
      constructor
      · simp
      · rintro ⟨v, hv⟩
        obtain ⟨rfl, hin⟩ := (hmem v).1 hv
        exact absurd hin hz'
    · rename_i hz
      rw [hboth, not_not] at hz
      rw [dropPipeRef_used]
      exact ⟨fun _ => ⟨!w, (hmem _).2 ⟨rfl, hz⟩⟩, fun _ => hused⟩
  · intro y hy
    simp [hy w]

theorem setSocket {r : SocketRecord}
    (hk : k < maxUdpSockets) (hused : r.used = true ↔ .socket k ∈ H')
    (hidle : r.pendingCount = 0 ∧ (r.used = true → r.peerIndex = maxUdpSockets))
    (hrest : ∀ x, x ≠ .socket k → (x ∈ H' ↔ x ∈ H)) : Backed (setSocket s k r) H' := by
  have hhandle : ∀ m, (Object.handle m ∈ H' ↔ Object.handle m ∈ H) := fun m => hrest _ (by simp)
  have hpipe : ∀ m w, (Object.pipeEnd m w ∈ H' ↔ Object.pipeEnd m w ∈ H) :=
    fun m w => hrest _ (by simp)
  refine ⟨fun m hm => h.handle_open m ((hhandle m).1 hm),
    fun m hlt hm => h.handle_closed m hlt (fun hin => hm ((hhandle m).2 hin)), h.closed_lt,
    fun m w hm => h.pipe_lt m w ((hpipe m w).1 hm),
    fun m w hm => h.pipe_open m w ((hpipe m w).1 hm),
    fun m w hm => h.pipe_closed m w (fun hin => hm ((hpipe m w).2 hin)),
    fun m => ?_, ?_, ?_, ?_⟩
  · simp only [Fd.setSocket, h.pipe_used m, hpipe m]
  · intro m hm
    by_cases hmk : m = k
    · exact hmk ▸ hk
    · exact h.socket_lt m ((hrest _ (by simpa using hmk)).1 hm)
  · intro m
    by_cases hmk : m = k
    · subst hmk
      simpa [Fd.setSocket] using hused
    · simp only [Fd.setSocket, update_of_ne hmk, h.socket_used m]
      exact (hrest _ (by simpa using hmk)).symm
  · intro m
    by_cases hmk : m = k
    · subst hmk
      simpa [Fd.setSocket] using hidle
    · simpa [Fd.setSocket, hmk] using h.socket_idle m

/-- An idle socket has neither a peer nor a queue, so only its own record is zeroed. -/
theorem closeSocket (hk : .socket k ∈ H) : Backed (closeSocket s k) (H \ {.socket k}) := by
  have hlt := h.socket_lt k hk
  obtain ⟨hcount, hpeer⟩ := h.socket_idle k
  have hpeer' := hpeer ((h.socket_used k).2 hk)
  have hunlink : unlinkPeer s k = s := by
    unfold unlinkPeer
    rw [if_neg (by rw [hpeer']; simp)]
  unfold Fd.closeSocket
  rw [if_pos hlt]
  simp only [hunlink, hcount, dropPending]
  exact h.setSocket hlt (by simp) (by simp) (fun y hy => by simp [hy])

/-- Closing what a record stands for takes it out of the open objects. -/
theorem closeObject (hf : Denotes f (some x)) (hx : x ∈ H) :
    Backed (closeObject s f) (H \ {x}) := by
  cases hf with
  | file k => exact h.closeHandle hx
  | dir k => exact h.closeHandle hx
  | device k => exact h.closeHandle hx
  | pipe k w => exact h.closePipeEnd hx
  | socket k => exact h.closeSocket hx

end

end Backed

theorem closeObject_of_shm (hf : Denotes f none) : closeObject s f = s := by
  cases hf with
  | shm k => rfl

/-! ## Objects and descriptors -/

/-- The open objects are those that descriptors hold and those of `E`, for which a descriptor
is yet to be installed. -/
structure Good (s : KernelState) (E : Set Object) : Prop where
  shape : Shape s.fds
  backed : Backed s (held s.fds ∪ E)
  disjoint : ∀ x ∈ E, x ∉ held s.fds

section
variable (hd : Drop s fd t) (hfree : (t.fds fd).used = false)
include hd hfree

/-- A slot that is freed holds nothing, the others hold what they held. -/
theorem mem_held_drop :
    y ∈ held t.fds ↔ ∃ i ≠ fd, (s.fds i).used = true ∧ Denotes (s.fds i).toFdObject (some y) := by
  constructor
  · rintro ⟨i, hi, hden⟩
    have hne : i ≠ fd := by
      rintro rfl
      simp [hfree] at hi
    rw [(hd.kept hne).used] at hi
    rw [(hd.kept hne).object] at hden
    exact ⟨i, hne, hi, hden⟩
  · rintro ⟨i, hne, hi, hden⟩
    exact ⟨i, by rw [(hd.kept hne).used, hi], by rwa [(hd.kept hne).object]⟩

/-- Another slot with the same object stands in for the freed one. -/
theorem held_drop_shared (hne : j ≠ fd)
    (hj : (s.fds j).used = true) (hobject : (s.fds fd).toFdObject = (s.fds j).toFdObject) :
    held t.fds = held s.fds := by
  ext y
  rw [mem_held_drop hd hfree]
  constructor
  · rintro ⟨i, -, hi, hden⟩
    exact ⟨i, hi, hden⟩
  · rintro ⟨i, hi, hden⟩
    by_cases hifd : i = fd
    · subst hifd
      exact ⟨j, hne, hj, hobject ▸ hden⟩
    · exact ⟨i, hifd, hi, hden⟩

end

section
variable (ht : Table slack s.fds)
include ht

theorem Shape.last (hs : Shape s.fds) (hfd : own s.fds fd = some fd)
    (halone : ∀ p, own s.fds p = some fd → p = fd)
    (hx : Denotes (s.fds fd).toFdObject (some x)) (hi : (s.fds i).used = true)
    (hden : Denotes (s.fds i).toFdObject (some x)) : i = fd := by
  obtain ⟨q, hq⟩ := ht.linked i hi
  have hroot := ht.valid.rooted i q hq
  rw [ht.same i q hq] at hden
  obtain rfl : q = fd := hs.distinct q fd x hroot hfd hden hx
  exact halone i hq

theorem Shape.drop (hs : Shape s.fds) (hd : Drop s fd t)
    (hfree : (t.fds fd).used = false) : Shape t.fds := by
  have hne : ∀ {i q}, own t.fds i = some q → i ≠ fd := by
    rintro i q hi rfl
    simp [own, hfree] at hi
  refine ⟨fun i hi => ?_, fun a b x ha hb hax hbx => ?_⟩
  · have hifd : i ≠ fd := by
      rintro rfl
      simp [hfree] at hi
    rw [(hd.kept hifd).object]
    exact hs.denotes i ((hd.kept hifd).used ▸ hi)
  · rw [(hd.kept (hne ha)).object] at hax
    rw [(hd.kept (hne hb)).object] at hbx
    -- an owner afterwards was one before, or took over the object of the freed slot
    have hbefore : ∀ {c}, own t.fds c = some c → own s.fds c = some c ∨
        (own s.fds fd = some fd ∧ own s.fds c = some fd ∧ t.fds = promote s.fds fd c) := by
      intro c hc
      cases hd with
      | leave o ho hneq =>
        left
        have hcne := hne hc
        have hown : own (setFd (setFd s o { s.fds o with refs := (s.fds o).refs - 1 }) fd {}).fds =
            update (own s.fds) fd none := by
          rw [setFd_fds, setFd_fds, own_update, own_countChange]
          simp
        rw [hown] at hc
        simpa [hcne] using hc
      | handOver p hfd hp hpne =>
        rw [own_promote ht hfd hp hpne] at hc
        have hcne : c ≠ fd := by
          rintro rfl
          simp [Sharing.handOver] at hc
        by_cases hcfd : own s.fds c = some fd
        · obtain rfl : p = c := by simpa [Sharing.handOver, hcne, hcfd] using hc
          exact .inr ⟨hfd, hp, rfl⟩
        · left
          simpa [Sharing.handOver, hcne, hcfd] using hc
      | last hfd hrefs =>
        left
        have hcne := hne hc
        rw [setFd_fds, closeObject_fds, own_update] at hc
        simpa [hcne] using hc
      | orphan hfd hrefs halone => simp [Table.used_of_own hfd] at hfree
    rcases hbefore ha with ha' | ⟨hfd, ha', hpa⟩ <;> rcases hbefore hb with hb' | ⟨hfd', hb', hpb⟩
    · exact hs.distinct a b x ha' hb' hax hbx
    · rw [ht.same b fd hb'] at hbx
      exact absurd (hs.distinct a fd x ha' hfd' hax hbx) (hne ha)
    · rw [ht.same a fd ha'] at hax
      exact absurd (hs.distinct fd b x hfd hb' hax hbx).symm (hne hb)
    · by_contra hab
      have hself : own t.fds b = some a := by
        rw [hpa, own_promote ht hfd ha' (hne ha)]
        simp [Sharing.handOver, hne hb, hb']
      rw [hb, Option.some.injEq] at hself
      exact hab hself.symm

theorem Good.drop (hg : Good s E) (hd : Drop s fd t) (hslack : slack fd = 0) : Good t E := by
  have hfree := hd.freed ht hslack
  have hshape := hg.shape.drop ht hd hfree
  have hshared : ∀ j, j ≠ fd → (s.fds j).used = true →
      (s.fds fd).toFdObject = (s.fds j).toFdObject → t.pipes = s.pipes → t.sockets = s.sockets →
      t.opened = s.opened → t.closed = s.closed → Good t E := by
    intro j hj hu hobject hp hs ho hc
    have hheld := held_drop_shared hd hfree hj hu hobject
    refine ⟨hshape, ?_, fun x hx => ?_⟩
    · rw [hheld]
      exact hg.backed.congr hp hs ho hc
    · rw [hheld]
      exact hg.disjoint x hx
  cases hcase : hd with
  | leave o ho hne =>
    exact hshared o (Ne.symm hne) (Table.used_of_own (ht.valid.rooted fd o ho)) (ht.same fd o ho)
      rfl rfl rfl rfl
  | handOver p ho hp hne =>
    exact hshared p hne (Table.used_of_own hp) (ht.same p fd hp).symm rfl rfl rfl rfl
  | last ho hrefs =>
    have halone := fun p hp => ht.valid.alone (j := p) ho hrefs (ht.slack_nonneg fd) hp
    obtain ⟨a, ha⟩ := hg.shape.denotes fd (Table.used_of_own ho)
    cases a with
    | none =>
      have hheld : held (setFd (closeObject s (s.fds fd).toFdObject) fd {}).fds = held s.fds := by
        ext y
        rw [mem_held_drop hd hfree]
        constructor
        · rintro ⟨i, -, hi, hden⟩
          exact ⟨i, hi, hden⟩
        · rintro ⟨i, hi, hden⟩
          refine ⟨i, ?_, hi, hden⟩
          rintro rfl
          exact absurd (hden.unique ha) (by simp)
      refine ⟨hshape, ?_, fun x hx => ?_⟩
      · rw [hheld, closeObject_of_shm ha]
        exact hg.backed.congr rfl rfl rfl rfl
      · rw [hheld]
        exact hg.disjoint x hx
    | some x =>
      have hmem : x ∈ held s.fds := ⟨fd, Table.used_of_own ho, ha⟩
      have hheld : held (setFd (closeObject s (s.fds fd).toFdObject) fd {}).fds =
          held s.fds \ {x} := by
        ext y
        rw [mem_held_drop hd hfree]
        constructor
        · rintro ⟨i, hne, hi, hden⟩
          refine ⟨⟨i, hi, hden⟩, ?_⟩
          rintro rfl
          exact hne (hg.shape.last ht ho halone ha hi hden)
        · rintro ⟨⟨i, hi, hden⟩, hyx⟩
          refine ⟨i, ?_, hi, hden⟩
          rintro rfl
          exact hyx (by simpa using hden.unique ha)
      have hxE : x ∉ E := fun hx => hg.disjoint x hx hmem
      refine ⟨hshape, ?_, fun y hy => ?_⟩
      · have hset : held s.fds \ {x} ∪ E = (held s.fds ∪ E) \ {x} := by
          rw [Set.union_sdiff_distrib, Set.sdiff_singleton_eq_self hxE]
        rw [hheld, hset]
        exact (hg.backed.closeObject ha (Set.mem_union_left _ hmem)).congr rfl rfl rfl rfl
      · rw [hheld]
        exact fun hin => hg.disjoint y hy hin.1
  | orphan ho hrefs halone =>
    have := (table_orphan ht ho hrefs halone).1
    omega

end

section
variable (hg : Good s E)
include hg

/-- A descriptor for the object `a`, which is open and not held yet. -/
theorem Good.insert_new (hslot : freeSlot s.fds = some i) (howner : source.ownerFd < 0)
    (ha : Denotes source.toFdObject a) (haE : ∀ x, a = some x → x ∈ E) :
    Good (setFd s i (placed source n i)) (E \ { x | a = some x }) := by
  obtain ⟨hlt, hfree⟩ := freeSlot_some hslot
  have hown : own (setFd s i (placed source n i)).fds = update (own s.fds) i (some i) := by
    rw [setFd_fds, own_update]
    simp [placed, howner, ownerSlot, hlt]
  have hheld : held (setFd s i (placed source n i)).fds = held s.fds ∪ { x | a = some x } := by
    ext y
    constructor
    · rintro ⟨j, hj, hden⟩
      by_cases hji : j = i
      · subst hji
        simp only [setFd_fds, update_self, placed] at hden
        exact .inr (ha.unique hden)
      · simp only [setFd_fds, update_of_ne hji] at hj hden
        exact .inl ⟨j, hj, hden⟩
    · rintro (⟨j, hj, hden⟩ | hy)
      · have hji : j ≠ i := by
          rintro rfl
          simp [hfree] at hj
        exact ⟨j, by simpa [hji] using hj, by simpa [hji] using hden⟩
      · obtain rfl : a = some y := hy
        exact ⟨i, by simp [placed], by simpa [placed] using ha⟩
  refine ⟨⟨fun j hj => ?_, fun b c x hb hc hbx hcx => ?_⟩, ?_, ?_⟩
  · by_cases hji : j = i
    · subst hji
      exact ⟨a, by simpa [placed] using ha⟩
    · simpa [hji] using hg.shape.denotes j (by simpa [hji] using hj)
  · rw [hown] at hb hc
    -- the new object is held by nobody else
    have hnew : ∀ {k}, k ≠ i → own s.fds k = some k → Denotes (s.fds k).toFdObject (some x) →
        a ≠ some x := by
      rintro k - hk hkx rfl
      exact hg.disjoint x (haE x rfl) ⟨k, Table.used_of_own hk, hkx⟩
    by_cases hbi : b = i <;> by_cases hci : c = i
    · rw [hbi, hci]
    · subst hbi
      simp only [setFd_fds, update_self, update_of_ne hci] at hbx hcx hc
      exact absurd (ha.unique hbx) (hnew hci hc hcx)
    · subst hci
      simp only [setFd_fds, update_self, update_of_ne hbi] at hbx hcx hb
      exact absurd (ha.unique hcx) (hnew hbi hb hbx)
    · simp only [setFd_fds, update_of_ne hbi, update_of_ne hci] at *
      exact hg.shape.distinct b c x hb hc hbx hcx
  · have hset : held s.fds ∪ { x | a = some x } ∪ E \ { x | a = some x } = held s.fds ∪ E := by
      have hsub : { x | a = some x } ⊆ E := haE
      rw [Set.union_assoc, Set.union_sdiff_self, Set.union_eq_self_of_subset_left hsub]
    rw [hheld, hset]
    exact hg.backed.congr rfl rfl rfl rfl
  · rintro x ⟨hx, hnot⟩
    rw [hheld]
    rintro (hin | hin)
    · exact hg.disjoint x hx hin
    · exact hnot hin

/-- A descriptor for an object that is held already. -/
theorem Good.insert_shared
    (hslot : freeSlot s.fds = some i) (ho : own s.fds o = some o) (howner : source.ownerFd = o)
    (hobject : (s.fds o).toFdObject = source.toFdObject) :
    Good (setFd s i (placed source n i)) E := by
  obtain ⟨hlt, hfree⟩ := freeSlot_some hslot
  have holt := (own_eq_some.1 ho).2.2
  have hoi : o ≠ i := by
    rintro rfl
    simp [own, hfree] at ho
  have hown : own (setFd s i (placed source n i)).fds = update (own s.fds) i (some o) := by
    have hslot : ownerSlot (placed source n i) = some o := by
      refine ownerSlot_eq_some.2 ⟨?_, holt⟩
      simp only [placed, howner]
      rw [if_neg (by omega)]
    rw [setFd_fds, own_update, hslot]
    rfl
  have hheld : held (setFd s i (placed source n i)).fds = held s.fds := by
    ext y
    constructor
    · rintro ⟨j, hj, hden⟩
      by_cases hji : j = i
      · subst hji
        simp only [setFd_fds, update_self, placed, ← hobject] at hden
        exact ⟨o, Table.used_of_own ho, hden⟩
      · simp only [setFd_fds, update_of_ne hji] at hj hden
        exact ⟨j, hj, hden⟩
    · rintro ⟨j, hj, hden⟩
      have hji : j ≠ i := by
        rintro rfl
        simp [hfree] at hj
      exact ⟨j, by simpa [hji] using hj, by simpa [hji] using hden⟩
  refine ⟨⟨fun j hj => ?_, fun b c x hb hc hbx hcx => ?_⟩, ?_, ?_⟩
  · by_cases hji : j = i
    · subst hji
      obtain ⟨a, ha⟩ := hg.shape.denotes o (Table.used_of_own ho)
      exact ⟨a, by simpa [placed, ← hobject] using ha⟩
    · simpa [hji] using hg.shape.denotes j (by simpa [hji] using hj)
  · rw [hown] at hb hc
    have hne : ∀ {k}, update (own s.fds) i (some o) k = some k → k ≠ i := by
      rintro k hk rfl
      exact hoi (by simpa using hk)
    have hbi := hne hb
    have hci := hne hc
    simp only [setFd_fds, update_of_ne hbi, update_of_ne hci] at *
    exact hg.shape.distinct b c x hb hc hbx hcx
  · rw [hheld]
    exact hg.backed.congr rfl rfl rfl rfl
  · rw [hheld]
    exact hg.disjoint

/-- Records that only changed in counts and flags hold what they held. -/
theorem Good.of_objects (hused : ∀ i, (t.fds i).used = (s.fds i).used)
    (hobject : ∀ i, (t.fds i).toFdObject = (s.fds i).toFdObject) (hown : own t.fds = own s.fds)
    (hp : t.pipes = s.pipes) (hs : t.sockets = s.sockets) (ho : t.opened = s.opened)
    (hc : t.closed = s.closed) : Good t E := by
  have hheld : held t.fds = held s.fds := by
    ext y
    simp only [held, Set.mem_ofPred_eq, hused, hobject]
  refine ⟨⟨fun i hi => ?_, fun b c x hb hc hbx hcx => ?_⟩, ?_, ?_⟩
  · rw [hobject]
    exact hg.shape.denotes i (hused i ▸ hi)
  · rw [hown] at hb hc
    rw [hobject] at hbx hcx
    exact hg.shape.distinct b c x hb hc hbx hcx
  · rw [hheld]
    exact hg.backed.congr hp hs ho hc
  · rw [hheld]
    exact hg.disjoint

theorem Good.countRef (o : Nat) : Good (countRef s o) E :=
  hg.of_objects (fun i => (countRef_kept s o i).used) (fun i => (countRef_kept s o i).object)
    (own_countChange s.fds o _) rfl rfl rfl rfl

end

end RadKernel.Fd
