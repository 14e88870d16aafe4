import RadKernel.Fd.Calls
import RadKernel.Net.Connect

/-!
# Descriptors that hold sockets

Which slots of the descriptor table stand for a socket, and what the calls do to them. All
slots that hold one socket share one owner, so the last descriptor of a socket is the one that
closes it.
-/

namespace RadKernel.Net

open Kernel Fd Function

variable {s t : KernelState} {slack : Nat → Int} {i j k o fd : Nat} {pid n : Int}

/-- A slot in use stands for a socket. -/
def Holds (s : KernelState) (i k : Nat) : Prop :=
  (s.fds i).used = true ∧ (s.fds i).kind = .socket ∧ (s.fds i).socketIndex = k

/-- The descriptor table is in order and no two owners hold one socket. -/
structure Grouped (s : KernelState) : Prop where
  table : ∃ slack, Table slack s.fds
  grouped : ∀ i j k, Holds s i k → Holds s j k → own s.fds i = own s.fds j

theorem holds_congr (h : t.fds = s.fds) : Holds t i k ↔ Holds s i k := by
  rw [Holds, Holds, h]

theorem Grouped.congr (hs : Grouped s) (h : t.fds = s.fds) : Grouped t := by
  refine ⟨h ▸ hs.table, fun i j k hi hj => ?_⟩
  rw [h]
  exact hs.grouped i j k ((holds_congr h).1 hi) ((holds_congr h).1 hj)

theorem Holds.of_kept (h : Kept (s.fds i) (t.fds i)) : Holds t i k ↔ Holds s i k := by
  rw [Holds, Holds, h]

theorem socketFromFd_holds (ht : Table slack s.fds) (h : socketFromFd s pid n = some k) :
    k < maxUdpSockets ∧ (s.sockets k).used = true ∧ ∃ o, Holds s o k := by
  obtain ⟨hk, hused⟩ := socketFromFd_some h
  refine ⟨hk, hused, ?_⟩
  unfold socketFromFd lookupFdRecord at h
  cases hres : resolve s.fds n pid with
  | none => simp [hres] at h
  | some r =>
    obtain ⟨slot, o⟩ := r
    obtain ⟨-, -, ho⟩ := resolve_some ht hres
    simp only [hres, Option.map_some] at h
    split_ifs at h with hr
    exact ⟨o, Table.used_of_own ho, hr.1, Option.some.inj h⟩

/-! ## Closing -/

section
variable (h : t.sockets = s.sockets)
include h

theorem unlinkPeer_congr : (unlinkPeer t k).sockets = (unlinkPeer s k).sockets := by
  simp only [unlinkPeer, h]
  split_ifs <;> simp [setSocket, h]

theorem dropPending_congr (m : Nat) :
    (dropPending k m t).sockets = (dropPending k m s).sockets := by
  induction m with
  | zero => exact h
  | succ m ih =>
    simp only [dropPending, ih]
    split_ifs
    · simp only [setSocket, unlinkPeer_congr ih]
    · exact ih

theorem closeSocket_congr : (closeSocket t k).sockets = (closeSocket s k).sockets := by
  have hunlink := unlinkPeer_congr (k := k) h
  unfold closeSocket
  split_ifs
  · simp only [setSocket, hunlink, dropPending_congr hunlink]
  · exact h

end

@[simp] theorem closeHandle_sockets (s : KernelState) (h : Option Nat) :
    (closeHandle s h).sockets = s.sockets := by
  cases h <;> rfl

@[simp] theorem closePipeEnd_sockets (s : KernelState) (k : Nat) (w : Bool) :
    (closePipeEnd s k w).sockets = s.sockets := by
  unfold closePipeEnd
  split_ifs <;> rfl

theorem closeObject_sockets (s : KernelState) (x : FdObject) :
    (closeObject s x).sockets =
      if x.kind = .socket then (closeSocket s x.socketIndex).sockets else s.sockets := by
  unfold closeObject
  by_cases hsocket : x.kind = .socket
  · rw [if_pos hsocket, if_pos hsocket, if_neg (by simp [hsocket])]
    exact closeSocket_congr (by simp)
  · rw [if_neg hsocket, if_neg hsocket]
    split_ifs <;> simp

/-- Slots that shared an owner still do, if they are still in use. -/
theorem own_eq_of_drop (ht : Table slack s.fds) (hd : Drop s fd t) (hi : (t.fds i).used = true)
    (hj : (t.fds j).used = true) (h : own s.fds i = own s.fds j) : own t.fds i = own t.fds j := by
  cases hd with
  | leave o ho hne =>
    have hslot : ∀ m, (update (update s.fds o
        { s.fds o with refs := (s.fds o).refs - 1 }) fd {} m).used = true → m ≠ fd := by
      rintro m hm rfl
      simp at hm
    rw [setFd_fds, setFd_fds, own_update, own_countChange, update_of_ne (hslot i hi),
      update_of_ne (hslot j hj), h]
  | handOver p ho hp hne =>
    have hslot : ∀ m, (promote s.fds fd p m).used = true → m ≠ fd := by
      rintro m hm rfl
      simp [promote] at hm
    rw [own_promote ht ho hp hne]
    simp only [Sharing.handOver, hslot i hi, hslot j hj, if_false, h]
  | last ho hrefs =>
    have hslot : ∀ m, (update (closeObject s (s.fds fd).toFdObject).fds fd {} m).used =
        true → m ≠ fd := by
      rintro m hm rfl
      simp at hm
    rw [setFd_fds, own_update, update_of_ne (hslot i hi), update_of_ne (hslot j hj),
      closeObject_fds, h]
  | orphan ho hrefs halone =>
    have hown : own (setFd s fd
        { s.fds fd with refs := (s.fds fd).refs - 1, localFd := -1, ownerPid := -1 }).fds =
        own s.fds := by
      rw [setFd_fds, own_update]
      funext m
      by_cases hm : m = fd
      · subst hm
        simp [own, ownerSlot]
      · simp [hm]
    rw [hown, h]

theorem Holds.of_drop (hd : Drop s fd t) (h : Holds t i k) : Holds s i k := by
  obtain ⟨hused, hobject⟩ := hd.object h.1
  have hkind := congrArg FdObject.kind hobject
  have hindex := congrArg FdObject.socketIndex hobject
  exact ⟨hused, hkind.symm.trans h.2.1, hindex.symm.trans h.2.2⟩

theorem Grouped.closeFdIndex (hs : Grouped s) (hu : (s.fds fd).used = true) :
    Grouped (closeFdIndex s fd) ∧ (∀ i k, Holds (closeFdIndex s fd) i k → Holds s i k) ∧
      ((closeFdIndex s fd).sockets = s.sockets ∨
        ∃ k, Holds s fd k ∧ (closeFdIndex s fd).sockets = (closeSocket s k).sockets ∧
          ∀ i, ¬ Holds (closeFdIndex s fd) i k) := by
  obtain ⟨slack, ht⟩ := hs.table
  have hd := closeFdIndex_drop ht hu
  obtain ⟨slack', ht', -, -⟩ := ht.drop hd
  generalize Fd.closeFdIndex s fd = t at hd ht' ⊢
  refine ⟨⟨⟨slack', ht'⟩, fun i j k hi hj => ?_⟩, fun i k hi => hi.of_drop hd, ?_⟩
  · exact own_eq_of_drop ht hd hi.1 hj.1 (hs.grouped i j k (hi.of_drop hd) (hj.of_drop hd))
  · cases hd with
    | leave o ho hne => exact .inl rfl
    | handOver p ho hp hne => exact .inl rfl
    | orphan ho hrefs halone => exact .inl rfl
    | last ho hrefs =>
      by_cases hkind : (s.fds fd).kind = .socket
      · have hfd : Holds s fd (s.fds fd).socketIndex := ⟨hu, hkind, rfl⟩
        refine .inr ⟨(s.fds fd).socketIndex, hfd, ?_, fun i hi => ?_⟩
        · rw [setFd, closeObject_sockets, if_pos hkind]
        · have hi' : Holds s i (s.fds fd).socketIndex := hi.of_drop (.last ho hrefs)
          have hown := (hs.grouped i fd _ hi' hfd).trans ho
          obtain rfl := ht.valid.alone ho hrefs (ht.slack_nonneg fd) hown
          simp [Holds] at hi
      · left
        rw [setFd, closeObject_sockets, if_neg hkind]

/-! ## Installing -/

variable {r : FdRecord}

/-- A record goes into a slot; if it holds a socket, it joins the slots that hold it. -/
theorem Grouped.insert (hs : Grouped s) (ht : ∃ slack, Table slack (setFd s i r).fds)
    (hr : r.kind = .socket → ∀ j, Holds s j r.socketIndex →
      own s.fds j = own (setFd s i r).fds i) : Grouped (setFd s i r) := by
  have hother : ∀ j, j ≠ i → own (setFd s i r).fds j = own s.fds j ∧
      ∀ k, Holds (setFd s i r) j k → Holds s j k := by
    intro j hj
    refine ⟨by rw [setFd_fds, own_update, update_of_ne hj], fun k hk => ?_⟩
    simpa [Holds, hj] using hk
  have hself : ∀ k, Holds (setFd s i r) i k → r.kind = .socket ∧ r.socketIndex = k := by
    intro k hk
    have hk' : r.used = true ∧ r.kind = .socket ∧ r.socketIndex = k := by simpa [Holds] using hk
    exact hk'.2
  refine ⟨ht, fun a b k ha hb => ?_⟩
  by_cases hai : a = i <;> by_cases hbi : b = i
  · rw [hai, hbi]
  · subst hai
    obtain ⟨hkind, rfl⟩ := hself k ha
    rw [(hother b hbi).1]
    exact (hr hkind b ((hother b hbi).2 _ hb)).symm
  · subst hbi
    obtain ⟨hkind, rfl⟩ := hself k hb
    rw [(hother a hai).1]
    exact hr hkind a ((hother a hai).2 _ ha)
  · rw [(hother a hai).1, (hother b hbi).1]
    exact hs.grouped a b k ((hother a hai).2 k ha) ((hother b hbi).2 k hb)

theorem Holds.of_setFd (h : Holds (setFd s j r) i k) :
    Holds s i k ∨ (r.kind = .socket ∧ r.socketIndex = k) := by
  by_cases hij : i = j
  · subst hij
    have h' : r.used = true ∧ r.kind = .socket ∧ r.socketIndex = k := by simpa [Holds] using h
    exact .inr h'.2
  · exact .inl (by simpa [Holds, hij] using h)

/-- A descriptor for a socket that no slot holds is made, or there is no room for it. -/
theorem Grouped.install {flags pid : Nat} {result : Int} (hs : Grouped s) (hk : ∀ i, ¬ Holds s i k)
    (hr : installFdRecord s pid (newRecord { kind := .socket, socketIndex := k } flags pid) (-1) =
      (result, t)) :
    Grouped t ∧ t.sockets = s.sockets ∧ (∀ i m, Holds t i m → Holds s i m ∨ m = k) ∧
      (result < 0 → t = s) := by
  obtain ⟨slack, ht⟩ := hs.table
  have hkeeps : Keeps slack s True (installFdRecord s pid
      (newRecord { kind := .socket, socketIndex := k } flags pid) (-1)).2 := newRecord_keeps ht
  have hcases := @installFdRecord_cases s
    (newRecord { kind := .socket, socketIndex := k } flags pid) pid (by simp [newRecord])
  rw [hr] at hkeeps hcases
  obtain ⟨slack', ht', -⟩ := hkeeps
  obtain hnone | ⟨m, slot, hm, -, hset⟩ := hcases
  · obtain ⟨rfl, rfl⟩ := Prod.mk.inj hnone
    exact ⟨hs, rfl, fun i m hi => .inl hi, fun _ => rfl⟩
  · obtain ⟨rfl, rfl⟩ := Prod.mk.inj hset
    refine ⟨hs.insert ⟨slack', ht'⟩ fun _ j hj => absurd hj (hk j), rfl, fun i m' hi => ?_, ?_⟩
    · exact hi.of_setFd.imp id fun h => h.2.symm
    · exact fun hneg => absurd hm (Int.not_le.2 hneg)

theorem holds_countRef :
    Holds (countRef s o) i k ↔ Holds s i k := Holds.of_kept (countRef_kept s o i)

theorem Grouped.countRef (hs : Grouped s) (ho : own s.fds o = some o) : Grouped (countRef s o) := by
  obtain ⟨slack, ht⟩ := hs.table
  have hown : own (Fd.countRef s o).fds = own s.fds := own_countChange s.fds o _
  refine ⟨⟨_, ht.countRef ho⟩, fun i j k hi hj => ?_⟩
  rw [hown]
  exact hs.grouped i j k (holds_countRef.1 hi) (holds_countRef.1 hj)

theorem Grouped.radFdDup (hs : Grouped s) (pid : Nat) (n : Int) :
    Grouped (radFdDup s pid n).2 ∧ (radFdDup s pid n).2.sockets = s.sockets ∧
      ∀ i k, Holds (radFdDup s pid n).2 i k → ∃ j, Holds s j k := by
  obtain ⟨slack, ht⟩ := hs.table
  obtain ⟨slack', ht', -⟩ := @radFdDup_keeps s slack pid n ht
  unfold Fd.radFdDup at ht' ⊢
  cases hres : resolve s.fds n pid with
  | none => exact ⟨hs, rfl, fun i k hi => ⟨i, hi⟩⟩
  | some r =>
    obtain ⟨slot, o⟩ := r
    obtain ⟨-, -, ho⟩ := resolve_some ht hres
    have hcounted := hs.countRef ho
    have ho' : own (Fd.countRef s o).fds o = some o := by
      rw [show own (Fd.countRef s o).fds = own s.fds from own_countChange s.fds o _]
      exact ho
    simp only [hres] at ht' ⊢
    obtain hsame | ⟨m, i, -, -, hset⟩ := @installFdRecord_cases (Fd.countRef s o)
      { s.fds o with ownerFd := o, localFd := -1, ownerPid := pid } pid (by simp)
    · rw [hsame]
      exact ⟨hcounted, rfl, fun i k hi => ⟨i, holds_countRef.1 hi⟩⟩
    · rw [hset] at ht' ⊢
      have hown : own (setFd (Fd.countRef s o) i (placed
          { s.fds o with ownerFd := o, localFd := -1, ownerPid := pid } m i)).fds i = some o := by
        have holt := (own_eq_some.1 ho).2.2
        refine own_eq_some.2 ⟨by simp [placed], ?_, holt⟩
        simp [placed]
      refine ⟨hcounted.insert ⟨slack', ht'⟩ fun hkind j hj => ?_, rfl, fun j k hj => ?_⟩
      · rw [hown, ← ho']
        refine hcounted.grouped j o _ hj (holds_countRef.2 ⟨Table.used_of_own ho, hkind, rfl⟩)
      · obtain hj | ⟨hkind, hk⟩ := hj.of_setFd
        · exact ⟨j, holds_countRef.1 hj⟩
        · exact ⟨o, Table.used_of_own ho, hkind, hk⟩

end RadKernel.Net
