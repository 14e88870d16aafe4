import RadKernel.Lib.Sharing
import RadKernel.Fd.Model

/-!
# The descriptor table

Invariant of the descriptor table and what closing and installing a descriptor do to it.
A slot shares the object of its owner slot; `slack` is how many references an owner
counts beyond its members, so `Table 0` is a table without leaked references.
-/

namespace RadKernel.Fd

open Kernel Function

variable {s t : KernelState} {fds : Nat → FdRecord} {slack : Nat → Int} {i j o p fd : Nat}

/-- The owner slot of a used slot. -/
def own (fds : Nat → FdRecord) (i : Nat) : Option Nat :=
  if (fds i).used then ownerSlot (fds i) else none

/-- The invariant. -/
structure Table (slack : Nat → Int) (fds : Nat → FdRecord) : Prop where
  valid : Sharing.Valid maxPosixFds (own fds) (fun i => (fds i).refs) slack
  slack_nonneg : ∀ o, 0 ≤ slack o
  linked : ∀ i, (fds i).used → ∃ o, own fds i = some o
  same : ∀ i o, own fds i = some o → (fds i).toFdObject = (fds o).toFdObject
  unique : ∀ i j, (fds i).used → (fds j).used → 0 ≤ (fds i).localFd →
    (fds i).ownerPid = (fds j).ownerPid → (fds i).localFd = (fds j).localFd → i = j
  cleared : ∀ i, (fds i).used = false → fds i = {}

/-- A record that only changed in how it is shared. -/
def Kept (r r' : FdRecord) : Prop :=
  r' = { r with refs := r'.refs, ownerFd := r'.ownerFd }

variable {r r' source : FdRecord} {localFd pid n : Int} {b : Bool} {l : List Nat}
  {fds' : Nat → FdRecord}

theorem ownerSlot_eq_some : ownerSlot r = some o ↔ r.ownerFd = o ∧ o < maxPosixFds := by
  unfold ownerSlot
  split
  · simp only [Option.some.injEq]
    omega
  · simp only [reduceCtorEq, false_iff]
    omega

theorem own_eq_some : own fds i = some o ↔
    (fds i).used = true ∧ (fds i).ownerFd = o ∧ o < maxPosixFds := by
  unfold own
  split
  · simp [ownerSlot_eq_some, *]
  · simp [*]

theorem own_eq_none_of_free (h : (fds i).used = false) : own fds i = none := by
  simp [own, h]

namespace Table

theorem used_of_own (h : own fds i = some o) : (fds i).used = true := (own_eq_some.1 h).1

theorem lt (h : Table slack fds) (hi : (fds i).used) : i < maxPosixFds := by
  obtain ⟨o, ho⟩ := h.linked i hi
  exact h.valid.inRange i o ho

theorem own_self_of_ownerFd (h : Table slack fds) (hi : (fds i).used)
    (ho : (fds i).ownerFd = i) : own fds i = some i :=
  own_eq_some.2 ⟨hi, ho, h.lt hi⟩

end Table

/-! ## Looking up a descriptor -/

/-- Slot record `r` is descriptor `localFd` of process `pid`. -/
def Names (r : FdRecord) (localFd pid : Int) : Prop :=
  r.used = true ∧ r.localFd = localFd ∧ r.ownerPid = pid

variable {found : Option Nat}

theorem findFdSlotFrom_some (h : findFdSlotFrom fds localFd pid b l found = some i) :
    (i ∈ l ∧ Names (fds i) localFd pid) ∨
      ((found = some i ∨ (i ∈ l ∧ b = true ∧ Names (fds i) localFd 0)) ∧
        ∀ j ∈ l, ¬ Names (fds j) localFd pid) := by
  induction l generalizing found with
  | nil => exact .inr ⟨.inl h, by simp⟩
  | cons k l ih =>
    rw [findFdSlotFrom] at h
    split at h
    · rename_i hk
      have hnot : ¬ Names (fds k) localFd pid := by
        rintro ⟨hu, hn, -⟩
        simp [hu, hn] at hk
      rcases ih h with ⟨hi, hn⟩ | ⟨hi, hall⟩
      · exact .inl ⟨List.mem_cons_of_mem _ hi, hn⟩
      · refine .inr ⟨?_, by simpa [hnot] using hall⟩
        exact hi.imp id fun ⟨hm, hr⟩ => ⟨List.mem_cons_of_mem _ hm, hr⟩
    · rename_i hk
      simp only [Bool.not_eq_eq_eq_not, Bool.not_true, ne_eq, not_or, Bool.not_eq_false,
        Decidable.not_not] at hk
      split at h
      · rename_i hp
        obtain rfl : k = i := by simpa using h
        exact .inl ⟨by simp, hk.1, hk.2, hp⟩
      · rename_i hp
        have hnot : ¬ Names (fds k) localFd pid := fun hn => hp hn.2.2
        split at h
        · rename_i hg
          rcases ih h with ⟨hi, hn⟩ | ⟨hi, hall⟩
          · exact .inl ⟨List.mem_cons_of_mem _ hi, hn⟩
          · refine .inr ⟨.inr ?_, by simpa [hnot] using hall⟩
            rcases hi with hi | ⟨hm, hr⟩
            · obtain rfl : k = i := by simpa using hi
              exact ⟨by simp, hg.1, hk.1, hk.2, hg.2⟩
            · exact ⟨List.mem_cons_of_mem _ hm, hr⟩
        · rcases ih h with ⟨hi, hn⟩ | ⟨hi, hall⟩
          · exact .inl ⟨List.mem_cons_of_mem _ hi, hn⟩
          · refine .inr ⟨?_, by simpa [hnot] using hall⟩
            exact hi.imp id fun ⟨hm, hr⟩ => ⟨List.mem_cons_of_mem _ hm, hr⟩

theorem findFdSlotFrom_none (h : findFdSlotFrom fds localFd pid b l found = none) :
    found = none ∧ ∀ j ∈ l, ¬ Names (fds j) localFd pid ∧ (b = true → ¬ Names (fds j) localFd 0) := by
  induction l generalizing found with
  | nil => exact ⟨h, by simp⟩
  | cons k l ih =>
    rw [findFdSlotFrom] at h
    split at h
    · rename_i hk
      have hnot : ∀ q, ¬ Names (fds k) localFd q := by
        rintro q ⟨hu, hn, -⟩
        simp [hu, hn] at hk
      obtain ⟨hf, hall⟩ := ih h
      exact ⟨hf, by simpa [hnot] using hall⟩
    · split at h
      · simp at h
      · rename_i hp
        split at h
        · simpa using (ih h).1
        · rename_i hg
          obtain ⟨hf, hall⟩ := ih h
          refine ⟨hf, ?_⟩
          intro j hj
          rcases List.mem_cons.1 hj with rfl | hj
          · exact ⟨fun hn => hp hn.2.2, fun hb hn => hg ⟨hb, hn.2.2⟩⟩
          · exact hall j hj

/-- The search sees of a slot only whether it is the descriptor looked for. -/
theorem findFdSlotFrom_congr
    (h : ∀ i ∈ l, (Names (fds i) localFd pid ↔ Names (fds' i) localFd pid) ∧
      (b = true → (Names (fds i) localFd 0 ↔ Names (fds' i) localFd 0))) (found : Option Nat) :
    findFdSlotFrom fds localFd pid b l found = findFdSlotFrom fds' localFd pid b l found := by
  induction l generalizing found with
  | nil => rfl
  | cons k l ih =>
    have ih' := fun found => ih (fun i hi => h i (List.mem_cons_of_mem _ hi)) found
    obtain ⟨hp, hg⟩ := h k (by simp)
    simp only [findFdSlotFrom, ih']
    unfold Names at hp hg
    by_cases h1 : (fds k).used = true ∧ (fds k).localFd = localFd <;>
      by_cases h2 : (fds' k).used = true ∧ (fds' k).localFd = localFd <;>
      by_cases h3 : (fds k).ownerPid = pid <;> by_cases h4 : (fds' k).ownerPid = pid <;>
      by_cases h5 : (fds k).ownerPid = 0 <;> by_cases h6 : (fds' k).ownerPid = 0 <;>
      cases b <;> grind

theorem findFdSlot_some (h : findFdSlot fds localFd pid b = some i) :
    0 ≤ localFd ∧ i < maxPosixFds ∧
      (Names (fds i) localFd pid ∨ (b = true ∧ Names (fds i) localFd 0 ∧
        ∀ j < maxPosixFds, ¬ Names (fds j) localFd pid)) := by
  unfold findFdSlot at h
  split at h
  · simp at h
  · rename_i hn
    refine ⟨by omega, ?_⟩
    rcases findFdSlotFrom_some h with ⟨hi, hnames⟩ | ⟨hi | ⟨hi, hb, hnames⟩, hall⟩
    · exact ⟨List.mem_range.1 hi, .inl hnames⟩
    · simp at hi
    · exact ⟨List.mem_range.1 hi, .inr ⟨hb, hnames, by simpa using hall⟩⟩

theorem findFdSlot_none
    (h : findFdSlot fds localFd pid b = none) (hn : 0 ≤ localFd) (hj : j < maxPosixFds) :
    ¬ Names (fds j) localFd pid := by
  unfold findFdSlot at h
  rw [if_neg (by omega)] at h
  exact ((findFdSlotFrom_none h).2 j (List.mem_range.2 hj)).1

theorem findFdSlot_congr (h : ∀ i, (Names (fds i) localFd pid ↔ Names (fds' i) localFd pid) ∧
      (b = true → (Names (fds i) localFd 0 ↔ Names (fds' i) localFd 0))) :
    findFdSlot fds localFd pid b = findFdSlot fds' localFd pid b := by
  unfold findFdSlot
  split
  · rfl
  · exact findFdSlotFrom_congr (fun i _ => h i) none

/-- The slot a search without the global fallback finds. -/
theorem findFdSlot_own (h : findFdSlot fds localFd pid false = some i) :
    0 ≤ localFd ∧ i < maxPosixFds ∧ Names (fds i) localFd pid := by
  obtain ⟨hn, hi, hnames | ⟨hb, -⟩⟩ := findFdSlot_some h
  · exact ⟨hn, hi, hnames⟩
  · simp at hb

/-! ## Closing a slot -/

@[simp] theorem setFd_fds (s : KernelState) (i : Nat) (r : FdRecord) :
    (setFd s i r).fds = update s.fds i r := rfl

@[simp] theorem closeHandle_fds (s : KernelState) (h : Option Nat) :
    (closeHandle s h).fds = s.fds := by
  cases h <;> rfl

@[simp] theorem closePipeEnd_fds (s : KernelState) (i : Nat) (w : Bool) :
    (closePipeEnd s i w).fds = s.fds := by
  unfold closePipeEnd
  split <;> rfl

section

variable {P : KernelState → Prop}

/-- Closing a socket keeps what clearing a record and unlinking a peer keep. -/
theorem closeSocket_rule (hclear : ∀ s k, P s → P (setSocket s k {}))
    (hunlink : ∀ s k, (s.sockets k).used = true → P s →
      P (setSocket s k { s.sockets k with peerIndex := maxUdpSockets })) :
    ∀ s k, P s → P (closeSocket s k) := by
  have hpeer : ∀ s k, P s → P (unlinkPeer s k) := by
    intro s k hs
    unfold unlinkPeer
    dsimp only
    split
    · next h => exact hunlink _ _ h.2 hs
    · exact hs
  have hpending : ∀ k n s, P s → P (dropPending k n s) := by
    intro k n s hs
    induction n with
    | zero => exact hs
    | succ n ih =>
      rw [dropPending]
      split
      · exact hclear _ _ (hpeer _ _ ih)
      · exact ih
  intro s k hs
  unfold closeSocket
  split
  · exact hclear _ _ (hpending _ _ _ (hpeer _ _ hs))
  · exact hs

theorem closeObject_rule (hhandle : ∀ s closed, P s → P { s with closed := closed })
    (hpipe : ∀ s k w, P s → P (closePipeEnd s k w)) (hsocket : ∀ s k, P s → P (closeSocket s k))
    (x : FdObject) (hs : P s) : P (closeObject s x) := by
  have hclose : ∀ {s} h, P s → P (closeHandle s h) := by
    intro s h hs
    cases h with
    | none => exact hs
    | some x => exact hhandle _ _ hs
  have hhandles := hclose x.device (hclose x.dir (hclose x.file hs))
  unfold closeObject
  dsimp only
  split <;> split
  · exact hsocket _ _ (hpipe _ _ _ hhandles)
  · exact hsocket _ _ hhandles
  · exact hpipe _ _ _ hhandles
  · exact hhandles

end

@[simp] theorem closeObject_fds (s : KernelState) (x : FdObject) : (closeObject s x).fds = s.fds :=
  closeObject_rule (P := fun t => t.fds = s.fds) (fun _ _ h => h)
    (fun _ _ _ h => by simpa using h) (closeSocket_rule (fun _ _ h => h) fun _ _ _ h => h) x rfl

/-- What `close_fd_index` does to a used slot: a slot that shares leaves its owner, an owner
hands its object to another member, the last member closes the object, or an owner with
leaked references stays behind without a name. -/
inductive Drop (s : KernelState) (fd : Nat) : KernelState → Prop
  | leave (o : Nat) : own s.fds fd = some o → fd ≠ o →
      Drop s fd (setFd (setFd s o { s.fds o with refs := (s.fds o).refs - 1 }) fd {})
  | handOver (p : Nat) : own s.fds fd = some fd → own s.fds p = some fd → p ≠ fd →
      Drop s fd { s with fds := promote s.fds fd p }
  | last : own s.fds fd = some fd → (s.fds fd).refs ≤ 1 →
      Drop s fd (setFd (closeObject s (s.fds fd).toFdObject) fd {})
  | orphan : own s.fds fd = some fd → 1 < (s.fds fd).refs →
      (∀ p, own s.fds p = some fd → p = fd) →
      Drop s fd (setFd s fd
        { s.fds fd with refs := (s.fds fd).refs - 1, localFd := -1, ownerPid := -1 })

theorem promotion_some (h : promotion fds fd = some p) (hfd : fd < maxPosixFds) :
    p ≠ fd ∧ own fds p = some fd := by
  have := List.find?_some h
  simp only [ne_eq, Bool.decide_and, Bool.and_eq_true, decide_eq_true_eq] at this
  exact ⟨this.1, own_eq_some.2 ⟨this.2.1, this.2.2, hfd⟩⟩

theorem promotion_none (ht : Table slack fds) (h : promotion fds fd = none)
    (hp : own fds p = some fd) : p = fd := by
  by_contra hne
  obtain ⟨hu, ho, -⟩ := own_eq_some.1 hp
  have hlt := ht.valid.inRange p fd hp
  have := List.find?_eq_none.1 h p (List.mem_range.2 hlt)
  simp [hne, hu, ho] at this

theorem closeFdIndex_drop (h : Table slack s.fds) (hu : (s.fds fd).used) :
    Drop s fd (closeFdIndex s fd) := by
  obtain ⟨o, ho⟩ := h.linked fd hu
  obtain ⟨-, howner, holt⟩ := own_eq_some.1 ho
  have hlt := h.lt hu
  unfold closeFdIndex
  rw [if_neg (by simp [hu]; omega)]
  by_cases hne : fd = o
  · subst hne
    rw [if_neg (by omega)]
    dsimp only
    have hclose : (s.fds fd).refs ≤ 1 → Drop s fd (closeFdRecord s fd) := by
      intro hrefs
      unfold closeFdRecord
      rw [if_neg (by simp [hu]), if_neg (by omega)]
      exact .last ho hrefs
    split
    · rename_i hrefs
      split
      · rename_i p hp
        obtain ⟨hpne, hpown⟩ := promotion_some hp hlt
        exact .handOver p ho hpown hpne
      · rename_i hnone
        unfold closeFdRecord
        rw [if_neg (by simp [hu]), if_pos (by omega)]
        exact .orphan ho hrefs fun p hp => promotion_none h hnone hp
    · rename_i hrefs
      exact hclose (by omega)
  · rw [if_pos (by omega), ownerSlot_eq_some.2 ⟨howner, holt⟩]
    have hroot := h.valid.rooted fd o ho
    have hrefs := h.valid.two_le ho hne (h.slack_nonneg o)
    show Drop s fd (setFd (if _ then _ else _) fd _)
    rw [if_pos ⟨Table.used_of_own hroot, by omega⟩]
    exact .leave o ho hne

/-- Nothing but the closed slot changes, apart from how objects are shared. -/
theorem Drop.kept (hd : Drop s fd t) (hj : j ≠ fd) : Kept (s.fds j) (t.fds j) := by
  cases hd with
  | leave o ho hne =>
    by_cases hjo : j = o
    · subst hjo
      simp [Kept, hj]
    · simp [Kept, hj, hjo]
  | handOver p ho hp hne =>
    simp only [promote, hj, if_false]
    split
    · rfl
    · split <;> rfl
  | last ho hrefs => simp [Kept, hj]
  | orphan ho hrefs halone => simp [Kept, hj]

/-- The closed slot names no descriptor any more. -/
theorem Drop.unnamed (hd : Drop s fd t) (hu : (t.fds fd).used = true) :
    (t.fds fd).localFd = -1 ∧ (t.fds fd).ownerPid = -1 := by
  cases hd with
  | leave o ho hne => simp at hu
  | handOver p ho hp hne => simp [promote] at hu
  | last ho hrefs => simp at hu
  | orphan ho hrefs halone => simp

section
variable (fds)

theorem own_update (i : Nat) (r : FdRecord) :
    own (update fds i r) =
      update (own fds) i (if r.used then ownerSlot r else none) := by
  funext j
  by_cases hj : j = i
  · subst hj
    simp [own]
  · simp [own, hj]

theorem refs_update (i : Nat) (r : FdRecord) :
    (fun j => (update fds i r j).refs) =
      update (fun j => (fds j).refs) i r.refs := by
  funext j
  by_cases hj : j = i
  · subst hj
    simp
  · simp [hj]

theorem own_countChange (o : Nat) (x : Int) :
    own (update fds o { fds o with refs := x }) = own fds := by
  rw [own_update]
  funext j
  by_cases hj : j = o
  · subst hj
    simp [own, ownerSlot]
  · simp [hj]

end

theorem own_promote (ht : Table slack fds) (hfd : own fds fd = some fd)
    (hp : own fds p = some fd) (hne : p ≠ fd) :
    own (promote fds fd p) = Sharing.handOver (own fds) fd p := by
  funext j
  have hplt := ht.valid.inRange p fd hp
  by_cases hj : j = fd
  · subst hj
    simp [own, promote, Sharing.handOver]
  · by_cases hjp : j = p
    · subst hjp
      simp only [Sharing.handOver, hj, if_false, hp, if_true]
      simp [own, promote, hj, ownerSlot, Table.used_of_own hp, hplt]
    · by_cases ho : own fds j = some fd
      · obtain ⟨hu, howner, -⟩ := own_eq_some.1 ho
        have hjlt := ht.valid.inRange j fd ho
        simp only [Sharing.handOver, hj, ho, if_false, if_true]
        simp [own, promote, hj, hjp, ownerSlot, hu, howner, hplt, hjlt]
      · have hrec : promote fds fd p j = fds j := by
          have hfdlt := ht.valid.inRange fd fd hfd
          simp only [promote, hj, hjp, if_false]
          rw [if_neg]
          rintro ⟨-, hu, howner⟩
          exact ho (own_eq_some.2 ⟨hu, howner, hfdlt⟩)
        simp only [Sharing.handOver, hj, ho, if_false]
        simp [own, hrec]

theorem refs_promote (hne : p ≠ fd) :
    (fun j => (promote fds fd p j).refs) =
      update (update (fun j => (fds j).refs) p ((fds fd).refs - 1)) fd 0 := by
  funext j
  by_cases hj : j = fd
  · subst hj
    simp [promote]
  · by_cases hjp : j = p
    · subst hjp
      simp [promote, hj]
    · simp only [promote, hj, hjp, if_false, update_of_ne, ne_eq, not_false_eq_true]
      split <;> rfl

/-- A slot other than the closed one keeps its place among the names. -/
theorem Drop.unique (ht : Table slack s.fds) (hd : Drop s fd t) :
    ∀ i j, (t.fds i).used → (t.fds j).used → 0 ≤ (t.fds i).localFd →
      (t.fds i).ownerPid = (t.fds j).ownerPid → (t.fds i).localFd = (t.fds j).localFd → i = j := by
  intro i j hi hj hn hpid hloc
  have hne : i ≠ fd := by
    rintro rfl
    have := hd.unnamed hi
    omega
  have hne' : j ≠ fd := by
    rintro rfl
    have := hd.unnamed hj
    omega
  have hki : (t.fds i) = _ := hd.kept hne
  have hkj : (t.fds j) = _ := hd.kept hne'
  rw [hki] at hi hn hpid hloc
  rw [hkj] at hj hpid hloc
  exact ht.unique i j hi hj hn hpid hloc

/-- Objects survive: what the slots share is the object they were opened on. -/
theorem Kept.object (h : Kept r r') : r'.toFdObject = r.toFdObject := by
  rw [h]

theorem Kept.used (h : Kept r r') : r'.used = r.used := by
  rw [h]

/-- A slot that is in use after a slot was closed was so before, with its object. -/
theorem Drop.object (hd : Drop s fd t) (hi : (t.fds i).used = true) :
    (s.fds i).used = true ∧ (t.fds i).toFdObject = (s.fds i).toFdObject := by
  by_cases hne : i = fd
  · subst hne
    cases hd with
    | leave o ho hne => simp at hi
    | handOver p ho hp hne => simp [promote] at hi
    | last ho hrefs => simp at hi
    | orphan ho hrefs halone => simpa using Table.used_of_own ho
  · have hkept := hd.kept hne
    exact ⟨hkept.used ▸ hi, hkept.object⟩

section
variable (ht : Table slack s.fds)
include ht

theorem table_leave (ho : own s.fds fd = some o) (hne : fd ≠ o) :
    Table slack
      (setFd (setFd s o { s.fds o with refs := (s.fds o).refs - 1 }) fd {}).fds := by
  have hd := Drop.leave o ho hne
  have hown : own (setFd (setFd s o { s.fds o with refs := (s.fds o).refs - 1 }) fd {}).fds =
      update (own s.fds) fd none := by
    rw [setFd_fds, setFd_fds, own_update, own_countChange]
    simp
  refine ⟨?_, ht.slack_nonneg, ?_, ?_, hd.unique ht, ?_⟩
  · rw [hown]
    simp only [setFd_fds, refs_update]
    exact ht.valid.leave ho hne _
  · intro i hi
    have hi' : i ≠ fd := by
      rintro rfl
      simp at hi
    obtain ⟨q, hq⟩ := ht.linked i ((hd.kept hi').used ▸ hi)
    exact ⟨q, by rw [hown]; simpa [hi'] using hq⟩
  · intro i q hq
    rw [hown] at hq
    have hi' : i ≠ fd := by
      rintro rfl
      simp at hq
    have hq' : own s.fds i = some q := by simpa [hi'] using hq
    have hqfd : q ≠ fd := by
      rintro rfl
      exact ht.valid.not_owner (by simp [ho, Ne.symm hne]) i hq'
    rw [(hd.kept hi').object, (hd.kept hqfd).object]
    exact ht.same i q hq'
  · intro i hi
    by_cases hi' : i = fd
    · simp [hi']
    · have hfree := ht.cleared i ((hd.kept hi').used ▸ hi)
      have hio : i ≠ o := by
        rintro rfl
        have hused := Table.used_of_own (ht.valid.rooted fd i ho)
        simp [hfree] at hused
      simpa [hi', hio] using hfree

section
variable (ho : own s.fds fd = some fd)
include ho

theorem table_handOver (hp : own s.fds p = some fd) (hne : p ≠ fd) :
    Table (update slack p (slack fd)) (promote s.fds fd p) := by
  have hd : Drop s fd { s with fds := promote s.fds fd p } := Drop.handOver p ho hp hne
  have hown := own_promote ht ho hp hne
  refine ⟨?_, ?_, ?_, ?_, hd.unique ht, ?_⟩
  · rw [hown, refs_promote hne]
    exact ht.valid.handOver ho hp hne 0
  · intro q
    by_cases hq : q = p
    · simpa [hq] using ht.slack_nonneg fd
    · simpa [hq] using ht.slack_nonneg q
  · intro i hi
    have hi' : i ≠ fd := by
      rintro rfl
      simp [promote] at hi
    obtain ⟨q, hq⟩ := ht.linked i ((hd.kept hi').used ▸ hi)
    rw [hown]
    simp only [Sharing.handOver, hi', if_false]
    split
    · exact ⟨p, rfl⟩
    · exact ⟨q, hq⟩
  · intro i q hq
    rw [hown] at hq
    have hi' : i ≠ fd := by
      rintro rfl
      simp [Sharing.handOver] at hq
    rw [show (promote s.fds fd p i).toFdObject = _ from (hd.kept hi').object]
    by_cases hio : own s.fds i = some fd
    · obtain rfl : p = q := by simpa [Sharing.handOver, hi', hio] using hq
      rw [show (promote s.fds fd p p).toFdObject = _ from (hd.kept hne).object]
      rw [ht.same i fd hio, ht.same p fd hp]
    · have hq' : own s.fds i = some q := by simpa [Sharing.handOver, hi', hio] using hq
      have hqfd : q ≠ fd := fun e => hio (e ▸ hq')
      rw [show (promote s.fds fd p q).toFdObject = _ from (hd.kept hqfd).object]
      exact ht.same i q hq'
  · intro i hi
    by_cases hi' : i = fd
    · simp [promote, hi']
    · have hfree := ht.cleared i ((hd.kept hi').used ▸ hi)
      have hip : i ≠ p := by
        rintro rfl
        have hused := Table.used_of_own hp
        simp [hfree] at hused
      simp [promote, hi', hip, hfree]

theorem table_last (halone : ∀ p, own s.fds p = some fd → p = fd) :
    Table slack (update s.fds fd {}) := by
  have hown : own (update s.fds fd {}) = update (own s.fds) fd none := by
    simp [own_update]
  refine ⟨?_, ht.slack_nonneg, ?_, ?_, ?_, ?_⟩
  · rw [hown]
    simp only [refs_update]
    exact ht.valid.last ho halone _
  · intro i hi
    have hi' : i ≠ fd := by
      rintro rfl
      simp at hi
    obtain ⟨q, hq⟩ := ht.linked i (by simpa [hi'] using hi)
    exact ⟨q, by simpa [hown, hi'] using hq⟩
  · intro i q hq
    rw [hown] at hq
    have hi' : i ≠ fd := by
      rintro rfl
      simp at hq
    have hq' : own s.fds i = some q := by simpa [hi'] using hq
    have hqfd : q ≠ fd := fun e => hi' (halone i (e ▸ hq'))
    simpa [hi', hqfd] using ht.same i q hq'
  · intro i j hi hj
    have hi' : i ≠ fd := by
      rintro rfl
      simp at hi
    have hj' : j ≠ fd := by
      rintro rfl
      simp at hj
    simp only [update_of_ne hi', update_of_ne hj'] at *
    exact ht.unique i j hi hj
  · intro i hi
    by_cases hi' : i = fd
    · simp [hi']
    · simpa [hi'] using ht.cleared i (by simpa [hi'] using hi)

theorem table_orphan (hrefs : 1 < (s.fds fd).refs) (halone : ∀ p, own s.fds p = some fd → p = fd) :
    0 < slack fd ∧ Table (update slack fd (slack fd - 1)) (setFd s fd
      { s.fds fd with refs := (s.fds fd).refs - 1, localFd := -1, ownerPid := -1 }).fds := by
  have hd := Drop.orphan ho hrefs halone
  have hslack : 0 < slack fd := by
    have hcount := ht.valid.counted fd ho
    have hcard : (Sharing.members maxPosixFds (own s.fds) fd).card ≤ 1 := by
      refine Finset.card_le_one.2 fun a ha b hb => ?_
      rw [halone a (Sharing.mem_members.1 ha).2, halone b (Sharing.mem_members.1 hb).2]
    omega
  refine ⟨hslack, ?_⟩
  have hown : own (setFd s fd
      { s.fds fd with refs := (s.fds fd).refs - 1, localFd := -1, ownerPid := -1 }).fds =
      own s.fds := by
    rw [setFd_fds, own_update]
    funext j
    by_cases hj : j = fd
    · subst hj
      simp [own, ownerSlot]
    · simp [hj]
  refine ⟨?_, ?_, ?_, ?_, hd.unique ht, ?_⟩
  · rw [hown]
    simp only [setFd_fds, refs_update]
    exact ht.valid.shift fd (-1)
  · intro q
    by_cases hq : q = fd
    · subst hq
      simp
      omega
    · simpa [hq] using ht.slack_nonneg q
  · intro i hi
    rw [hown]
    by_cases hi' : i = fd
    · exact ⟨fd, hi' ▸ ho⟩
    · exact ht.linked i ((hd.kept hi').used ▸ hi)
  · intro i q hq
    rw [hown] at hq
    have hsame := ht.same i q hq
    have hobject : ∀ k, ((setFd s fd { s.fds fd with
        refs := (s.fds fd).refs - 1, localFd := -1, ownerPid := -1 }).fds k).toFdObject =
        (s.fds k).toFdObject := by
      intro k
      by_cases hk : k = fd
      · subst hk
        simp
      · exact (hd.kept hk).object
    rw [hobject, hobject, hsame]
  · intro i hi
    by_cases hi' : i = fd
    · subst hi'
      have hused := Table.used_of_own ho
      simp [hused] at hi
    · simpa [hi'] using ht.cleared i ((hd.kept hi').used ▸ hi)

end

/-- Closing a slot keeps the table. The slack of the other owners stays, and a table without
slack at the closed slot gets none. -/
theorem Table.drop (hd : Drop s fd t) :
    ∃ slack', Table slack' t.fds ∧
      (∀ q, q ≠ fd → own s.fds q = some q → slack' q = slack q) ∧
      (slack fd = 0 → ∀ q, slack q = 0 → slack' q = 0) := by
  cases hd with
  | leave o ho hne => exact ⟨slack, table_leave ht ho hne, fun _ _ _ => rfl, fun _ _ h => h⟩
  | handOver p ho hp hne =>
    refine ⟨_, table_handOver ht ho hp hne, ?_, ?_⟩
    · intro q hq hself
      have hqp : q ≠ p := by
        rintro rfl
        rw [hp, Option.some.injEq] at hself
        exact hq hself.symm
      simp [hqp]
    · intro hfd q hq
      by_cases hqp : q = p
      · simp [hqp, hfd]
      · simpa [hqp] using hq
  | last ho hrefs =>
    have halone := fun p hp => ht.valid.alone (j := p) ho hrefs (ht.slack_nonneg fd) hp
    refine ⟨slack, ?_, fun _ _ _ => rfl, fun _ _ h => h⟩
    simpa using table_last ht ho halone
  | orphan ho hrefs halone =>
    obtain ⟨hpos, ht'⟩ := table_orphan ht ho hrefs halone
    refine ⟨_, ht', ?_, ?_⟩
    · intro q hq _
      simp [hq]
    · intro hzero
      omega

/-- The other owners stay owners. -/
theorem Drop.own_self (hd : Drop s fd t) (ho : own s.fds o = some o)
    (hne : o ≠ fd) : own t.fds o = some o := by
  obtain ⟨hu, howner, hlt⟩ := own_eq_some.1 ho
  cases hd with
  | leave q hq hfd =>
    refine own_eq_some.2 ?_
    by_cases hoq : o = q
    · subst hoq
      simp [hne, hu, howner, hlt]
    · simp [hne, hoq, hu, howner, hlt]
  | handOver q hfd hq hqfd =>
    rw [own_promote ht hfd hq hqfd]
    simp [Sharing.handOver, hne, ho]
  | last hfd hrefs => exact own_eq_some.2 (by simp [hne, hu, howner, hlt])
  | orphan hfd hrefs halone => exact own_eq_some.2 (by simp [hne, hu, howner, hlt])

end

/-! ## Installing a record -/

theorem freeSlot_some (h : freeSlot fds = some i) : i < maxPosixFds ∧ (fds i).used = false := by
  have hmem := List.mem_of_find?_eq_some h
  have hp := List.find?_some h
  exact ⟨List.mem_range.1 hmem, by simpa using hp⟩

theorem freeSlot_none (h : freeSlot fds = none) (hi : i < maxPosixFds) : (fds i).used = true := by
  have := List.find?_eq_none.1 h i (List.mem_range.2 hi)
  simpa using this

theorem freeNumber_some {n : Nat} (h : freeNumber fds pid = some n) :
    3 ≤ n ∧ n < maxPosixFds ∧ findFdSlot fds n pid false = none := by
  have hmem := List.mem_of_find?_eq_some h
  have hp := List.find?_some h
  rw [List.mem_range'_1] at hmem
  exact ⟨hmem.1, by unfold maxPosixFds at *; omega, by simpa using hp⟩

/-- The record `install_fd_record` puts into `slot`. -/
def placed (source : FdRecord) (localFd : Int) (slot : Nat) : FdRecord :=
  { source with
    used := true
    localFd := localFd
    ownerFd := if source.ownerFd < 0 then slot else source.ownerFd }

/-- There is a number and a slot for a new descriptor of `pid`. A descriptor that is replaced
leaves its slot. -/
def Room (fds : Nat → FdRecord) (pid requested : Int) : Prop :=
  (requested < 0 → freeNumber fds pid ≠ none) ∧ requested < maxPosixFds ∧
    (freeSlot fds ≠ none ∨ findFdSlot fds requested pid false ≠ none)

/-- What `install_fd_record` can do. -/
inductive Installed (s : KernelState) (source : FdRecord) (requested : Int) :
    Int × KernelState → Prop
  | new (n : Int) (slot : Nat) : findFdSlot s.fds n source.ownerPid false = none →
      0 ≤ n → (requested < 0 ∧ 3 ≤ n ∨ n = requested) → freeSlot s.fds = some slot →
      Installed s source requested (n, setFd s slot (placed source n slot))
  | replaced (e slot : Nat) : findFdSlot s.fds requested source.ownerPid false = some e →
      freeSlot (closeFdIndex s e).fds = some slot →
      Installed s source requested
        (requested, setFd (closeFdIndex s e) slot (placed source requested slot))
  | full : ¬ Room s.fds source.ownerPid requested →
      Installed s source requested (Status.noMemory.code, s)
  | stuck (e : Nat) : findFdSlot s.fds requested source.ownerPid false = some e →
      freeSlot (closeFdIndex s e).fds = none →
      Installed s source requested (Status.noMemory.code, closeFdIndex s e)

theorem placeFdRecord_some (h : freeSlot s.fds = some i) :
    placeFdRecord s source source.ownerPid localFd =
      (localFd, setFd s i (placed source localFd i)) := by
  unfold placeFdRecord placed
  rw [h]

theorem placeFdRecord_none (h : freeSlot s.fds = none) :
    placeFdRecord s source pid localFd = (Status.noMemory.code, s) := by
  unfold placeFdRecord
  rw [h]

theorem installFdRecord_installed (s : KernelState) (caller requested : Int) (source : FdRecord)
    (hpid : 0 ≤ source.ownerPid) :
    Installed s source requested (installFdRecord s caller source requested) := by
  unfold installFdRecord
  dsimp only
  split
  · rename_i hreq
    split
    · rename_i n hn
      obtain ⟨hle, -, hnone⟩ := freeNumber_some hn
      cases hslot : freeSlot s.fds with
      | some slot =>
        rw [placeFdRecord_some hslot]
        exact .new n slot hnone (by omega) (.inl ⟨hreq, by omega⟩) hslot
      | none =>
        rw [placeFdRecord_none hslot]
        refine .full fun hroom => ?_
        rcases hroom.2.2 with h | h
        · exact h hslot
        · exact h (by simp [findFdSlot, hreq])
    · rename_i hn
      exact .full fun hroom => hroom.1 hreq hn
  · rename_i hreq
    split
    · rename_i hbig
      exact .full fun hroom => by have := hroom.2.1; omega
    · split
      · rename_i e he
        cases hslot : freeSlot (closeFdIndex s e).fds with
        | some slot =>
          rw [placeFdRecord_some hslot]
          exact .replaced e slot he hslot
        | none =>
          rw [placeFdRecord_none hslot]
          exact .stuck e he hslot
      · rename_i he
        cases hslot : freeSlot s.fds with
        | some slot =>
          rw [placeFdRecord_some hslot]
          exact .new requested slot he (by omega) (.inr rfl) hslot
        | none =>
          rw [placeFdRecord_none hslot]
          refine .full fun hroom => ?_
          rcases hroom.2.2 with h | h
          · exact h hslot
          · exact h he

/-- A used record goes into a free slot under a name nobody has. -/
theorem table_insert {slack' : Nat → Int} (ht : Table slack fds)
    (hfree : (fds i).used = false) (hused : r.used = true) (hown : ownerSlot r = some o)
    (hvalid : Sharing.Valid maxPosixFds (update (own fds) i (some o))
      (update (fun j => (fds j).refs) i r.refs) slack')
    (hslack : ∀ q, 0 ≤ slack' q) (hobject : o = i ∨ (fds o).toFdObject = r.toFdObject)
    (hname : ∀ j, ¬ Names (fds j) r.localFd r.ownerPid) : Table slack' (update fds i r) := by
  have hown' : own (update fds i r) = update (own fds) i (some o) := by
    simp [own_update, hused, hown]
  refine ⟨?_, hslack, ?_, ?_, ?_, ?_⟩
  · rw [hown', refs_update]
    exact hvalid
  · intro j hj
    rw [hown']
    by_cases hji : j = i
    · exact ⟨o, by simp [hji]⟩
    · obtain ⟨q, hq⟩ := ht.linked j (by simpa [hji] using hj)
      exact ⟨q, by simpa [hji] using hq⟩
  · intro j q hq
    rw [hown'] at hq
    by_cases hji : j = i
    · subst hji
      obtain rfl : o = q := by simpa using hq
      rcases hobject with rfl | h
      · rfl
      · by_cases hoj : o = j
        · rw [hoj]
        · simp [hoj, h]
    · have hq' : own fds j = some q := by simpa [hji] using hq
      have hqi : q ≠ i := by
        rintro rfl
        exact ht.valid.not_owner (by simp [own_eq_none_of_free hfree]) j hq'
      simpa [hji, hqi] using ht.same j q hq'
  · intro a b ha hb hn hpid hloc
    by_cases hai : a = i
    · subst hai
      by_cases hba : b = a
      · exact hba.symm
      · simp only [update_self, update_of_ne hba] at *
        exact absurd ⟨hb, hloc.symm, hpid.symm⟩ (hname b)
    · by_cases hbi : b = i
      · subst hbi
        simp only [update_self, update_of_ne hai] at *
        exact absurd ⟨ha, hloc, hpid⟩ (hname a)
      · simp only [update_of_ne hai, update_of_ne hbi] at *
        exact ht.unique a b ha hb hn hpid hloc
  · intro j hj
    by_cases hji : j = i
    · simp [hji, hused] at hj
    · simpa [hji] using ht.cleared j (by simpa [hji] using hj)

section
variable (ht : Table slack fds) (hslot : freeSlot fds = some i)
include ht hslot

/-- A record that is to be its own owner is installed. -/
theorem Table.insert_new (howner : source.ownerFd < 0) (hrefs : source.refs = 1)
    (hname : ∀ j, ¬ Names (fds j) n source.ownerPid) :
    Table (update slack i 0) (update fds i (placed source n i)) := by
  obtain ⟨hlt, hfree⟩ := freeSlot_some hslot
  refine table_insert ht hfree rfl ?_ ?_ ?_ (.inl rfl) hname
  · exact ownerSlot_eq_some.2 ⟨by simp [placed, howner], hlt⟩
  · rw [show (placed source n i).refs = 1 from hrefs]
    exact ht.valid.fresh hlt (own_eq_none_of_free hfree)
  · intro q
    by_cases hq : q = i
    · simp [hq]
    · simpa [hq] using ht.slack_nonneg q

theorem Table.insert_shared (ho : own fds o = some o) (howner : source.ownerFd = o)
    (hobject : (fds o).toFdObject = source.toFdObject) (hslack : 1 ≤ slack o)
    (hname : ∀ j, ¬ Names (fds j) n source.ownerPid) :
    Table (update slack o (slack o - 1)) (update fds i (placed source n i)) := by
  obtain ⟨hlt, hfree⟩ := freeSlot_some hslot
  have holt := (own_eq_some.1 ho).2.2
  refine table_insert ht hfree rfl ?_ ?_ ?_ (.inr hobject) hname
  · refine ownerSlot_eq_some.2 ⟨?_, holt⟩
    simp only [placed, howner]
    rw [if_neg (by omega)]
  · exact ht.valid.join hlt (own_eq_none_of_free hfree) ho _
  · intro q
    by_cases hq : q = o
    · subst hq
      simp
      omega
    · simpa [hq] using ht.slack_nonneg q

end

/-- Counting a reference to an owner is slack until the reference exists. -/
theorem Table.countRef (ht : Table slack s.fds) (ho : own s.fds o = some o) :
    Table (update slack o (slack o + 1)) (countRef s o).fds := by
  have hown : own (Fd.countRef s o).fds = own s.fds := own_countChange s.fds o _
  have hkept : ∀ j, Kept (s.fds j) ((Fd.countRef s o).fds j) := by
    intro j
    by_cases hj : j = o
    · subst hj
      simp [Fd.countRef, Kept]
    · simp [Fd.countRef, Kept, hj]
  refine ⟨?_, ?_, ?_, ?_, ?_, ?_⟩
  · rw [hown]
    simp only [Fd.countRef, setFd_fds, refs_update]
    exact ht.valid.shift o 1
  · intro q
    by_cases hq : q = o
    · subst hq
      have := ht.slack_nonneg q
      simp
      omega
    · simpa [hq] using ht.slack_nonneg q
  · intro i hi
    rw [hown]
    exact ht.linked i ((hkept i).used ▸ hi)
  · intro i q hq
    rw [hown] at hq
    rw [(hkept i).object, (hkept q).object]
    exact ht.same i q hq
  · intro i j hi hj
    rw [hkept i] at *
    rw [hkept j] at *
    exact ht.unique i j hi hj
  · intro i hi
    have hfree := ht.cleared i ((hkept i).used ▸ hi)
    have hio : i ≠ o := by
      rintro rfl
      have := Table.used_of_own ho
      simp [hfree] at this
    simpa [Fd.countRef, hio] using hfree

end RadKernel.Fd
