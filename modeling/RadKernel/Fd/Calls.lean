import RadKernel.Fd.Table

/-!
# Runs of descriptor calls

The calls that reach the descriptor table, as one step function, and what each of them does
to the table invariant. A call keeps `Table` unless it duplicates a descriptor onto the slot
that owns the object; it adds no slack unless it runs out of room.
-/

namespace RadKernel.Fd

open Kernel

variable {s t : KernelState} {fds : Nat → FdRecord} {slack : Nat → Int} {i j o fd : Nat}

inductive Call where
  | open (pid : Nat) (path : List Char) (flags : Nat) (backend : Status)
  | close (pid : Nat) (fd : Int)
  | dup (pid : Nat) (fd : Int)
  | dup2 (pid : Nat) (oldFd newFd : Int)
  | fcntl (pid : Nat) (fd : Int) (command : FcntlCommand)
  | pipe (pid : Nat)
  | socket (pid : Nat) (domain type protocol : Int)
  | accept (pid : Nat) (fd : Int)
  | shmOpen (pid : Nat) (name : List Char) (byteSize flags : Nat)
  | shmUnlink (name : List Char)
  | clone (caller : Nat) (parentPid childPid : Int)
  | exec (pid : Int) (path : List Char)
  | wait (caller : Nat) (pid : Int)
  /-- Fork, exit and kill change the process table and no other. -/
  | processes (table : Nat → ProcessRecord)
  /-- The other socket calls and the network change records of sockets. -/
  | sockets (table : Nat → SocketRecord)

def perform (s : KernelState) : Call → Int × KernelState
  | .open pid path flags backend => radFdOpen s pid path flags backend
  | .close pid fd => radFdClose s pid fd
  | .dup pid fd => radFdDup s pid fd
  | .dup2 pid oldFd newFd => radFdDup2 s pid oldFd newFd
  | .fcntl pid fd command => radFdFcntl s pid fd command
  | .pipe pid => ((radPipeCreate s pid).1.1, (radPipeCreate s pid).2)
  | .socket pid domain type protocol => radSocketCreate s pid domain type protocol
  | .accept pid fd => ((radSocketAccept s pid fd).1.1, (radSocketAccept s pid fd).2)
  | .shmOpen pid name byteSize flags => radShmOpen s pid name byteSize flags
  | .shmUnlink name => radShmUnlink s name
  | .clone caller parentPid childPid => radProcessCloneFds s caller parentPid childPid
  | .exec pid path => radProcessMarkExec s pid path
  | .wait caller pid => ((radProcessWaitpid s caller pid).1.1, (radProcessWaitpid s caller pid).2)
  | .processes table => (0, { s with processes := table })
  | .sockets table => (0, { s with sockets := table })

/-- Every copy the loop of `rad_process_clone_fds` makes, of slot `n` with its object in slot
`o`, meets the condition. -/
def Copies (P : KernelState → Nat → Nat → Prop) (parentPid childPid caller : Int) :
    Nat → Nat → KernelState → Prop
  | 0, _, _ => True
  | fuel + 1, n, s =>
    if !(s.fds n).used ∨ (s.fds n).ownerPid ≠ parentPid then
      Copies P parentPid childPid caller fuel (n + 1) s
    else
      match fdOwnerIndex s.fds n with
      | none => Copies P parentPid childPid caller fuel (n + 1) s
      | some o =>
        P s n o ∧ ((copyFd s caller childPid n o).1 < 0 ∨
          Copies P parentPid childPid caller fuel (n + 1) (copyFd s caller childPid n o).2)

/-- The descriptor that gives way to a duplicate is not the owner of the duplicated object. -/
def Apart (s : KernelState) : Call → Prop
  | .dup2 pid oldFd newFd => oldFd = newFd ∨
      ∀ slot o, resolve s.fds oldFd pid = some (slot, o) → findFdSlot s.fds newFd pid false ≠ some o
  | .clone caller parentPid childPid =>
      (parentPid ≤ 0 ∨ childPid ≤ 0 ∨ parentPid = childPid) ∨
      Copies (fun s n o => findFdSlot s.fds (s.fds n).localFd childPid false ≠ some o)
        parentPid childPid caller maxPosixFds 0 s
  | _ => True

/-- A call that makes a descriptor finds a number and a slot for it. Pipes and sockets need
no such condition: their calls undo what they did. -/
def HasRoom (s : KernelState) : Call → Prop
  | .open pid _ _ backend => backend = .ok → Room s.fds pid (-1)
  | .dup pid fd => resolve s.fds fd pid = none ∨ Room s.fds pid (-1)
  | .dup2 pid oldFd newFd => newFd < 0 ∨ oldFd = newFd ∨ resolve s.fds oldFd pid = none ∨
      Room s.fds pid newFd
  | .clone caller parentPid childPid =>
      (parentPid ≤ 0 ∨ childPid ≤ 0 ∨ parentPid = childPid) ∨
      Copies (fun s n _ => Room s.fds childPid (s.fds n).localFd)
        parentPid childPid caller maxPosixFds 0 s
  | _ => True

/-- The states that calls which meet `P` lead to. -/
inductive Reached (P : KernelState → Call → Prop) : KernelState → Prop
  | boot (console : Bool) (processes : Nat → ProcessRecord) : Reached P (boot console processes)
  | step {s : KernelState} (c : Call) : Reached P s → P s c → Reached P (perform s c).2

/-- What holds at the start and is kept by every call that meets `P` holds in every state. -/
theorem Reached.invariant {P : KernelState → Call → Prop} {J : KernelState → Prop}
    (hboot : ∀ console processes, J (Fd.boot console processes))
    (hstep : ∀ s c, J s → P s c → J (perform s c).2) (h : Reached P s) : J s := by
  induction h with
  | boot console processes => exact hboot console processes
  | step c _ hP ih => exact hstep _ c ih hP

/-- No references leaked and every used slot is a descriptor of some process. -/
structure Exact (slack : Nat → Int) (fds : Nat → FdRecord) : Prop where
  slack_zero : ∀ q, slack q = 0
  named : ∀ i, (fds i).used → 0 ≤ (fds i).localFd ∧ 0 ≤ (fds i).ownerPid

/-! ## One descriptor -/

variable {slack' : Nat → Int} {n pid requested caller childPid : Int} {b : Bool}
  {r source : FdRecord} {fds' : Nat → FdRecord} {C C' : Prop}

theorem Exact.drop (he : Exact slack s.fds) (hd : Drop s fd t)
    (hslack : ∀ q, slack' q = 0) (hfree : (t.fds fd).used = false) : Exact slack' t.fds := by
  refine ⟨hslack, fun i hi => ?_⟩
  by_cases hne : i = fd
  · simp [hne, hfree] at hi
  · have hk : t.fds i = _ := hd.kept hne
    rw [hk] at hi ⊢
    exact he.named i hi

section
variable (ht : Table slack s.fds)
include ht

theorem Drop.freed (hd : Drop s fd t) (hslack : slack fd = 0) : (t.fds fd).used = false := by
  cases hd with
  | leave o ho hne => simp
  | handOver p ho hp hne => simp [promote]
  | last ho hrefs => simp
  | orphan ho hrefs halone =>
    have := (table_orphan ht ho hrefs halone).1
    omega

theorem Table.closeFdIndex (hu : (s.fds fd).used) :
    ∃ slack', Table slack' (closeFdIndex s fd).fds ∧
      (Exact slack s.fds → Exact slack' (closeFdIndex s fd).fds) := by
  have hd := closeFdIndex_drop ht hu
  obtain ⟨slack', ht', -, hzero⟩ := ht.drop hd
  refine ⟨slack', ht', fun he => ?_⟩
  exact he.drop hd (fun q => hzero (he.slack_zero fd) q (he.slack_zero q))
    (hd.freed ht (he.slack_zero fd))

/-- The number of a descriptor that was closed is free. -/
theorem Drop.name_free (hd : Drop s fd t)
    (hn : 0 ≤ n) (hnames : Names (s.fds fd) n pid) (j : Nat) : ¬ Names (t.fds j) n pid := by
  rintro ⟨hu, hloc, hpid⟩
  by_cases hne : j = fd
  · subst hne
    have := hd.unnamed hu
    omega
  · have hk : t.fds j = _ := hd.kept hne
    rw [hk] at hu hloc hpid
    have hloc' : (s.fds j).localFd = n := hloc
    refine hne (ht.unique j fd hu hnames.1 (by omega) ?_ ?_)
    · rw [hnames.2.2]
      exact hpid
    · rw [hnames.2.1]
      exact hloc

end

/-- Nobody has a number that a search did not find. -/
theorem Table.name_free (ht : Table slack fds) (hn : 0 ≤ n)
    (h : findFdSlot fds n pid b = none) (j : Nat) : ¬ Names (fds j) n pid := fun hnames =>
  findFdSlot_none h hn (ht.lt hnames.1) hnames

theorem Exact.insert (he : Exact slack fds)
    (hslack : ∀ q, slack' q = 0) (hn : 0 ≤ r.localFd) (hpid : 0 ≤ r.ownerPid) :
    Exact slack' (Function.update fds i r) := by
  refine ⟨hslack, fun j hj => ?_⟩
  by_cases hji : j = i
  · subst hji
    simpa using ⟨hn, hpid⟩
  · simpa [hji] using he.named j (by simpa [hji] using hj)

theorem Table.installed_new {r : Int × KernelState}
    (ht : Table slack s.fds) (h : Installed s source requested r) (howner : source.ownerFd < 0)
    (hrefs : source.refs = 1) (hpid : 0 ≤ source.ownerPid) :
    ∃ slack', Table slack' r.2.fds ∧ (Exact slack s.fds → Exact slack' r.2.fds) := by
  cases h with
  | new n slot hnone hn hreq hslot =>
    refine ⟨_, ht.insert_new hslot howner hrefs (ht.name_free hn hnone), fun he => ?_⟩
    refine he.insert (fun q => ?_) hn hpid
    by_cases hq : q = slot <;> simp [hq, he.slack_zero]
  | replaced e slot he hslot =>
    obtain ⟨hn, -, hnames⟩ := findFdSlot_own he
    have hd := closeFdIndex_drop ht hnames.1
    obtain ⟨slack', ht', hexact⟩ := ht.closeFdIndex hnames.1
    refine ⟨_, ht'.insert_new hslot howner hrefs (hd.name_free ht hn hnames), fun he => ?_⟩
    refine (hexact he).insert (fun q => ?_) hn hpid
    by_cases hq : q = slot <;> simp [hq, (hexact he).slack_zero]
  | full _ => exact ⟨slack, ht, id⟩
  | stuck e he hslot =>
    obtain ⟨hn, -, hnames⟩ := findFdSlot_own he
    exact ht.closeFdIndex hnames.1

/-! ## Counting a reference does not show in a search -/

/-- A record whose number the table chooses goes into a free slot, or there is no room. -/
theorem installFdRecord_cases {source : FdRecord} (caller : Int) (hpid : 0 ≤ source.ownerPid) :
    installFdRecord s caller source (-1) = (Status.noMemory.code, s) ∨
      ∃ m slot, 0 ≤ m ∧ (s.fds slot).used = false ∧ installFdRecord s caller source (-1) =
        (m, setFd s slot (placed source m slot)) := by
  have hinst := installFdRecord_installed s caller (-1) source hpid
  generalize installFdRecord s caller source (-1) = r at hinst ⊢
  cases hinst with
  | new m slot hnone hm hreq hslot => exact .inr ⟨m, slot, hm, (freeSlot_some hslot).2, rfl⟩
  | replaced e slot hfound hslot => simp [findFdSlot] at hfound
  | full hroom => exact .inl rfl
  | stuck e hfound hslot => simp [findFdSlot] at hfound

theorem names_of_kept {r' : FdRecord} (h : Kept r r') (n pid : Int) :
    Names r n pid ↔ Names r' n pid := by
  rw [h]
  rfl

theorem findFdSlot_of_kept (h : ∀ i, Kept (fds i) (fds' i)) (n pid : Int)
    (b : Bool) : findFdSlot fds n pid b = findFdSlot fds' n pid b :=
  findFdSlot_congr fun i => ⟨names_of_kept (h i) n pid, fun _ => names_of_kept (h i) n 0⟩

theorem countRef_kept (s : KernelState) (o j : Nat) : Kept (s.fds j) ((countRef s o).fds j) := by
  by_cases hj : j = o
  · subst hj
    simp [countRef, Kept]
  · simp [countRef, Kept, hj]

section
variable (h : ∀ i, Kept (fds i) (fds' i))
include h

theorem freeSlot_of_kept : freeSlot fds' = freeSlot fds := by
  unfold freeSlot
  congr 1
  funext i
  rw [(h i).used]

theorem freeNumber_of_kept (pid : Int) : freeNumber fds' pid = freeNumber fds pid := by
  unfold freeNumber
  congr 1
  funext n
  rw [findFdSlot_of_kept h]

theorem room_of_kept (pid requested : Int) : Room fds' pid requested ↔ Room fds pid requested := by
  unfold Room
  rw [freeSlot_of_kept h, freeNumber_of_kept h, ← findFdSlot_of_kept h]

end

theorem Table.installed_shared {r : Int × KernelState}
    (ht : Table slack s.fds) (ho : own s.fds o = some o)
    (h : Installed (Fd.countRef s o) source requested r) (howner : source.ownerFd = o)
    (hobject : (s.fds o).toFdObject = source.toFdObject) (hpid : 0 ≤ source.ownerPid)
    (hapart : findFdSlot s.fds requested source.ownerPid false ≠ some o) :
    ∃ slack', Table slack' r.2.fds ∧
      (Exact slack s.fds → Room s.fds source.ownerPid requested → Exact slack' r.2.fds) := by
  have hkept := countRef_kept s o
  have ht1 := ht.countRef ho
  have ho1 : own (Fd.countRef s o).fds o = some o := by
    rw [show own (Fd.countRef s o).fds = own s.fds from own_countChange s.fds o _]
    exact ho
  have hobject1 : ((Fd.countRef s o).fds o).toFdObject = source.toFdObject := by
    rw [(hkept o).object, hobject]
  have hnamed : Exact slack s.fds → Exact slack (Fd.countRef s o).fds := by
    refine fun he => ⟨he.slack_zero, fun i hi => ?_⟩
    have hk : (Fd.countRef s o).fds i = _ := hkept i
    rw [hk] at hi ⊢
    exact he.named i hi
  cases h with
  | new n slot hnone hn hreq hslot =>
    have hpos : 1 ≤ Function.update slack o (slack o + 1) o := by
      have := ht.slack_nonneg o
      simp
      omega
    refine ⟨_, ht1.insert_shared hslot ho1 howner hobject1 hpos (ht1.name_free hn hnone), ?_⟩
    intro he _
    refine (hnamed he).insert (fun q => ?_) hn hpid
    by_cases hq : q = o <;> simp [hq, he.slack_zero]
  | replaced e slot hfound hslot =>
    obtain ⟨hn, -, hnames⟩ := findFdSlot_own hfound
    have heo : o ≠ e := by
      rintro rfl
      rw [← findFdSlot_of_kept hkept] at hfound
      exact hapart hfound
    have hd := closeFdIndex_drop ht1 hnames.1
    obtain ⟨slack', ht2, hkeep, hzero⟩ := ht1.drop hd
    have hslack : slack' o = slack o + 1 := by simpa using hkeep o heo ho1
    have hpos : 1 ≤ slack' o := by
      have := ht.slack_nonneg o
      omega
    have hobject2 : ((Fd.closeFdIndex (Fd.countRef s o) e).fds o).toFdObject =
        source.toFdObject := by
      rw [(hd.kept heo).object, hobject1]
    refine ⟨_, ht2.insert_shared hslot (hd.own_self ht1 ho1 heo) howner hobject2 hpos
      (hd.name_free ht1 hn hnames), fun he _ => ?_⟩
    have hzero' : ∀ q, Function.update slack' o (slack' o - 1) q = 0 := by
      intro q
      by_cases hq : q = o
      · subst hq
        simp [hslack, he.slack_zero]
      · simpa [hq] using hzero (by simp [Ne.symm heo, he.slack_zero]) q (by simp [hq, he.slack_zero])
    have hfreed := hd.freed ht1 (by simp [Ne.symm heo, he.slack_zero])
    exact ((hnamed he).drop hd he.slack_zero hfreed).insert hzero' hn hpid
  | full hroom =>
    refine ⟨_, ht1, fun _ hyes => absurd hyes ?_⟩
    rwa [room_of_kept hkept] at hroom
  | stuck e hfound hslot =>
    obtain ⟨hn, hlt, hnames⟩ := findFdSlot_own hfound
    have heo : o ≠ e := by
      rintro rfl
      rw [← findFdSlot_of_kept hkept] at hfound
      exact hapart hfound
    have hd := closeFdIndex_drop ht1 hnames.1
    obtain ⟨slack', ht2, -, -⟩ := ht1.drop hd
    refine ⟨slack', ht2, fun he _ => ?_⟩
    have hfreed := hd.freed ht1 (by simp [Ne.symm heo, he.slack_zero])
    have hused := freeSlot_none hslot hlt
    simp [hfreed] at hused

/-! ## The calls -/

theorem fdOwnerIndex_some (ht : Table slack fds) (h : fdOwnerIndex fds i = some o) :
    own fds i = some o ∧ own fds o = some o := by
  unfold fdOwnerIndex at h
  split at h
  · simp at h
  · rename_i hi
    have hu : (fds i).used = true := by
      by_contra hu
      simp [hu] at hi
    obtain ⟨q, hq⟩ := ht.linked i hu
    have hroot := ht.valid.rooted i q hq
    rw [ownerSlot_eq_some.2 (own_eq_some.1 hq).2] at h
    simp only [Table.used_of_own hroot, if_true, Option.some.injEq] at h
    subst h
    exact ⟨hq, hroot⟩

theorem resolve_eq_some : resolve fds n pid = some (i, o) ↔
    findFdSlot fds n pid true = some i ∧ fdOwnerIndex fds i = some o := by
  simp [resolve, Option.bind_eq_some_iff]

/-- A descriptor number leads to a slot of the caller or a global one, and from there to the
owner of the object. -/
theorem resolve_some (ht : Table slack fds) (h : resolve fds n pid = some (i, o)) :
    findFdSlot fds n pid true = some i ∧ own fds i = some o ∧ own fds o = some o :=
  (resolve_eq_some.1 h).imp_right (fdOwnerIndex_some ht)

/-- A call keeps the table, up to slack, and adds no slack when `C` holds. -/
def Keeps (slack : Nat → Int) (s : KernelState) (C : Prop) (t : KernelState) : Prop :=
  ∃ slack', Table slack' t.fds ∧ (Exact slack s.fds → C → Exact slack' t.fds)

theorem Keeps.of_fds (ht : Table slack s.fds) (h : t.fds = s.fds) :
    Keeps slack s C t := ⟨slack, h ▸ ht, fun he _ => h ▸ he⟩

section
variable (h : Keeps slack s C t)
include h

/-- The tables beside the descriptors do not matter. -/
theorem Keeps.congr {s' t' : KernelState} (hs : s'.fds = s.fds)
    (ht : t'.fds = t.fds) : Keeps slack s' C t' := by
  unfold Keeps
  rw [hs, ht]
  exact h

theorem Keeps.mono (hc : C' → C) : Keeps slack s C' t := by
  obtain ⟨slack', ht, he⟩ := h
  exact ⟨slack', ht, fun hs hc' => he hs (hc hc')⟩

/-- One call after the other. -/
theorem Keeps.trans {u : KernelState}
    (h' : ∀ slack', Table slack' t.fds → Keeps slack' t C' u) : Keeps slack s (C ∧ C') u := by
  obtain ⟨slack', ht, he⟩ := h
  obtain ⟨slack'', hu, he'⟩ := h' slack' ht
  exact ⟨slack'', hu, fun hs hc => he' (he hs hc.1) hc.2⟩

end

theorem install_new_keeps (ht : Table slack s.fds)
    (howner : source.ownerFd < 0) (hrefs : source.refs = 1) (hpid : 0 ≤ source.ownerPid) :
    Keeps slack s True (installFdRecord s caller source requested).2 := by
  obtain ⟨slack', ht', he⟩ := ht.installed_new (installFdRecord_installed _ _ _ _ hpid) howner hrefs hpid
  exact ⟨slack', ht', fun h _ => he h⟩

variable {flags : Nat}

theorem newRecord_keeps {x : FdObject} {pid : Nat} (ht : Table slack s.fds) :
    Keeps slack s True (installFdRecord s caller (newRecord x flags pid) requested).2 :=
  install_new_keeps ht (by simp [newRecord]) rfl (by simp [newRecord])

theorem findFdSlot_used (h : findFdSlot fds n pid b = some i) : (fds i).used = true := by
  obtain ⟨-, -, hnames | ⟨-, hnames, -⟩⟩ := findFdSlot_some h
  · exact hnames.1
  · exact hnames.1

theorem radFdDup_keeps {pid : Nat} {n : Int} (ht : Table slack s.fds) :
    Keeps slack s (HasRoom s (.dup pid n)) (radFdDup s pid n).2 := by
  unfold radFdDup
  split
  · exact .of_fds ht rfl
  · rename_i slot o hres
    obtain ⟨-, -, ho⟩ := resolve_some ht hres
    have hinst := installFdRecord_installed (countRef s o) pid (-1)
      { s.fds o with ownerFd := o, localFd := -1, ownerPid := pid } (by simp)
    obtain ⟨slack', ht', he⟩ := ht.installed_shared ho hinst rfl rfl (by simp)
      (by simp [findFdSlot])
    refine ⟨slack', ht', fun hs hroom => he hs ?_⟩
    rcases hroom with h | h
    · simp [hres] at h
    · exact h

/-- Flags play no part in the sharing. -/
theorem flags_keeps (ht : Table slack s.fds) (hu : (s.fds i).used) (flags descriptorFlags : Nat) :
    Keeps slack s True
      (setFd s i { s.fds i with flags := flags, descriptorFlags := descriptorFlags }) := by
  have hown : own (setFd s i { s.fds i with
      flags := flags, descriptorFlags := descriptorFlags }).fds = own s.fds := by
    rw [setFd_fds, own_update]
    funext j
    by_cases hj : j = i
    · subst hj
      simp [own, ownerSlot]
    · simp [hj]
  have hfield : ∀ {β : Type} (f : FdRecord → β), (∀ r a b, f { r with
      flags := a, descriptorFlags := b } = f r) → ∀ j, f ((setFd s i { s.fds i with
      flags := flags, descriptorFlags := descriptorFlags }).fds j) = f (s.fds j) := by
    intro β f hf j
    by_cases hj : j = i
    · subst hj
      simpa using hf (s.fds j) flags descriptorFlags
    · simp [hj]
  have hused := hfield FdRecord.used fun _ _ _ => rfl
  have hlocal := hfield FdRecord.localFd fun _ _ _ => rfl
  have hpid := hfield FdRecord.ownerPid fun _ _ _ => rfl
  have hobject := hfield FdRecord.toFdObject fun _ _ _ => rfl
  have hrefs := hfield FdRecord.refs fun _ _ _ => rfl
  refine ⟨slack, ⟨?_, ht.slack_nonneg, ?_, ?_, ?_, ?_⟩, fun he _ => ⟨he.slack_zero, ?_⟩⟩
  · rw [hown, funext hrefs]
    exact ht.valid
  · intro j hj
    rw [hown]
    exact ht.linked j (hused j ▸ hj)
  · intro j q hq
    rw [hobject, hobject]
    exact ht.same j q (hown ▸ hq)
  · intro a b
    rw [hused, hused, hlocal, hlocal, hpid, hpid]
    exact ht.unique a b
  · intro j hj
    have hfree := ht.cleared j (hused j ▸ hj)
    have hji : j ≠ i := by
      rintro rfl
      simp [hfree] at hu
    simpa [hji] using hfree
  · intro j hj
    rw [hlocal, hpid]
    exact he.named j (hused j ▸ hj)

theorem installShmFd_keeps {pid shmIndex : Nat} (ht : Table slack s.fds) :
    Keeps slack s True (installShmFd s pid shmIndex flags).2 := by
  unfold installShmFd
  split
  · exact .of_fds ht rfl
  · exact newRecord_keeps ht

theorem radShmOpen_keeps {pid byteSize flags : Nat} {name : List Char} (ht : Table slack s.fds) :
    Keeps slack s True (radShmOpen s pid name byteSize flags).2 := by
  unfold radShmOpen
  dsimp only
  split
  · exact .of_fds ht rfl
  · split
    · exact installShmFd_keeps ht
    · split
      · exact .of_fds ht rfl
      · exact installShmFd_keeps ht

end RadKernel.Fd
