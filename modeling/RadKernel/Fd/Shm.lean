import RadKernel.Lib.Run
import RadKernel.Fd.Sound

/-!
# Shared memory descriptors

A descriptor of shared memory holds the index of the object in a table. `rad_shm_unlink` clears
the slot of the object at once, whoever still has a descriptor for it, and `rad_shm_open` gives
the slot to the next object.
-/

namespace RadKernel.Fd

open Kernel

def shmMaxPages : Nat := 16

/-- The slot of the object behind a descriptor. -/
def shmFromFd (s : KernelState) (pid fd : Int) : Option Nat :=
  match lookupFdRecord s.fds fd pid with
  | some r => if r.kind = .shm ∧ r.shmIndex < maxShmObjects then some r.shmIndex else none
  | none => none

/-- `rad_shm_info_t`. -/
structure ShmInfo where
  name : List Char
  byteSize : Nat
  pageCount : Nat
  deriving DecidableEq, Repr

def shmInfo (r : ShmRecord) : ShmInfo := ⟨r.name, r.byteSize, r.pageCount⟩

def radShmGetInfo (s : KernelState) (pid fd : Int) : Except Status ShmInfo :=
  match shmFromFd s pid fd with
  | none => .error .notFound
  | some k => if !(s.shmObjects k).used then .error .notFound else .ok (shmInfo (s.shmObjects k))

def radShmSetPage (s : KernelState) (pid fd : Int) (pageIndex pageToken : Nat) :
    Status × KernelState :=
  match shmFromFd s pid fd with
  | none => (.notFound, s)
  | some k =>
    let shm := s.shmObjects k
    if !shm.used ∨ shm.pageCount ≤ pageIndex ∨ shmMaxPages ≤ pageIndex then (.invalidArgument, s)
    else
      let record := { shm with pages := Function.update shm.pages pageIndex pageToken }
      (.ok, { s with shmObjects := Function.update s.shmObjects k record })

def radShmGetPage (s : KernelState) (pid fd : Int) (pageIndex : Nat) : Except Status Nat :=
  match shmFromFd s pid fd with
  | none => .error .notFound
  | some k =>
    let shm := s.shmObjects k
    if !shm.used ∨ shm.pageCount ≤ pageIndex ∨ shmMaxPages ≤ pageIndex ∨ shm.pages pageIndex = 0 then
      .error .invalidArgument
    else .ok (shm.pages pageIndex)

/-- `rad_shm_kernel_pointer`; no pointer stands for the null one. -/
def radShmKernelPointer (s : KernelState) (pid fd : Int) : Option Nat :=
  (radShmGetPage s pid fd 0).toOption

/-- The calls on shared memory, with the ones on descriptors that reach it. -/
inductive ShmCall where
  | open (name : List Char) (byteSize flags : Nat)
  | unlink (name : List Char)
  | setPage (fd : Int) (pageIndex pageToken : Nat)
  | dup (fd : Int)
  | close (fd : Int)
  deriving DecidableEq, Repr

def ShmCall.perform (pid : Nat) (s : KernelState) : ShmCall → KernelState
  | .open name byteSize flags => (radShmOpen s pid name byteSize flags).2
  | .unlink name => (radShmUnlink s name).2
  | .setPage fd pageIndex pageToken => (radShmSetPage s pid fd pageIndex pageToken).2
  | .dup fd => (radFdDup s pid fd).2
  | .close fd => (radFdClose s pid fd).2

/-- Beside the tables stands the object in each slot of the table of objects, and the object
each slot of the descriptor table was opened on. Objects are numbered by the call that made
them. -/
structure Traced where
  kernel : KernelState
  made : Nat → Nat := fun _ => 0
  opened : Nat → Nat := fun _ => 0
  calls : Nat := 0

/-- A call of process `e.1`. -/
def trace (w : Traced) (e : Nat × ShmCall) : Traced :=
  let s := w.kernel
  let t := e.2.perform e.1 s
  let made := fun k =>
    if !(s.shmObjects k).used ∧ (t.shmObjects k).used then w.calls else w.made k
  { kernel := t
    made := made
    opened := fun i =>
      if (s.fds i).used then w.opened i
      else
        match e.2 with
        | .dup fd => ((resolve s.fds fd e.1).map fun p => w.opened p.1).getD 0
        | _ => made (t.fds i).shmIndex
    calls := w.calls + 1 }

/-- Slot `k` holds object `x`. -/
def Traced.At (w : Traced) (k x : Nat) : Prop :=
  k < maxShmObjects ∧ (w.kernel.shmObjects k).used = true ∧ w.made k = x

instance Traced.At.decidable (w : Traced) (k x : Nat) : Decidable (w.At k x) :=
  inferInstanceAs (Decidable (_ ∧ _ ∧ _))

/-- What the calls read through a descriptor number is of the object `x`, or they fail. -/
structure Reads (w : Traced) (pid fd : Int) (x : Nat) : Prop where
  info : ∀ info, radShmGetInfo w.kernel pid fd = .ok info →
    ∃ k, w.At k x ∧ info = shmInfo (w.kernel.shmObjects k)
  page : ∀ n page, radShmGetPage w.kernel pid fd n = .ok page →
    ∃ k, w.At k x ∧ page = (w.kernel.shmObjects k).pages n
  pointer : ∀ page, radShmKernelPointer w.kernel pid fd = some page →
    ∃ k, w.At k x ∧ page = (w.kernel.shmObjects k).pages 0

/-- Every descriptor leads to the object it was opened on, or to an error. -/
def Faithful (w : Traced) : Prop :=
  ∀ pid fd i o, resolve w.kernel.fds fd pid = some (i, o) → Reads w pid fd (w.opened i)

/-- The slot that `rad_shm_open` gives to a new object. -/
def newShmSlot (s : KernelState) (name : List Char) (byteSize : Nat) : Option Nat :=
  let pageCount := (byteSize + 4095) % 2 ^ 64 / 4096
  if name = [] ∨ byteSize = 0 ∨ 64 ≤ name.length ∨ pageCount = 0 ∨ 16 < pageCount then none
  else
    match findShmByName s name with
    | some _ => none
    | none => (List.range maxShmObjects).find? fun i => !(s.shmObjects i).used

/-- A slot of the descriptor table stands for slot `k` of the objects. -/
def RefersTo (s : KernelState) (i k : Nat) : Prop :=
  (s.fds i).used = true ∧ (s.fds i).kind = .shm ∧ (s.fds i).shmIndex = k

/-- A new object gets a slot that no descriptor refers to. -/
def Unheld (w : Traced) (e : Nat × ShmCall) : Prop :=
  match e.2 with
  | .open name byteSize _ => ∀ k, newShmSlot w.kernel name byteSize = some k →
      ∀ i, ¬ RefersTo w.kernel i k
  | _ => True

def TraceStart (w : Traced) : Prop := ∃ console processes, w = { kernel := boot console processes }

variable {s t : KernelState} {w : Traced} {slack : Nat → Int} {i j k o fd : Nat} {pid : Nat} {n : Int}

/-! ## The table of objects -/

@[simp] theorem closePipeEnd_shmObjects (s : KernelState) (i : Nat) (w : Bool) :
    (closePipeEnd s i w).shmObjects = s.shmObjects := by
  unfold closePipeEnd
  split <;> rfl

@[simp] theorem closeObject_shmObjects (s : KernelState) (x : FdObject) :
    (closeObject s x).shmObjects = s.shmObjects :=
  closeObject_rule (P := fun t => t.shmObjects = s.shmObjects) (fun _ _ h => h)
    (fun _ _ _ h => by simpa using h) (closeSocket_rule (fun _ _ h => h) fun _ _ _ h => h) x rfl

theorem Drop.shmObjects (hd : Drop s fd t) : t.shmObjects = s.shmObjects := by
  cases hd with
  | leave o ho hne => rfl
  | handOver p ho hp hne => rfl
  | last ho hrefs => simp [setFd]
  | orphan ho hrefs halone => rfl

theorem RefersTo.of_object (h : RefersTo t i k) (hused : (s.fds j).used = true)
    (hobject : (t.fds i).toFdObject = (s.fds j).toFdObject) : RefersTo s j k := by
  have hkind := congrArg FdObject.kind hobject
  have hindex := congrArg FdObject.shmIndex hobject
  exact ⟨hused, hkind.symm.trans h.2.1, hindex.symm.trans h.2.2⟩

/-! ## Tracing -/

/-- The descriptor table is in order, and a descriptor refers to a cleared slot or to the object
it was opened on. -/
structure Traceable (w : Traced) : Prop where
  table : ∃ slack, Table slack w.kernel.fds
  agree : ∀ i k, RefersTo w.kernel i k → (w.kernel.shmObjects k).used = true →
    w.made k = w.opened i

theorem Traceable.reads (h : Traceable w) {pid fd : Int}
    (hres : resolve w.kernel.fds fd pid = some (i, o)) : Reads w pid fd (w.opened i) := by
  obtain ⟨slack, ht⟩ := h.table
  obtain ⟨-, hown, -⟩ := resolve_some ht hres
  have hat : ∀ k, shmFromFd w.kernel pid fd = some k → (w.kernel.shmObjects k).used = true →
      w.At k (w.opened i) := by
    intro k hk hused
    simp only [shmFromFd, lookupFdRecord, hres, Option.map_some] at hk
    split_ifs at hk with hshm
    obtain rfl := Option.some.inj hk
    have ho : RefersTo w.kernel i (w.kernel.fds o).shmIndex := by
      have hsame := ht.same i o hown
      refine ⟨Table.used_of_own hown, ?_, congrArg FdObject.shmIndex hsame⟩
      exact (congrArg FdObject.kind hsame).trans hshm.1
    exact ⟨hshm.2, hused, h.agree i _ ho hused⟩
  have hpage : ∀ n page, radShmGetPage w.kernel pid fd n = .ok page →
      ∃ k, w.At k (w.opened i) ∧ page = (w.kernel.shmObjects k).pages n := by
    intro n page hpage
    unfold radShmGetPage at hpage
    cases hk : shmFromFd w.kernel pid fd with
    | none => simp [hk] at hpage
    | some k =>
      simp only [hk] at hpage
      split_ifs at hpage with hbad
      have hused : (w.kernel.shmObjects k).used = true := by
        by_contra hunused
        exact hbad (.inl (by simpa using hunused))
      exact ⟨k, hat k hk hused, (Except.ok.inj hpage).symm⟩
  refine ⟨fun info hinfo => ?_, hpage, fun page hpointer => ?_⟩
  · unfold radShmGetInfo at hinfo
    cases hk : shmFromFd w.kernel pid fd with
    | none => simp [hk] at hinfo
    | some k =>
      simp only [hk] at hinfo
      split_ifs at hinfo with hunused
      exact ⟨k, hat k hk (by simpa using hunused), (Except.ok.inj hinfo).symm⟩
  · unfold radShmKernelPointer at hpointer
    cases hget : radShmGetPage w.kernel pid fd 0 with
    | error status => simp [hget, Except.toOption] at hpointer
    | ok page' =>
      obtain rfl : page' = page := by simpa [hget, Except.toOption] using hpointer
      exact hpage 0 page' hget

variable {e : Nat × ShmCall} {byteSize : Nat}

section
variable (h : Traceable w)
include h

/-- A call that makes no object: the descriptors that are new refer to what `opened` says. -/
theorem Traceable.step_of (ht : ∃ slack, Table slack t.fds)
    (hperform : e.2.perform e.1 w.kernel = t)
    (hold : ∀ i k, (w.kernel.fds i).used = true → RefersTo t i k → RefersTo w.kernel i k)
    (hmade : ∀ k, (t.shmObjects k).used = true → (w.kernel.shmObjects k).used = false →
      ∀ i, ¬ RefersTo w.kernel i k)
    (hnew : ∀ i k, (w.kernel.fds i).used = false → RefersTo t i k →
      (t.shmObjects k).used = true → (trace w e).made k = (trace w e).opened i) :
    Traceable (trace w e) := by
  have hkernel : (trace w e).kernel = t := hperform
  refine ⟨hkernel ▸ ht, fun i k hi hused => ?_⟩
  rw [hkernel] at hi hused
  by_cases hi' : (w.kernel.fds i).used = true
  · have hs := hold i k hi' hi
    have hused' : (w.kernel.shmObjects k).used = true := by
      by_contra hfree
      exact hmade k hused (by simpa using hfree) i hs
    simpa [trace, hi', hused'] using h.agree i k hs hused'
  · exact hnew i k (by simpa using hi') hi hused

/-- The objects and the descriptors stay, except that objects may go. -/
theorem Traceable.step_same (hfds : (e.2.perform e.1 w.kernel).fds = w.kernel.fds)
    (hused : ∀ k, ((e.2.perform e.1 w.kernel).shmObjects k).used = true →
      (w.kernel.shmObjects k).used = true) : Traceable (trace w e) := by
  have hrefers : ∀ i k, RefersTo (e.2.perform e.1 w.kernel) i k → RefersTo w.kernel i k :=
    fun i k hi => by rwa [RefersTo, hfds] at hi
  refine h.step_of (by rw [hfds]; exact h.table) rfl (fun i k _ => hrefers i k) ?_ ?_
  · intro k hk hfree
    simp [hused k hk] at hfree
  · intro i k hfree hi
    simp [(hrefers i k hi).1] at hfree

theorem Traceable.unlink (name : List Char) : Traceable (trace w (pid, .unlink name)) := by
  refine h.step_same ?_ fun k => ?_ <;> simp only [ShmCall.perform, radShmUnlink]
  · cases findShmByName w.kernel name <;> rfl
  · cases findShmByName w.kernel name with
    | none => exact id
    | some i => by_cases hk : k = i <;> simp [hk]

theorem Traceable.setPage (fd : Int) (pageIndex pageToken : Nat) :
    Traceable (trace w (pid, .setPage fd pageIndex pageToken)) := by
  refine h.step_same ?_ fun k => ?_ <;> simp only [ShmCall.perform, radShmSetPage]
  · cases shmFromFd w.kernel pid fd with
    | none => rfl
    | some i => dsimp only; split_ifs <;> rfl
  · cases shmFromFd w.kernel pid fd with
    | none => exact id
    | some i =>
      dsimp only
      split_ifs
      · exact id
      · by_cases hk : k = i <;> simp [hk]

theorem Traceable.close (fd : Int) : Traceable (trace w (pid, .close fd)) := by
  cases hslot : findFdSlot w.kernel.fds fd pid true with
  | none =>
    refine h.step_same ?_ fun k => ?_ <;> simp [ShmCall.perform, radFdClose, hslot]
  | some slot =>
    obtain ⟨slack, ht⟩ := h.table
    have hperform : ShmCall.perform pid w.kernel (.close fd) = closeFdIndex w.kernel slot := by
      simp [ShmCall.perform, radFdClose, hslot]
    have hd := closeFdIndex_drop ht (findFdSlot_used hslot)
    obtain ⟨slack', ht', -, -⟩ := ht.drop hd
    refine h.step_of ⟨slack', ht'⟩ hperform ?_ ?_ ?_
    · intro i k _ hi
      exact hi.of_object (hd.object hi.1).1 (hd.object hi.1).2
    · intro k hk hfree
      rw [hd.shmObjects] at hk
      simp [hk] at hfree
    · intro i k hfree hi
      simp [(hd.object hi.1).1] at hfree

end

/-- A slot of the table gets a record. -/
theorem refersTo_setFd {r : FdRecord} (hij : i ≠ j) :
    RefersTo (setFd s j r) i k ↔ RefersTo s i k := by
  simp [RefersTo, hij]

theorem refersTo_countRef : RefersTo (countRef s o) i k ↔ RefersTo s i k := by
  have hkept := countRef_kept s o i
  rw [RefersTo, RefersTo, hkept]

/-- A record goes into a free slot, or there is no room for it. -/
theorem Traceable.step_install {source : FdRecord} {caller : Int}
    (h : Traceable w) (hpid : 0 ≤ source.ownerPid)
    (hperform : e.2.perform e.1 w.kernel = (installFdRecord s caller source (-1)).2)
    (ht : ∃ slack, Table slack (e.2.perform e.1 w.kernel).fds)
    (hused : ∀ i, (s.fds i).used = (w.kernel.fds i).used)
    (hrefers : ∀ i k, RefersTo s i k → RefersTo w.kernel i k)
    (hmade : ∀ k, (s.shmObjects k).used = true → (w.kernel.shmObjects k).used = false →
      ∀ i, ¬ RefersTo w.kernel i k)
    (hnew : ∀ i, (w.kernel.fds i).used = false → source.kind = .shm →
      (s.shmObjects source.shmIndex).used = true →
      ((trace w e).kernel.fds i).shmIndex = source.shmIndex →
      (trace w e).made source.shmIndex = (trace w e).opened i) : Traceable (trace w e) := by
  have hkernel : (trace w e).kernel = e.2.perform e.1 w.kernel := rfl
  rw [hkernel] at hnew
  obtain hsame | ⟨m, j, -, hfree, hset⟩ := @installFdRecord_cases s source caller hpid
  · rw [hsame] at hperform
    rw [hperform] at ht
    refine h.step_of ht hperform (fun i k _ => hrefers i k) hmade fun i k hi hi' => ?_
    simp [(hrefers i k hi').1] at hi
  · rw [hset] at hperform
    rw [hperform] at ht hnew
    refine h.step_of ht hperform (fun i k hi hi' => ?_) hmade fun i k hi hi' hk => ?_
    · have hij : i ≠ j := by
        rintro rfl
        simp [hused, hi] at hfree
      exact hrefers i k ((refersTo_setFd hij).1 hi')
    · by_cases hij : i = j
      · subst hij
        obtain ⟨-, hkind, rfl⟩ : True ∧ source.kind = .shm ∧ source.shmIndex = k := by
          simpa [RefersTo, placed] using hi'
        exact hnew i hi hkind hk (by simp [placed])
      · have := hrefers i k ((refersTo_setFd hij).1 hi')
        simp [this.1] at hi

theorem Traceable.dup (h : Traceable w) (fd : Int) : Traceable (trace w (pid, .dup fd)) := by
  cases hres : resolve w.kernel.fds fd pid with
  | none => refine h.step_same ?_ fun k => ?_ <;> simp [ShmCall.perform, radFdDup, hres]
  | some p =>
    obtain ⟨slot, o⟩ := p
    obtain ⟨slack, ht⟩ := h.table
    obtain ⟨-, hown, -⟩ := resolve_some ht hres
    obtain ⟨slack', ht', -⟩ := @radFdDup_keeps w.kernel slack pid fd ht
    have hperform : ShmCall.perform pid w.kernel (.dup fd) =
        (installFdRecord (countRef w.kernel o) pid
          { w.kernel.fds o with ownerFd := o, localFd := -1, ownerPid := pid } (-1)).2 := by
      simp [ShmCall.perform, radFdDup, hres]
    refine h.step_install (by simp) hperform ⟨slack', ht'⟩
      (fun i => (countRef_kept w.kernel o i).used) (fun i k => refersTo_countRef.1) ?_ ?_
    · intro k hk hfree
      rw [show (countRef w.kernel o).shmObjects = w.kernel.shmObjects from rfl] at hk
      simp [hk] at hfree
    · intro i hfree hkind hk hindex
      have hslot : RefersTo w.kernel slot (w.kernel.fds o).shmIndex := by
        have hsame := ht.same slot o hown
        refine ⟨Table.used_of_own hown, ?_, congrArg FdObject.shmIndex hsame⟩
        exact (congrArg FdObject.kind hsame).trans hkind
      have hagree := h.agree slot _ hslot hk
      simp only [trace, hfree, hres]
      rw [if_neg (by simp [show (w.kernel.shmObjects (w.kernel.fds o).shmIndex).used = true from hk])]
      simpa using hagree

variable {name : List Char}

theorem Traceable.installShm (h : Traceable w) {flags : Nat}
    (hperform : (radShmOpen w.kernel pid name byteSize flags).2 = (installShmFd s pid k flags).2)
    (hfds : s.fds = w.kernel.fds)
    (hmade : ∀ k, (s.shmObjects k).used = true → (w.kernel.shmObjects k).used = false →
      ∀ i, ¬ RefersTo w.kernel i k) : Traceable (trace w (pid, .open name byteSize flags)) := by
  obtain ⟨slack, ht⟩ := h.table
  obtain ⟨slack', ht', -⟩ := @radShmOpen_keeps w.kernel slack pid byteSize flags name ht
  have hrefers : ∀ i k, RefersTo s i k → RefersTo w.kernel i k := fun i k hi => by
    rwa [RefersTo, hfds] at hi
  unfold installShmFd at hperform
  split_ifs at hperform with hbad
  · refine h.step_of ⟨slack', ht'⟩ rfl ?_ ?_ ?_
    all_goals rw [show (radShmOpen w.kernel pid name byteSize flags).2 = s from hperform]
    · exact fun i k _ => hrefers i k
    · exact hmade
    · intro i k hfree hi
      simp [(hrefers i k hi).1] at hfree
  · refine h.step_install (by simp [newRecord]) hperform ⟨slack', ht'⟩ (fun i => by rw [hfds])
      hrefers hmade fun i hfree _ _ hindex => ?_
    rw [← hindex]
    simp [trace, hfree]

theorem Traceable.open (h : Traceable w) (flags : Nat)
    (hunheld : ∀ k, newShmSlot w.kernel name byteSize = some k → ∀ i, ¬ RefersTo w.kernel i k) :
    Traceable (trace w (pid, .open name byteSize flags)) := by
  have hnone : ∀ k, (w.kernel.shmObjects k).used = true → (w.kernel.shmObjects k).used = false →
      ∀ i, ¬ RefersTo w.kernel i k := by
    intro k hk hfree
    simp [hk] at hfree
  have hsame : (radShmOpen w.kernel pid name byteSize flags).2 = w.kernel →
      Traceable (trace w (pid, .open name byteSize flags)) := by
    intro hopen
    have hperform : ShmCall.perform pid w.kernel (.open name byteSize flags) = w.kernel := hopen
    refine h.step_same ?_ fun k hk => ?_
    · rw [hperform]
    · rwa [hperform] at hk
  by_cases hbad : name = [] ∨ byteSize = 0 ∨ 64 ≤ name.length ∨
      (byteSize + 4095) % 2 ^ 64 / 4096 = 0 ∨ 16 < (byteSize + 4095) % 2 ^ 64 / 4096
  · exact hsame (by simp only [radShmOpen, if_pos hbad])
  · cases hname : findShmByName w.kernel name with
    | some k =>
      exact h.installShm (k := k) (by simp only [radShmOpen, if_neg hbad, hname]) rfl hnone
    | none =>
      cases hfind : (List.range maxShmObjects).find? fun i => !(w.kernel.shmObjects i).used with
      | none => exact hsame (by simp only [radShmOpen, if_neg hbad, hname, hfind])
      | some k =>
        have hslot : newShmSlot w.kernel name byteSize = some k := by
          simp only [newShmSlot, if_neg hbad, hname, hfind]
        let record : ShmRecord :=
          { name := name, byteSize := byteSize, pageCount := (byteSize + 4095) % 2 ^ 64 / 4096
            linked := true, used := true }
        refine h.installShm
          (s := { w.kernel with shmObjects := Function.update w.kernel.shmObjects k record })
          (by simp only [radShmOpen, if_neg hbad, hname, hfind]; rfl) rfl fun j hj hfree => ?_
        by_cases hjk : j = k
        · rw [hjk]
          exact hunheld k hslot
        · simp [hjk, hfree] at hj

theorem Traceable.step (h : Traceable w) (he : Unheld w e) : Traceable (trace w e) := by
  obtain ⟨pid, call⟩ := e
  cases call with
  | «open» name byteSize flags => exact h.open flags he
  | unlink name => exact h.unlink name
  | setPage fd pageIndex pageToken => exact h.setPage fd pageIndex pageToken
  | dup fd => exact h.dup fd
  | close fd => exact h.close fd

theorem Traceable.of_start (h : TraceStart w) : Traceable w := by
  obtain ⟨console, processes, rfl⟩ := h
  obtain ⟨slack, ht, -⟩ := sound_boot console processes
  have hobjects : (boot console processes).shmObjects = fun _ => {} := by
    cases console <;> rfl
  exact ⟨⟨slack, ht⟩, by simp [hobjects]⟩

/-- In a run where every new object gets a slot that no descriptor refers to, a descriptor leads
to the object it was opened on or to an error. -/
theorem faithful_of_run (h : Run (Obeys trace Unheld) TraceStart w) : Faithful w := by
  have htraceable : Traceable w := by
    refine h.invariant (fun _ => Traceable.of_start) ?_
    rintro v e _ hv ⟨he, rfl⟩
    exact hv.step he
  exact fun pid fd i o hres => htraceable.reads hres

def traceStart : Traced := { kernel := boot false fun _ => {} }

/-- A process opens an object, duplicates the descriptor and stores a page, which it reads
through the duplicate. -/
def openedOnce : List (Nat × ShmCall) :=
  [(1, .open ['a'] 4096 0), (1, .dup 3), (1, .setPage 3 0 7)]

theorem faithful_openedOnce :
    let w := openedOnce.foldl trace traceStart
    radShmGetPage w.kernel 1 4 0 = .ok 7 ∧ Faithful w := by
  refine ⟨by decide +kernel, faithful_of_run (.along openedOnce (.start ⟨false, _, rfl⟩) ?_)⟩
  refine ⟨fun k _ i => ?_, trivial, trivial, trivial⟩
  simp [RefersTo, traceStart, boot]

/-- The object behind a descriptor is unlinked and another takes its slot. -/
def unlinkedOpen : List (Nat × ShmCall) :=
  [(1, .open ['a'] 4096 0), (1, .unlink ['a']), (1, .open ['b'] 8192 0)]

/-- The descriptor leads to the other object. -/
theorem not_faithful_unlinkedOpen :
    ¬ ∀ w, Run (Obeys trace fun _ _ => True) TraceStart w → Faithful w := by
  intro h
  have hfaithful := h _ (.along unlinkedOpen (.start (s := traceStart) ⟨false, _, rfl⟩)
    (by simp [unlinkedOpen, Along]))
  have hreads := hfaithful 1 3 0 0 (by decide +kernel)
  obtain ⟨k, hat, -⟩ := hreads.info ⟨['b'], 8192, 2⟩ (by decide +kernel)
  have hnone : ∀ k < maxShmObjects, ¬ (unlinkedOpen.foldl trace traceStart).At k
      ((unlinkedOpen.foldl trace traceStart).opened 0) := by
    decide +kernel
  exact hnone k hat.1 hat

end RadKernel.Fd
