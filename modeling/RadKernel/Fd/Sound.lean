import RadKernel.Fd.Objects

/-!
# Sound runs of descriptor calls

The table invariant and the objects behind it, carried together through every call that
finds room for its descriptor and does not duplicate onto the owner of an object.
-/

namespace RadKernel.Fd

open Kernel

variable {s t : KernelState} {i o fd : Nat} {E : Set Object}

/-- The objects of `E` are open and have no descriptor yet. -/
def Sound (s : KernelState) (E : Set Object) : Prop :=
  ∃ slack, Table slack s.fds ∧ Exact slack s.fds ∧ Good s E

theorem Sound.closeFdIndex (h : Sound s E) (hu : (s.fds fd).used = true) :
    Sound (closeFdIndex s fd) E := by
  obtain ⟨slack, ht, he, hg⟩ := h
  obtain ⟨slack', ht', he'⟩ := ht.closeFdIndex hu
  exact ⟨slack', ht', he' he, hg.drop ht (closeFdIndex_drop ht hu) (he.slack_zero fd)⟩

variable {source : FdRecord} {a : Option Object} {caller requested n : Int} {pid k : Nat}

theorem Sound.install_new (h : Sound s E)
    (caller requested : Int) (howner : source.ownerFd < 0) (hrefs : source.refs = 1)
    (hpid : 0 ≤ source.ownerPid) (ha : Denotes source.toFdObject a)
    (haE : ∀ x, a = some x → x ∈ E) :
    Sound (installFdRecord s caller source requested).2 (E \ { x | a = some x }) ∨
      (¬ Room s.fds source.ownerPid requested ∧
        installFdRecord s caller source requested = (Status.noMemory.code, s)) := by
  obtain ⟨slack, ht, he, hg⟩ := h
  have hinst := installFdRecord_installed s caller requested _ hpid
  obtain ⟨slack', ht', he'⟩ := ht.installed_new hinst howner hrefs hpid
  generalize installFdRecord s caller source requested = r at hinst ht' he' ⊢
  cases hinst with
  | new n slot _ _ _ hslot =>
    exact .inl ⟨slack', ht', he' he, hg.insert_new hslot howner ha haE⟩
  | replaced e slot hfound hslot =>
    obtain ⟨-, -, hnames⟩ := findFdSlot_own hfound
    have hg1 := hg.drop ht (closeFdIndex_drop ht hnames.1) (he.slack_zero e)
    exact .inl ⟨slack', ht', he' he, hg1.insert_new hslot howner ha haE⟩
  | full hroom => exact .inr ⟨hroom, rfl⟩
  | stuck e hfound hslot =>
    -- the slot of the descriptor that was replaced is free
    obtain ⟨-, hlt, hnames⟩ := findFdSlot_own hfound
    have hfreed := (closeFdIndex_drop ht hnames.1).freed ht (he.slack_zero e)
    have hused := freeSlot_none hslot hlt
    simp [hfreed] at hused

theorem Sound.install_shared (h : Sound s E)
    (ho : own s.fds o = some o) (howner : source.ownerFd = o)
    (hobject : (s.fds o).toFdObject = source.toFdObject) (hpid : 0 ≤ source.ownerPid)
    (hapart : findFdSlot s.fds requested source.ownerPid false ≠ some o)
    (hroom : Room s.fds source.ownerPid requested) :
    Sound (installFdRecord (countRef s o) caller source requested).2 E := by
  obtain ⟨slack, ht, he, hg⟩ := h
  have hinst := installFdRecord_installed (countRef s o) caller requested _ hpid
  obtain ⟨slack', ht', he'⟩ := ht.installed_shared ho hinst howner hobject hpid hapart
  refine ⟨slack', ht', he' he hroom, ?_⟩
  have hkept := countRef_kept s o
  have ht1 := ht.countRef ho
  have hg1 := hg.countRef o
  have ho1 : own (countRef s o).fds o = some o := by
    rw [show own (countRef s o).fds = own s.fds from own_countChange s.fds o _]
    exact ho
  have hobject1 : ((countRef s o).fds o).toFdObject = source.toFdObject := by
    rw [(hkept o).object, hobject]
  generalize installFdRecord (countRef s o) caller source requested = r at hinst ⊢
  -- a descriptor that is replaced is not the owner, which has counted one more reference
  have hdrop : ∀ e, findFdSlot (countRef s o).fds requested source.ownerPid false = some e →
      o ≠ e ∧ Drop (countRef s o) e (Fd.closeFdIndex (countRef s o) e) ∧
      Function.update slack o (slack o + 1) e = 0 := by
    intro e hfound
    obtain ⟨-, -, hnames⟩ := findFdSlot_own hfound
    have hne : o ≠ e := by
      rintro rfl
      rw [← findFdSlot_of_kept hkept] at hfound
      exact hapart hfound
    exact ⟨hne, closeFdIndex_drop ht1 hnames.1, by simp [Ne.symm hne, he.slack_zero]⟩
  cases hinst with
  | new n slot _ _ _ hslot => exact hg1.insert_shared hslot ho1 howner hobject1
  | replaced e slot hfound hslot =>
    obtain ⟨hne, hd, hzero⟩ := hdrop e hfound
    refine (hg1.drop ht1 hd hzero).insert_shared hslot (hd.own_self ht1 ho1 hne) howner ?_
    rw [(hd.kept hne).object, hobject1]
  | full hno => exact absurd hroom (by rwa [room_of_kept hkept] at hno)
  | stuck e hfound hslot =>
    obtain ⟨hne, hd, hzero⟩ := hdrop e hfound
    exact hg1.drop ht1 hd hzero

/-! ## The calls -/

theorem newRecord_denotes {x : FdObject} (flags : Nat) (pid : Int)
    (h : Denotes x a) : Denotes (newRecord x flags pid).toFdObject a := h

theorem Sound.of_good (h : Sound s E) (hfds : t.fds = s.fds) {E' : Set Object} (hg : Good t E') :
    Sound t E' := by
  obtain ⟨slack, ht, he, -⟩ := h
  exact ⟨slack, hfds ▸ ht, hfds ▸ he, hg⟩

/-- Tables that do not matter here changed. -/
theorem Sound.congr (h : Sound s E) (hfds : t.fds = s.fds) (hp : t.pipes = s.pipes)
    (hs : t.sockets = s.sockets) (ho : t.opened = s.opened) (hc : t.closed = s.closed) :
    Sound t E := by
  refine h.of_good hfds ?_
  obtain ⟨-, -, -, hg⟩ := h
  exact hg.of_objects (by simp [hfds]) (by simp [hfds]) (by rw [hfds]) hp hs ho hc

theorem Sound.openHandle (h : Sound s ∅) :
    Sound { s with opened := s.opened + 1 } {.handle s.opened} := by
  refine h.of_good (t := { s with opened := s.opened + 1 }) rfl ?_
  obtain ⟨-, -, -, hg⟩ := h
  have hnew : Object.handle s.opened ∉ held s.fds := fun hm =>
    absurd (hg.backed.handle_open _ (Set.mem_union_left _ hm)).1 (by omega)
  refine ⟨hg.shape, ?_, by simpa using hnew⟩
  have hb := hg.backed.openHandle
  simpa [Set.union_comm] using hb

theorem Sound.install_handle (h : Sound s ∅)
    (howner : source.ownerFd < 0) (hrefs : source.refs = 1) (hpid : 0 ≤ source.ownerPid)
    (hden : Denotes source.toFdObject (some (.handle s.opened)))
    (hroom : Room s.fds source.ownerPid requested) :
    Sound (installFdRecord { s with opened := s.opened + 1 } caller source requested).2 ∅ := by
  rcases h.openHandle.install_new caller requested howner hrefs hpid hden
    (by simp) with hsound | ⟨hno, -⟩
  · have hset : ({.handle s.opened} : Set Object) \ { x | some (.handle s.opened) = some x } = ∅ := by
      ext y
      simp [eq_comm]
    rw [hset] at hsound
    exact hsound
  · exact absurd hroom hno

theorem Sound.radFdOpen {flags : Nat} {path : List Char} {backend : Status} (h : Sound s ∅)
    (hroom : HasRoom s (.open pid path flags backend)) :
    Sound (radFdOpen s pid path flags backend).2 ∅ := by
  unfold Fd.radFdOpen
  split
  · exact h
  · rename_i hok
    have hden : Denotes (if "/dev/".toList.isPrefixOf path then
        { kind := .device, device := some s.opened }
        else if flags &&& vfsDirectory ≠ 0 then { kind := .dir, dir := some s.opened }
        else { kind := .file, file := some s.opened } : FdObject) (some (.handle s.opened)) := by
      split
      · exact .device _
      · split
        · exact .dir _
        · exact .file _
    exact h.install_handle (by simp [newRecord]) rfl (by simp [newRecord]) (newRecord_denotes _ _ hden)
      (hroom (by simpa using hok))

section
variable (h : Sound s E)
include h

theorem Sound.radFdClose {pid : Int} : Sound (radFdClose s pid n).2 E := by
  unfold Fd.radFdClose
  split
  · exact h
  · rename_i slot hslot
    exact h.closeFdIndex (findFdSlot_used hslot)

theorem Sound.radFdDup (hroom : HasRoom s (.dup pid n)) : Sound (radFdDup s pid n).2 E := by
  unfold Fd.radFdDup
  split
  · exact h
  · rename_i slot o hres
    have htable := h
    obtain ⟨slack, ht, -, -⟩ := htable
    obtain ⟨-, -, ho⟩ := resolve_some ht hres
    exact h.install_shared ho rfl rfl (by simp) (by simp [findFdSlot])
      (hroom.resolve_left (by simp [hres]))

theorem Sound.radFdDup2 {oldFd newFd : Int}
    (hapart : Apart s (.dup2 pid oldFd newFd)) (hroom : HasRoom s (.dup2 pid oldFd newFd)) :
    Sound (radFdDup2 s pid oldFd newFd).2 E := by
  unfold Fd.radFdDup2
  split
  · exact h
  · rename_i hneg
    split
    · exact h
    · rename_i hne
      split
      · exact h
      · rename_i slot o hres
        have htable := h
        obtain ⟨slack, ht, -, -⟩ := htable
        obtain ⟨-, -, ho⟩ := resolve_some ht hres
        refine h.install_shared ho rfl rfl (by simp) ((hapart.resolve_left hne) slot o hres) ?_
        rcases hroom with hr | hr | hr | hr
        · exact absurd hr hneg
        · exact absurd hr hne
        · simp [hres] at hr
        · exact hr

/-- Flags do not matter to the objects. -/
theorem Sound.flags (hu : (s.fds i).used = true) (flags descriptorFlags : Nat) :
    Sound (setFd s i { s.fds i with flags := flags, descriptorFlags := descriptorFlags }) E := by
  obtain ⟨slack, ht, he, hg⟩ := h
  obtain ⟨slack', ht', he'⟩ := flags_keeps ht hu flags descriptorFlags
  refine ⟨slack', ht', he' he trivial, hg.of_objects ?_ ?_ ?_ rfl rfl rfl rfl⟩
  · intro j
    by_cases hj : j = i
    · subst hj
      simp
    · simp [hj]
  · intro j
    by_cases hj : j = i
    · subst hj
      simp
    · simp [hj]
  · rw [setFd_fds, own_update]
    funext j
    by_cases hj : j = i
    · subst hj
      simp [own, ownerSlot]
    · simp [hj]

theorem Sound.radFdFcntl {pid : Int} {command : FcntlCommand} :
    Sound (radFdFcntl s pid n command).2 E := by
  unfold Fd.radFdFcntl
  split
  · exact h
  · rename_i slot hslot
    cases command with
    | getFd => exact h
    | setFd argument => exact h.flags (findFdSlot_used hslot) _ _
    | getFl =>
      dsimp only
      split <;> exact h
    | setFl argument =>
      dsimp only
      split
      · rename_i o ho
        exact h.flags (fdOwnerIndex_used ho) _ _
      · exact h
    | other => exact h

end

theorem Sound.newPipe (h : Sound s ∅) (hk : k < maxPipes) (hfree : (s.pipes k).used = false) :
    Sound (setPipe s k { used := true, readRefs := 1, writeRefs := 1 })
      {.pipeEnd k false, .pipeEnd k true} := by
  refine h.of_good (t := setPipe s k { used := true, readRefs := 1, writeRefs := 1 }) rfl ?_
  obtain ⟨-, -, -, hg⟩ := h
  have hnone : ∀ w, Object.pipeEnd k w ∉ held s.fds := by
    intro w hw
    have := (hg.backed.pipe_used k).2 ⟨w, Set.mem_union_left _ hw⟩
    simp [hfree] at this
  refine ⟨hg.shape, ?_, ?_⟩
  · refine hg.backed.setPipe hk ?_ ?_ ?_ ?_
    · intro w _
      cases w <;> rfl
    · intro w hw
      cases w <;> simp [setPipe] at hw
    · exact ⟨fun _ => ⟨false, by simp⟩, fun _ => rfl⟩
    · intro y hy
      simp [setPipe, hy]
  · rintro y (rfl | rfl)
    · exact hnone false
    · exact hnone true

theorem Sound.installPipeEnd {w : Bool} (h : Sound s E) (pid : Nat) (hE : .pipeEnd k w ∈ E)
    (hok : 0 ≤ (installPipeEnd s pid k w).1) :
    Sound (installPipeEnd s pid k w).2 (E \ {.pipeEnd k w}) := by
  rcases h.install_new pid (-1) (by simp [newRecord]) rfl
    (by simp [newRecord]) (newRecord_denotes (if w then vfsWrite else vfsRead) pid
      (Denotes.pipe k w)) (by simpa using hE) with hsound | ⟨-, hfail⟩
  · have hset : { x | some (Object.pipeEnd k w) = some x } = {.pipeEnd k w} := by
      ext y
      simp [eq_comm]
    rw [hset] at hsound
    exact hsound
  · have hfail' : (Fd.installPipeEnd s pid k w).1 = Status.noMemory.code :=
      congrArg Prod.fst hfail
    rw [hfail'] at hok
    exact absurd hok (by decide)

section
variable (h : Sound s ∅)
include h

theorem Sound.radPipeCreate (hcleared : Cleared s) : Sound (radPipeCreate s pid).2 ∅ := by
  by_cases hfail : (Fd.radPipeCreate s pid).1.1 < 0
  · rw [radPipeCreate_failed hcleared hfail]
    exact h
  · unfold Fd.radPipeCreate at hfail ⊢
    split
    · exact h
    · rename_i k hk
      rw [hk] at hfail
      dsimp only at hfail ⊢
      have hfree : (s.pipes k).used = false := by simpa using List.find?_some hk
      have hlt : k < maxPipes := List.mem_range.1 (List.mem_of_find?_eq_some hk)
      have h1 := h.newPipe hlt hfree
      generalize setPipe s k { used := true, readRefs := 1, writeRefs := 1 } = s1 at h1 hfail ⊢
      by_cases hread : (Fd.installPipeEnd s1 pid k false).1 < 0
      · rw [if_pos hread] at hfail
        exact absurd hread hfail
      · rw [if_neg hread] at hfail ⊢
        have h2 := h1.installPipeEnd pid (k := k) (w := false) (by simp) (by omega)
        generalize (Fd.installPipeEnd s1 pid k false).2 = s2 at h2 hfail ⊢
        by_cases hwrite : (Fd.installPipeEnd s2 pid k true).1 < 0
        · rw [if_pos hwrite] at hfail
          exact absurd hwrite hfail
        · rw [if_neg hwrite]
          have h3 := h2.installPipeEnd pid (k := k) (w := true) (by simp) (by omega)
          have hset : (({.pipeEnd k false, .pipeEnd k true} : Set Object) \ {.pipeEnd k false}) \
              {.pipeEnd k true} = ∅ := by
            ext y
            simp only [Set.mem_sdiff, Set.mem_insert_iff, Set.mem_singleton_iff,
              Set.mem_empty_iff_false, iff_false]
            tauto
          rw [hset] at h3
          exact h3

theorem Sound.radSocketCreate {domain type protocol : Int}
    (hcleared : Cleared s) : Sound (radSocketCreate s pid domain type protocol).2 ∅ := by
  by_cases hfail : (Fd.radSocketCreate s pid domain type protocol).1 < 0
  · rw [radSocketCreate_failed hcleared hfail]
    exact h
  · unfold Fd.radSocketCreate at hfail ⊢
    split
    · exact h
    · rename_i hdomain
      rw [if_neg hdomain] at hfail
      split
      · exact h
      · rename_i protocol' hprotocol
        rw [hprotocol] at hfail
        split
        · exact h
        · rename_i k hk
          rw [hk] at hfail
          dsimp only at hfail ⊢
          have hfree : (s.sockets k).used = false := by simpa using List.find?_some hk
          have hlt : k < maxUdpSockets := List.mem_range.1 (List.mem_of_find?_eq_some hk)
          have h1 : Sound (setSocket s k (newSocket domain type protocol')) {.socket k} := by
            refine h.of_good (t := setSocket s k (newSocket domain type protocol')) rfl ?_
            obtain ⟨-, -, -, hg⟩ := h
            have hnone : Object.socket k ∉ held s.fds := by
              intro hm
              have := (hg.backed.socket_used k).2 (Set.mem_union_left _ hm)
              simp [hfree] at this
            refine ⟨hg.shape, ?_, by simpa [setSocket] using hnone⟩
            refine hg.backed.setSocket hlt ?_ ?_ ?_
            · simp [newSocket]
            · simp [newSocket]
            · intro y hy
              simp [setSocket, hy]
          rcases h1.install_new pid (-1) (by simp [newRecord]) rfl
            (by simp [newRecord]) (newRecord_denotes (vfsRead ||| vfsWrite) pid
              (Denotes.socket k)) (by simp) with hsound | ⟨-, hno⟩
          · have hset : ({.socket k} : Set Object) \ { x | some (.socket k) = some x } = ∅ := by
              ext y
              simp [eq_comm]
            rw [hset] at hsound
            split
            · rename_i hneg
              rw [if_pos hneg] at hfail
              exact absurd hneg hfail
            · exact hsound
          · rw [hno, if_pos noMemory_neg] at hfail
            exact absurd noMemory_neg hfail

theorem Sound.installShmFd {flags : Nat} : Sound (installShmFd s pid k flags).2 ∅ := by
  unfold Fd.installShmFd
  split
  · exact h
  · rcases h.install_new pid (-1) (by simp [newRecord]) rfl
      (by simp [newRecord]) (newRecord_denotes flags pid (Denotes.shm k))
      (by simp) with hsound | ⟨-, hno⟩
    · simpa using hsound
    · rw [hno]
      exact h

theorem Sound.radShmOpen {byteSize flags : Nat} {name : List Char} :
    Sound (radShmOpen s pid name byteSize flags).2 ∅ := by
  unfold Fd.radShmOpen
  dsimp only
  split
  · exact h
  · split
    · exact h.installShmFd
    · split
      · exact h
      · rename_i k _
        generalize Function.update s.shmObjects k _ = table
        exact (h.congr (t := { s with shmObjects := table }) rfl rfl rfl rfl rfl).installShmFd

end

theorem Sound.closeProcessFds (h : Sound s E) (pid : Int) (closeOnExecOnly : Bool) :
    Sound (closeProcessFds s pid closeOnExecOnly) E := by
  unfold Fd.closeProcessFds
  generalize maxPosixFds = n
  induction n with
  | zero => exact h
  | succ n ih =>
    rw [closeProcessFdsTo]
    split
    · exact ih
    · rename_i hu
      split
      · exact ih
      · refine ih.closeFdIndex ?_
        by_contra hfree
        simp [hfree] at hu

/-- By induction over the slots the loop has before it. -/
theorem Sound.cloneFdsFrom {parentPid childPid : Int} (hpid : 0 ≤ childPid) (fuel n : Nat)
    (h : Sound s E)
    (hapart : Copies (fun s n o => findFdSlot s.fds (s.fds n).localFd childPid false ≠ some o)
      parentPid childPid caller fuel n s)
    (hroom : Copies (fun s n _ => Room s.fds childPid (s.fds n).localFd)
      parentPid childPid caller fuel n s) :
    Sound (cloneFdsFrom parentPid childPid caller fuel n s).2 E := by
  induction fuel generalizing n s with
  | zero => exact h
  | succ fuel ih =>
    unfold Fd.cloneFdsFrom
    unfold Copies at hapart hroom
    by_cases hskip : (!(s.fds n).used) = true ∨ (s.fds n).ownerPid ≠ parentPid
    · rw [if_pos hskip] at hapart hroom ⊢
      exact ih (n + 1) h hapart hroom
    · rw [if_neg hskip] at hapart hroom ⊢
      cases howner : fdOwnerIndex s.fds n with
      | none =>
        simp only [howner] at hapart hroom ⊢
        exact ih (n + 1) h hapart hroom
      | some o =>
        simp only [howner] at hapart hroom ⊢
        have hcopy : Sound (copyFd s caller childPid n o).2 E := by
          have htable := h
          obtain ⟨slack, ht, -, -⟩ := htable
          obtain ⟨hown, hroot⟩ := fdOwnerIndex_some ht howner
          exact h.install_shared hroot rfl (ht.same n o hown).symm hpid hapart.1 hroom.1
        split
        · exact hcopy
        · rename_i hok
          exact ih (n + 1) hcopy (hapart.2.resolve_left hok) (hroom.2.resolve_left hok)

/-- The calls that make, share and close descriptors; connections are not among them. -/
def Local : Call → Prop
  | .accept _ _ => False
  | .sockets _ => False
  | _ => True

theorem perform_sound {c : Call} (h : Sound s ∅) (hcleared : Cleared s) (hc : Local c)
    (hapart : Apart s c) (hroom : HasRoom s c) : Sound (perform s c).2 ∅ := by
  cases c with
  | «open» pid path flags backend => exact h.radFdOpen hroom
  | close pid fd => exact h.radFdClose
  | dup pid fd => exact h.radFdDup hroom
  | dup2 pid oldFd newFd => exact h.radFdDup2 hapart hroom
  | fcntl pid fd command => exact h.radFdFcntl
  | pipe pid => exact h.radPipeCreate hcleared
  | socket pid domain type protocol => exact h.radSocketCreate hcleared
  | accept pid fd => exact hc.elim
  | shmOpen pid name byteSize flags => exact h.radShmOpen
  | shmUnlink name =>
    simp only [perform, radShmUnlink]
    split
    · exact h
    · exact h.congr rfl rfl rfl rfl rfl
  | clone caller parentPid childPid =>
    simp only [perform, radProcessCloneFds]
    split
    · exact h
    · rename_i hbad
      exact h.cloneFdsFrom (by omega) _ _ (hapart.resolve_left hbad) (hroom.resolve_left hbad)
  | exec pid path =>
    simp only [perform, radProcessMarkExec]
    split
    · exact h
    · split
      · exact h
      · rename_i k _
        dsimp only
        generalize Function.update s.processes k _ = table
        exact (h.congr (t := { s with processes := table }) rfl rfl rfl rfl rfl).closeProcessFds _ _
  | wait caller pid =>
    simp only [perform, radProcessWaitpid]
    split
    · rename_i k _
      have hclosed := h.closeProcessFds (s.processes k).pid false
      generalize Fd.closeProcessFds s (s.processes k).pid false = t at hclosed ⊢
      exact hclosed.congr rfl rfl rfl rfl rfl
    · split <;> exact h
  | processes table => exact h.congr rfl rfl rfl rfl rfl
  | sockets table => exact hc.elim

/-! ## The start -/

theorem table_empty : Table (fun _ => 0) (fun _ => {}) := by
  have hown : ∀ i, own (fun _ => {}) i = none := fun i => own_eq_none_of_free rfl
  refine ⟨⟨?_, ?_, ?_⟩, by simp, by simp, ?_, by simp, by simp⟩
  · intro i o h
    simp [hown] at h
  · intro i o h
    simp [hown] at h
  · intro o h
    simp [hown] at h
  · intro i o h
    simp [hown] at h

theorem sound_empty (processes : Nat → ProcessRecord) : Sound { processes := processes } ∅ := by
  refine ⟨fun _ => 0, table_empty, ⟨fun _ => rfl, by simp⟩, ⟨by simp, ?_⟩, ?_, by simp⟩
  · intro o o' x h
    simp [own] at h
  · have hheld : held (fun _ => ({} : FdRecord)) = ∅ := by
      ext y
      simp [held]
    have hset : held (fun _ => ({} : FdRecord)) ∪ ∅ = ∅ := by simp [hheld]
    rw [hset]
    refine ⟨by simp, by simp, by simp, by simp, by simp, ?_, by simp, by simp, by simp, by simp⟩
    intro k w _
    cases w <;> rfl

theorem Sound.openStdioFd (h : Sound s ∅) (hroom : Room s.fds 0 n) : Sound (openStdioFd s n) ∅ :=
  h.install_handle (by simp) rfl (by simp) (Denotes.device _) hroom

theorem sound_boot (console : Bool) (processes : Nat → ProcessRecord) :
    Sound (boot console processes) ∅ := by
  unfold boot
  have h0 := sound_empty processes
  split
  · have h1 := h0.openStdioFd (n := 0) ⟨by simp, by decide, .inl ?_⟩
    have h2 := h1.openStdioFd (n := 1) ⟨by simp, by decide, .inl ?_⟩
    have h3 := h2.openStdioFd (n := 2) ⟨by simp, by decide, .inl ?_⟩
    · exact h3
    · show freeSlot (Fd.openStdioFd (Fd.openStdioFd {} 0) 1).fds ≠ none
      decide
    · show freeSlot (Fd.openStdioFd {} 0).fds ≠ none
      decide
    · show freeSlot (fun _ => {}) ≠ none
      decide
  · exact h0

end RadKernel.Fd
