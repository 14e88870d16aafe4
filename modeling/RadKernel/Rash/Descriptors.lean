import Mathlib.Data.Finset.Basic
import RadKernel.Rash.Pipeline

/-!
# Descriptors of the shell

What is open after a line that was not open before it. `parse_line` keeps the last file that it
opens for a descriptor and `execute_line` closes that one, unless it has the number of the standard
descriptor.
-/

namespace RadKernel.Rash

variable {K : Type} {sys : Sys K} {fds : K → Finset Int} {opens : List (Redirect × Int)}
  {F G : Finset Int} {fd : Int}

/-- What the calls do to the open descriptors. A command closes what it opens. -/
structure DescriptorCalls (sys : Sys K) (fds : K → Finset Int) : Prop where
  sysOpen (path : Text) (flags : Nat) (s : K) :
    if (sys.sysOpen path flags s).1 < 0 then fds (sys.sysOpen path flags s).2 = fds s
    else (sys.sysOpen path flags s).1 ∉ fds s ∧
      fds (sys.sysOpen path flags s).2 = insert (sys.sysOpen path flags s).1 (fds s)
  sysPipe {s k : K} {status readEnd writeEnd : Int}
    (h : sys.sysPipe s = (status, (readEnd, writeEnd), k)) :
    if status < 0 then fds k = fds s
    else readEnd ∉ fds s ∧ writeEnd ∉ fds s ∧ readEnd ≠ writeEnd ∧
      fds k = insert readEnd (insert writeEnd (fds s))
  sysClose (fd : Int) (s : K) : fds (sys.sysClose fd s) = (fds s).erase fd
  sysWrite (fd : Int) (text : Text) (s : K) : fds (sys.sysWrite fd text s) = fds s
  builtin {run : Run} {s k : K} {status : Int} (h : sys.builtin run s = some (some status, k)) :
    fds k = fds s
  spawn (argv : List Text) (dups : List (Int × Int)) (s : K) :
    fds (sys.spawn argv dups s).2 = fds s

/-! ## What parse_line opens -/

/-- The descriptors of the files that could be opened. -/
def opened (input : Bool) (opens : List (Redirect × Int)) : List Int :=
  (opens.filter fun o => o.1.isInput = input ∧ 0 ≤ o.2).map (·.2)

theorem redirected_eq_getLast? (input : Bool) (opens : List (Redirect × Int)) :
    redirected input opens = (opened input opens).getLast? := by
  rw [redirected, opened, List.getLast?_map]

theorem opened_cons (input : Bool) (o : Redirect × Int) (opens : List (Redirect × Int)) :
    opened input (o :: opens) =
      if o.1.isInput = input ∧ 0 ≤ o.2 then o.2 :: opened input opens else opened input opens := by
  unfold opened
  split_ifs with h <;> simp [h]

/-- The files are opened for descriptors of their own. -/
structure Handed (F G : Finset Int) (opens : List (Redirect × Int)) : Prop where
  mem (fd : Int) : fd ∈ G ↔ fd ∈ F ∨ fd ∈ opened true opens ∨ fd ∈ opened false opens
  nodup (input : Bool) : (opened input opens).Nodup
  apart {fd : Int} : fd ∈ opened true opens → fd ∉ opened false opens
  fresh {fd : Int} (input : Bool) : fd ∈ opened input opens → fd ∉ F

theorem Handed.cons {kind : Redirect} (hfd : 0 ≤ fd) (hfresh : fd ∉ F)
    (h : Handed (insert fd F) G opens) : Handed F G ((kind, fd) :: opens) := by
  have hother : ∀ input, fd ∉ opened input opens :=
    fun input hmem => h.fresh input hmem (Finset.mem_insert_self fd F)
  have hold : ∀ input, ∀ other ∈ opened input opens, other ∉ F :=
    fun input other hmem hF => h.fresh input hmem (Finset.mem_insert_of_mem hF)
  have hmem := h.mem
  have hnodup := h.nodup
  have hapart := @h.apart
  constructor <;> cases hkind : kind.isInput <;> grind [opened_cons]

theorem Handed.failed {kind : Redirect} (hfd : fd < 0) (h : Handed F G opens) :
    Handed F G ((kind, fd) :: opens) := by
  have hnone : ∀ input, opened input ((kind, fd) :: opens) = opened input opens := by
    grind [opened_cons]
  exact ⟨by simpa only [hnone] using h.mem, by simpa only [hnone] using h.nodup,
    by simpa only [hnone] using @h.apart, by simpa only [hnone] using @h.fresh⟩

theorem Handed.words (hsys : DescriptorCalls sys fds) (ws : List Word) (parsed : Parsed K) :
    Handed (fds parsed.kernel) (fds (ws.foldl (Parsed.take sys) parsed).kernel)
      (openings sys ws parsed.kernel) := by
  induction ws generalizing parsed with
  | nil => exact ⟨by simp [openings, opened], by simp [openings, opened],
      by simp [openings, opened], by simp [openings, opened]⟩
  | cons word rest ih =>
    cases word with
    | arg text => exact ih { parsed with argv := parsed.argv ++ [text] }
    | redirect kind path =>
      have hopen := hsys.sysOpen path kind.flags parsed.kernel
      have hkernel : (parsed.take sys (.redirect kind path)).kernel =
          (sys.sysOpen path kind.flags parsed.kernel).2 := by
        simp only [Parsed.take]
        split_ifs <;> rfl
      have hrest := ih (parsed.take sys (.redirect kind path))
      rw [hkernel] at hrest
      split_ifs at hopen with hneg
      · exact (hopen ▸ hrest).failed hneg
      · exact (hopen.2 ▸ hrest).cons (Int.not_lt.1 hneg) hopen.1

/-! ## What execute_line closes -/

/-- All descriptors but the last one, and that too if it has the number of the standard one. -/
def leaked (input : Bool) (standard : Int) (opens : List (Redirect × Int)) : List Int :=
  if standard ∈ redirected input opens then opened input opens else (opened input opens).dropLast

def leakedBy (opens : List (Redirect × Int)) : List Int := leaked true 0 opens ++ leaked false 1 opens

section
variable (h : Handed F G opens)
include h

/-- The one that is closed. -/
theorem Handed.mem_leaked (input : Bool) (standard : Int) :
    fd ∈ leaked input standard opens ↔
      fd ∈ opened input opens ∧ ¬(fd ≠ standard ∧ redirected input opens = some fd) := by
  have hnodup := h.nodup input
  rw [leaked, redirected_eq_getLast?]
  rcases List.eq_nil_or_concat (opened input opens) with hnil | ⟨init, last, hlast⟩
  · simp [hnil]
  · rw [hlast] at hnodup ⊢
    grind

/-- The two descriptors of a command are closed. -/
theorem Handed.closed {infd outfd : Int}
    (hin : infd = (redirected true opens).getD 0) (hout : outfd = (redirected false opens).getD 1) :
    (fd ∈ G ∧ ¬(infd ≠ 0 ∧ fd = infd) ∧ ¬(outfd ≠ 1 ∧ fd = outfd)) ↔ fd ∈ F ∨ fd ∈ leakedBy opens := by
  have hlast : ∀ {input last}, redirected input opens = some last → last ∈ opened input opens :=
    fun h => List.mem_of_getLast? (redirected_eq_getLast? _ _ ▸ h)
  have hmem := h.mem fd
  have hapart := @h.apart
  have hfresh := @h.fresh
  rw [leakedBy, List.mem_append, h.mem_leaked, h.mem_leaked]
  cases htrue : redirected true opens <;> cases hfalse : redirected false opens <;> grind

theorem Handed.ne_of_mem {given standard : Int} {input : Bool}
    (hgiven : given = (redirected input opens).getD standard) (hfd : fd ∈ F) :
    given ≠ standard → given ≠ fd := by
  have hfresh := @h.fresh
  rw [redirected_eq_getLast?] at hgiven
  grind

end

/-- Nothing is closed that was open in `F`, and these are open besides. -/
structure Leaks (F G : Finset Int) (more : List Int) : Prop where
  mem (fd : Int) : fd ∈ G ↔ fd ∈ F ∨ fd ∈ more
  fresh {fd : Int} : fd ∈ more → fd ∉ F

theorem Leaks.eq_iff {more : List Int} (h : Leaks F G more) : G = F ↔ more = [] := by
  constructor
  · rintro rfl
    exact List.eq_nil_iff_forall_not_mem.2 fun fd hfd => h.fresh hfd ((h.mem fd).2 (.inr hfd))
  · rintro rfl
    exact Finset.ext fun fd => by simp [h.mem]

theorem mem_closeIf (hsys : DescriptorCalls sys fds) (s : Shell K) (p : Prop) [Decidable p]
    (closed : Int) :
    fd ∈ fds (s.closeIf sys p closed).kernel ↔ fd ∈ fds s.kernel ∧ ¬(p ∧ fd = closed) := by
  unfold Shell.closeIf Shell.close
  split_ifs with hp <;> simp [hsys.sysClose, hp, and_comm]

/-! ## The two sides -/

section

variable {text line : Text} {status outfd infd readEnd writeEnd : Int} {run : Run} {s t : Shell K}

section
variable (hsys : DescriptorCalls sys fds)
include hsys

theorem runCommand_fds {k k' : K}
    (h : runCommand sys run k = (some status, k')) : fds k' = fds k := by
  unfold runCommand at h
  split_ifs at h
  · cases h
    rfl
  · cases hbuiltin : sys.builtin run k with
    | some answer =>
      rw [hbuiltin] at h
      exact hsys.builtin (hbuiltin.trans (congrArg some h))
    | none =>
      simp only [hbuiltin] at h
      cases h
      exact hsys.spawn _ _ _

section
variable (h : parseAndRun sys text outfd infd s = (some status, run, t))
include h

theorem parseAndRun_fds :
    Handed (fds s.kernel) (fds t.kernel) (openings sys (words text) s.kernel) := by
  have hwords := Handed.words hsys (words text) { outfd := 1, infd := 0, kernel := s.kernel }
  have hparse : parseLine sys text { outfd, infd, kernel := s.kernel } =
      (words text).foldl (Parsed.take sys) { outfd := 1, infd := 0, kernel := s.kernel } :=
    parseRounds_eq sys _ _ _
  unfold parseAndRun at h
  rw [hparse] at h
  simp only [Prod.mk.injEq] at h
  obtain ⟨hstatus, -, rfl⟩ := h
  exact (runCommand_fds hsys (Prod.ext hstatus rfl)).symm ▸ hwords

/-- The descriptors after a command, where the two conditions are those for what it was given. -/
theorem leaks_closed {p q : Prop} [Decidable p]
    [Decidable q] (hp : p ↔ run.infd ≠ 0) (hq : q ↔ run.outfd ≠ 1) :
    Leaks (fds s.kernel) (fds ((t.closeIf sys p run.infd).closeIf sys q run.outfd).kernel)
      (leakedBy (openings sys (words text) s.kernel)) := by
  obtain ⟨run', hgiven, -, hrun⟩ := parseAndRun_given sys text outfd infd s
  obtain rfl : run = run' := by rw [← hrun, h]
  have hhanded := parseAndRun_fds hsys h
  refine ⟨fun fd => ?_, fun hfd => ?_⟩
  · rw [mem_closeIf hsys, mem_closeIf hsys, hp, hq, and_assoc]
    exact hhanded.closed hgiven.infd hgiven.outfd
  · rw [leakedBy, List.mem_append, hhanded.mem_leaked, hhanded.mem_leaked] at hfd
    exact hfd.elim (hhanded.fresh true ·.1) (hhanded.fresh false ·.1)

end

theorem runAlone_fds (h : runAlone sys text s = (some status, t)) :
    Leaks (fds s.kernel) (fds t.kernel) (leakedBy (openings sys (words text) s.kernel)) := by
  unfold runAlone at h
  rcases hrun : parseAndRun sys text 1 0 s with ⟨_ | answer, run, t'⟩ <;> simp only [hrun] at h <;>
    cases h
  exact leaks_closed hsys hrun Iff.rfl Iff.rfl

theorem parseAndRun_ne
    (h : parseAndRun sys text outfd infd s = (some status, run, t)) (hfd : fd ∈ fds s.kernel) :
    (run.infd ≠ 0 → run.infd ≠ fd) ∧ (run.outfd ≠ 1 → run.outfd ≠ fd) := by
  obtain ⟨run', hgiven, -, hrun⟩ := parseAndRun_given sys text outfd infd s
  obtain rfl : run = run' := by rw [← hrun, h]
  have hhanded := parseAndRun_fds hsys h
  exact ⟨hhanded.ne_of_mem hgiven.infd hfd, hhanded.ne_of_mem hgiven.outfd hfd⟩

theorem runLeft_fds (hend : writeEnd ∈ fds s.kernel)
    (h : runLeft sys text writeEnd s = (some status, t)) :
    ∃ G, Leaks (fds s.kernel) G (leakedBy (openings sys (words text) s.kernel)) ∧
      fds t.kernel = G.erase writeEnd := by
  unfold runLeft at h
  rcases hrun : parseAndRun sys text writeEnd 0 s with ⟨_ | answer, run, t'⟩ <;>
    simp only [hrun] at h <;> cases h
  have hne := (parseAndRun_ne hsys hrun hend).2
  exact ⟨_, leaks_closed hsys hrun Iff.rfl (and_iff_right_of_imp hne), hsys.sysClose _ _⟩

theorem runRight_fds (hend : readEnd ∈ fds s.kernel)
    (h : runRight sys text readEnd s = (some status, t)) :
    ∃ G, Leaks (fds s.kernel) G (leakedBy (openings sys (words text) s.kernel)) ∧
      fds t.kernel = G.erase readEnd := by
  unfold runRight at h
  rcases hrun : parseAndRun sys text 1 readEnd s with ⟨_ | answer, run, t'⟩ <;>
    simp only [hrun] at h <;> cases h
  have hne := (parseAndRun_ne hsys hrun hend).1
  exact ⟨_, leaks_closed hsys hrun (and_iff_right_of_imp hne) Iff.rfl,
    by simp [markerFd, Shell.close, hsys.sysWrite, hsys.sysClose]⟩

end

end

/-! ## execute_line -/

variable (sys) in
/-- The files that the commands of a line open, one list for each command that is run. -/
def sides (line : Text) (s : Shell K) : List (List (Redirect × Int)) :=
  match findPipelineSeparator line with
  | none => [openings sys (words line) s.kernel]
  | some n =>
    let (pipeStatus, (_, writeEnd), kernel) := sys.sysPipe s.kernel
    if pipeStatus < 0 then []
    else
      openings sys (words (line.take n)) kernel ::
        match runLeft sys (line.take n) writeEnd { s with kernel } with
        | (none, _) => []
        | (some status, s) =>
          if status < 0 then [] else [openings sys (words (line.drop (n + 1))) s.kernel]

variable {line : Text} {status : Int} {s t : Shell K}

/-- A line leaves open what was open, and what its commands leak. -/
theorem executeLine_fds (hsys : DescriptorCalls sys fds)
    (h : executeLine sys line s = (some status, t)) :
    Leaks (fds s.kernel) (fds t.kernel) ((sides sys line s).flatMap leakedBy) := by
  unfold executeLine at h
  unfold sides
  cases hline : findPipelineSeparator line with
  | none =>
    rw [hline] at h
    simpa using runAlone_fds hsys h
  | some n =>
    rcases hpipe : sys.sysPipe s.kernel with ⟨pipeStatus, ⟨readEnd, writeEnd⟩, kernel⟩
    have hends := hsys.sysPipe hpipe
    simp only [hline, hpipe] at h ⊢
    split_ifs at h hends ⊢ with hneg
    · cases h
      exact ⟨by simp [hends], by simp⟩
    · obtain ⟨hread, hwrite, hne, hkernel⟩ := hends
      rcases hleft : runLeft sys (line.take n) writeEnd { s with kernel } with ⟨_ | answer, u⟩ <;>
        simp only [hleft] at h ⊢
      · cases h
      obtain ⟨G, ⟨hmem, hfresh⟩, hu⟩ := runLeft_fds hsys (by grind) hleft
      split_ifs at h ⊢
      · cases h
        have hclosed := hsys.sysClose readEnd u.kernel
        constructor <;> grind [Shell.close]
      · obtain ⟨G', ⟨hmem', hfresh'⟩, ht⟩ := runRight_fds hsys (by grind) h
        constructor <;> grind

/-- What a command opens for each of the two descriptors is one file at most, and is closed. -/
def ClosedAgain (opens : List (Redirect × Int)) : Prop :=
  ((opened true opens).length ≤ 1 ∧ 0 ∉ opened true opens) ∧
    (opened false opens).length ≤ 1 ∧ 1 ∉ opened false opens

theorem leaked_eq_nil (input : Bool) (standard : Int) :
    leaked input standard opens = [] ↔
      (opened input opens).length ≤ 1 ∧ standard ∉ opened input opens := by
  rw [leaked, redirected_eq_getLast?]
  rcases List.eq_nil_or_concat (opened input opens) with hnil | ⟨init, last, hlast⟩
  · simp [hnil]
  · rw [hlast]
    grind

/-- When the shell has open what it had open before the line. -/
theorem executeLine_fds_iff (hsys : DescriptorCalls sys fds)
    (h : (executeLine sys line s).1 = some status) :
    fds (executeLine sys line s).2.kernel = fds s.kernel ↔
      ∀ opens ∈ sides sys line s, ClosedAgain opens := by
  rw [(executeLine_fds hsys (Prod.ext h rfl)).eq_iff, List.flatMap_eq_nil_iff]
  simp only [leakedBy, List.append_eq_nil_iff, leaked_eq_nil, ClosedAgain]

/-! ## A kernel with descriptors -/

def descriptorSys : Sys (List Int) where
  __ := plainSys
  sysClose fd s := s.filter (· ≠ fd)

theorem freeDescriptor_spec (s : List Int) : 0 ≤ freeDescriptor s ∧ freeDescriptor s ∉ s := by
  unfold freeDescriptor
  cases hfind : ((List.range (s.length + 1)).map Int.ofNat).find? (· ∉ s) with
  | some fd =>
    obtain ⟨n, -, rfl⟩ := List.mem_map.1 (List.mem_of_find?_eq_some hfind)
    exact ⟨Int.natCast_nonneg n, by simpa using List.find?_some hfind⟩
  | none =>
    have hsubset : (List.range (s.length + 1)).map Int.ofNat ⊆ s :=
      fun fd hfd => by simpa using List.find?_eq_none.1 hfind fd hfd
    have hnodup : ((List.range (s.length + 1)).map Int.ofNat).Nodup :=
      List.nodup_range.map fun _ _ => Int.ofNat.inj
    exact absurd (List.subperm_of_subset hnodup hsubset).length_le (by simp)

theorem descriptorCalls_descriptorSys : DescriptorCalls descriptorSys List.toFinset where
  sysOpen _ _ s := by
    obtain ⟨hpos, hfree⟩ := freeDescriptor_spec s
    simp [descriptorSys, plainSys, Int.not_lt.2 hpos, hfree]
  sysPipe {s k status readEnd writeEnd} h := by
    obtain ⟨-, hread⟩ := freeDescriptor_spec s
    obtain ⟨-, hwrite⟩ := freeDescriptor_spec (freeDescriptor s :: s)
    cases h
    grind [List.mem_toFinset, List.toFinset_cons, Finset.insert_comm]
  sysClose fd s := by ext; simp [descriptorSys, and_comm]
  sysWrite _ _ _ := rfl
  builtin {run s k status} h := by
    simp only [descriptorSys, plainSys] at h
    grind
  spawn _ _ _ := rfl

theorem executeLine_fds_iff_echo :
    (executeLine descriptorSys "echo hi >a | cat <a >b".toList standardShell).2.kernel.toFinset =
      standardShell.kernel.toFinset := by
  refine (executeLine_fds_iff descriptorCalls_descriptorSys
    (show _ = some 0 by decide +kernel)).2 ?_
  unfold ClosedAgain
  decide +kernel

/-- The file `a` stays open. -/
theorem not_executeLine_fds_eq :
    DescriptorCalls descriptorSys List.toFinset ∧
      (executeLine descriptorSys "echo hi >a >b".toList standardShell).1 = some 0 ∧
      (executeLine descriptorSys "echo hi >a >b".toList standardShell).2.kernel.toFinset ≠
        standardShell.kernel.toFinset :=
  ⟨descriptorCalls_descriptorSys, by decide +kernel, by decide +kernel⟩

end RadKernel.Rash
