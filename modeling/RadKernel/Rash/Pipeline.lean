import Mathlib.Data.List.Basic
import RadKernel.Rash.Model

/-!
# Pipelines of the shell

What a command of a pipeline should be given: the file of its last redirection that could be opened,
else the end of the pipe. `parse_line` sets the two descriptors to 1 and 0 before it reads the line,
so that the ends of the pipe are lost unless they have these numbers.
-/

namespace RadKernel.Rash

variable {K : Type} (sys : Sys K)

/-! ## Words -/

def Word.args : Word → List Text
  | .arg text => [text]
  | .redirect .. => []

/-- The words that `parse_line` reads when it has some arguments already. -/
def wordsFrom : Nat → Nat → Text → List Word
  | 0, _, _ => []
  | rounds + 1, argc, p =>
    if argc < maxArgs - 1 then
      match nextWord p with
      | none => []
      | some (word, p) => word :: wordsFrom rounds (argc + word.args.length) p
    else []

def words (line : Text) : List Word := wordsFrom (line.length + 1) 0 line

theorem length_cut_le (ends : Char → Bool) (p : Text) : (cut ends p).2.length ≤ p.length := by
  have hdrop : (p.dropWhile fun c => !ends c).length ≤ p.length :=
    (List.dropWhile_suffix _).length_le
  simp only [cut, List.length_drop]
  omega

theorem length_parseRedirectPath_le (p : Text) : (parseRedirectPath p).2.length ≤ p.length :=
  Nat.le_trans (length_cut_le isBlank _) (List.dropWhile_suffix _).length_le

theorem length_cut_lt {ends : Char → Bool} {c : Char} (h : ends c = false) (p : Text) :
    (cut ends (c :: p)).2.length < (c :: p).length := by
  have hdrop : (p.dropWhile fun c => !ends c).length ≤ p.length :=
    (List.dropWhile_suffix _).length_le
  simp only [cut, List.dropWhile_cons, h, Bool.not_false, if_true, List.length_drop, List.length_cons]
  omega

/-- A round reads something. -/
theorem nextWord_length {p rest : Text} {word : Word} (h : nextWord p = some (word, rest)) :
    rest.length < p.length := by
  have hblanks : (p.dropWhile isBlank).length ≤ p.length := (List.dropWhile_suffix _).length_le
  unfold nextWord at h
  split at h
  · cases h
  · next c tail hp =>
    have hc : isBlank c = false := by
      have hhead := List.head?_dropWhile_not isBlank p
      rw [hp] at hhead
      simpa using hhead
    rw [hp] at hblanks
    have htail : tail.length < p.length := hblanks
    split_ifs at h
    · split at h
      · next tail' =>
        cases h
        have hpath := length_parseRedirectPath_le tail'
        simp only [List.length_cons] at htail
        omega
      · cases h
        exact Nat.lt_of_le_of_lt (length_parseRedirectPath_le tail) htail
    · cases h
      exact Nat.lt_of_le_of_lt (length_parseRedirectPath_le tail) htail
    · cases h
      exact Nat.lt_of_le_of_lt (length_cut_le _ tail) htail
    · cases h
      exact Nat.lt_of_lt_of_le (length_cut_lt hc tail) hblanks

/-- More rounds than characters read no more words. -/
theorem wordsFrom_rounds {rounds argc : Nat} {p : Text} (h : p.length < rounds) :
    wordsFrom (rounds + 1) argc p = wordsFrom rounds argc p := by
  induction rounds generalizing argc p with
  | zero => exact absurd h (Nat.not_lt_zero _)
  | succ rounds ih =>
    rw [wordsFrom, wordsFrom]
    split_ifs
    · cases hnext : nextWord p with
      | none => rfl
      | some pair =>
        have hlt := nextWord_length hnext
        exact congrArg _ (ih (by omega))
    · rfl

theorem parseRounds_eq (rounds : Nat) (p : Text) (parsed : Parsed K) :
    parseRounds sys rounds p parsed =
      (wordsFrom rounds parsed.argv.length p).foldl (Parsed.take sys) parsed := by
  induction rounds generalizing p parsed with
  | zero => rfl
  | succ rounds ih =>
    rw [parseRounds, wordsFrom]
    split_ifs
    · cases nextWord p with
      | none => rfl
      | some pair =>
        obtain ⟨word, rest⟩ := pair
        have hlength : (parsed.take sys word).argv.length =
            parsed.argv.length + word.args.length := by
          cases word with
          | arg text => simp [Parsed.take, Word.args]
          | redirect kind path =>
            simp only [Parsed.take]
            split_ifs <;> rfl
        dsimp only
        rw [ih, hlength]
        rfl
    · rfl

/-! ## Redirections -/

def openings : List Word → K → List (Redirect × Int)
  | [], _ => []
  | .arg _ :: rest, s => openings rest s
  | .redirect kind path :: rest, s =>
    (kind, (sys.sysOpen path kind.flags s).1) :: openings rest (sys.sysOpen path kind.flags s).2

/-- The file of the last redirection that could be opened. -/
def redirected (input : Bool) (opens : List (Redirect × Int)) : Option Int :=
  ((opens.filter fun o => o.1.isInput = input ∧ 0 ≤ o.2).getLast?).map (·.2)

theorem redirected_cons (input : Bool) (o : Redirect × Int) (rest : List (Redirect × Int))
    (fd : Int) : (redirected input (o :: rest)).getD fd =
      (redirected input rest).getD (if o.1.isInput = input ∧ 0 ≤ o.2 then o.2 else fd) := by
  unfold redirected
  rw [List.filter_cons]
  by_cases h : o.1.isInput = input ∧ 0 ≤ o.2
  · rw [if_pos (decide_eq_true h), if_pos h, List.getLast?_cons]
    cases (rest.filter _).getLast? <;> rfl
  · rw [if_neg (by simpa using h), if_neg h]

theorem foldl_take (ws : List Word) (parsed : Parsed K) :
    (ws.foldl (Parsed.take sys) parsed).argv = parsed.argv ++ ws.flatMap Word.args ∧
      (ws.foldl (Parsed.take sys) parsed).outfd =
        (redirected false (openings sys ws parsed.kernel)).getD parsed.outfd ∧
      (ws.foldl (Parsed.take sys) parsed).infd =
        (redirected true (openings sys ws parsed.kernel)).getD parsed.infd := by
  induction ws generalizing parsed with
  | nil => exact ⟨(List.append_nil _).symm, rfl, rfl⟩
  | cons word rest ih =>
    obtain ⟨hargv, hout, hin⟩ := ih (parsed.take sys word)
    rw [List.foldl_cons, hargv, hout, hin]
    cases word with
    | arg text => exact ⟨by simp [Parsed.take, Word.args], rfl, rfl⟩
    | redirect kind path =>
      rw [openings, redirected_cons, redirected_cons]
      simp only [Parsed.take]
      rcases Int.lt_or_le (sys.sysOpen path kind.flags parsed.kernel).1 0 with hfd | hfd
      · simp [hfd, Word.args, Int.not_le.2 hfd]
      · cases hkind : kind.isInput <;> simp [hfd, Word.args, Int.not_lt.2 hfd]

/-- A command has its arguments, and for each descriptor the redirection or what is given here. -/
structure Given (text : Text) (outfd infd : Int) (s : K) (run : Run) : Prop where
  argv : run.argv = (words text).flatMap Word.args
  outfd : run.outfd = (redirected false (openings sys (words text) s)).getD outfd
  infd : run.infd = (redirected true (openings sys (words text) s)).getD infd

/-- Whatever the descriptors are set to before, a command is given 1 and 0. -/
theorem parseAndRun_given (text : Text) (outfd infd : Int) (s : Shell K) :
    ∃ run, Given sys text 1 0 s.kernel run ∧
      (parseAndRun sys text outfd infd s).2.2.runs = s.runs ++ [run] ∧
      (parseAndRun sys text outfd infd s).2.1 = run := by
  obtain ⟨hargv, hout, hin⟩ := foldl_take sys (words text) { outfd := 1, infd := 0, kernel := s.kernel }
  have hparse : parseLine sys text { outfd, infd, kernel := s.kernel } =
      (words text).foldl (Parsed.take sys) { outfd := 1, infd := 0, kernel := s.kernel } :=
    parseRounds_eq sys _ _ _
  rw [← hparse] at hargv hout hin
  exact ⟨_, ⟨hargv, hout, hin⟩, rfl, rfl⟩

/-! ## The two sides -/

@[simp] theorem Shell.closeIf_runs (s : Shell K) (p : Prop) [Decidable p] (fd : Int) :
    (s.closeIf sys p fd).runs = s.runs := by
  unfold Shell.closeIf
  split_ifs <;> rfl

@[simp] theorem Shell.close_runs (s : Shell K) (fd : Int) : (s.close sys fd).runs = s.runs := rfl

theorem runLeft_runs (text : Text) (writeEnd : Int) (s : Shell K) :
    ∃ run, Given sys text 1 0 s.kernel run ∧
      (runLeft sys text writeEnd s).2.runs = s.runs ++ [run] := by
  obtain ⟨run, hgiven, hruns, -⟩ := parseAndRun_given sys text writeEnd 0 s
  refine ⟨run, hgiven, ?_⟩
  unfold runLeft
  rcases hrun : parseAndRun sys text writeEnd 0 s with ⟨_ | status, run', s'⟩
  · rw [hrun] at hruns
    exact hruns
  · rw [hrun] at hruns
    simpa using hruns

theorem runRight_runs (text : Text) (readEnd : Int) (s : Shell K) :
    ∃ run, Given sys text 1 0 s.kernel run ∧
      (runRight sys text readEnd s).2.runs = s.runs ++ [run] := by
  obtain ⟨run, hgiven, hruns, -⟩ := parseAndRun_given sys text 1 readEnd s
  refine ⟨run, hgiven, ?_⟩
  unfold runRight
  rcases hrun : parseAndRun sys text 1 readEnd s with ⟨_ | status, run', s'⟩
  · rw [hrun] at hruns
    exact hruns
  · rw [hrun] at hruns
    simpa [markerFd] using hruns

/-- The left command comes back, with a status that is no error. -/
def RightRuns (text : Text) (writeEnd : Int) (s : Shell K) : Prop :=
  ∃ status, 0 ≤ status ∧ (runLeft sys text writeEnd s).1 = some status

variable {sys} in
theorem Given.iff {text : Text} {outfd infd : Int} {s : K} {run : Run}
    (h : Given sys text 1 0 s run) :
    Given sys text outfd infd s run ↔
      ((redirected false (openings sys (words text) s)).isSome ∨ outfd = 1) ∧
        ((redirected true (openings sys (words text) s)).isSome ∨ infd = 0) := by
  have hone : ∀ {fd? : Option Int} {standard given : Int},
      fd?.getD standard = fd?.getD given ↔ fd?.isSome ∨ given = standard := fun {fd?} => by
    cases fd? with
    | none => simp [eq_comm]
    | some fd => simp
  constructor
  · intro hgiven
    exact ⟨hone.1 (h.outfd.symm.trans hgiven.outfd), hone.1 (h.infd.symm.trans hgiven.infd)⟩
  · rintro ⟨hout, hin⟩
    exact ⟨h.argv, h.outfd.trans (hone.2 hout), h.infd.trans (hone.2 hin)⟩

/-- The state in which the right side is read. -/
def afterLeft (text : Text) (writeEnd : Int) (s : Shell K) : Shell K := (runLeft sys text writeEnd s).2

/-- The left command writes to the pipe and the right one, if it is run, reads from it, except where
a side is redirected. -/
structure Connected (line : Text) (n : Nat) (readEnd writeEnd : Int) (k : K) (s : Shell K) : Prop where
  left : ∃ run rest, (executeLine sys line s).2.runs = s.runs ++ run :: rest ∧
    Given sys (line.take n) writeEnd 0 k run
  right : RightRuns sys (line.take n) writeEnd { s with kernel := k } →
    ∃ left run, (executeLine sys line s).2.runs = s.runs ++ [left, run] ∧
      Given sys (line.drop (n + 1)) 1 readEnd
        (afterLeft sys (line.take n) writeEnd { s with kernel := k }).kernel run

section

variable {line : Text} {n : Nat} {status readEnd writeEnd : Int} {k : K} {s : Shell K}

/-- The commands that are run, and what they are given. -/
theorem executeLine_runs (hline : findPipelineSeparator line = some n)
    (hpipe : sys.sysPipe s.kernel = (status, (readEnd, writeEnd), k)) (hstatus : 0 ≤ status) :
    ∃ left, Given sys (line.take n) 1 0 k left ∧
      (RightRuns sys (line.take n) writeEnd { s with kernel := k } →
        ∃ right, Given sys (line.drop (n + 1)) 1 0
            (afterLeft sys (line.take n) writeEnd { s with kernel := k }).kernel right ∧
          (executeLine sys line s).2.runs = s.runs ++ [left, right]) ∧
      (¬RightRuns sys (line.take n) writeEnd { s with kernel := k } →
        (executeLine sys line s).2.runs = s.runs ++ [left]) := by
  obtain ⟨left, hleft, hruns⟩ := runLeft_runs sys (line.take n) writeEnd { s with kernel := k }
  refine ⟨left, hleft, ?_⟩
  unfold executeLine afterLeft
  simp only [hline, hpipe, if_neg (Int.not_lt.2 hstatus)]
  rcases hrun : runLeft sys (line.take n) writeEnd { s with kernel := k } with ⟨_ | answer, s'⟩
  · rw [hrun] at hruns
    refine ⟨?_, fun _ => hruns⟩
    rintro ⟨answer, -, hanswer⟩
    rw [hrun] at hanswer
    cases hanswer
  · rw [hrun] at hruns
    dsimp only at hruns ⊢
    split_ifs with hneg
    · refine ⟨?_, fun _ => hruns⟩
      rintro ⟨answer', hpos, hanswer⟩
      rw [hrun] at hanswer
      cases hanswer
      exact absurd hneg (Int.not_lt.2 hpos)
    · obtain ⟨right, hright, hruns'⟩ := runRight_runs sys (line.drop (n + 1)) readEnd s'
      refine ⟨fun _ => ⟨right, hright, ?_⟩, fun h => absurd ⟨answer, Int.not_lt.1 hneg, ?_⟩ h⟩
      · rw [hruns', hruns, List.append_assoc]
        rfl
      · rw [hrun]

/-- When the two commands are given what they should be given. -/
theorem connected_iff (hline : findPipelineSeparator line = some n)
    (hpipe : sys.sysPipe s.kernel = (status, (readEnd, writeEnd), k)) (hstatus : 0 ≤ status) :
    Connected sys line n readEnd writeEnd k s ↔
      ((redirected false (openings sys (words (line.take n)) k)).isSome ∨ writeEnd = 1) ∧
        (RightRuns sys (line.take n) writeEnd { s with kernel := k } →
          (redirected true (openings sys (words (line.drop (n + 1)))
            (afterLeft sys (line.take n) writeEnd { s with kernel := k }).kernel)).isSome ∨
          readEnd = 0) := by
  obtain ⟨left, hleft, hright, hnone⟩ := executeLine_runs sys hline hpipe hstatus
  constructor
  · rintro ⟨⟨run, rest, hruns, hgiven⟩, h⟩
    refine ⟨?_, fun hr => ?_⟩
    · have hsame : run = left := by
        by_cases hr : RightRuns sys (line.take n) writeEnd { s with kernel := k }
        · obtain ⟨right, -, hruns'⟩ := hright hr
          exact (List.cons.inj (List.append_cancel_left (hruns.symm.trans hruns'))).1
        · exact (List.cons.inj (List.append_cancel_left (hruns.symm.trans (hnone hr)))).1
      exact (hleft.iff.1 (hsame ▸ hgiven)).1
    · obtain ⟨right, hgivenRight, hruns'⟩ := hright hr
      obtain ⟨left', run', hruns'', hgiven'⟩ := h hr
      have hlists := List.append_cancel_left (hruns''.symm.trans hruns')
      simp only [List.cons.injEq, and_true] at hlists
      exact (hgivenRight.iff.1 (hlists.2 ▸ hgiven')).2
  · rintro ⟨hout, hin⟩
    have hgiven : Given sys (line.take n) writeEnd 0 k left := hleft.iff.2 ⟨hout, .inr rfl⟩
    by_cases hr : RightRuns sys (line.take n) writeEnd { s with kernel := k }
    · obtain ⟨right, hgivenRight, hruns⟩ := hright hr
      exact ⟨⟨left, [right], hruns, hgiven⟩,
        fun _ => ⟨left, right, hruns, hgivenRight.iff.2 ⟨.inr rfl, hin hr⟩⟩⟩
    · exact ⟨⟨left, [], hnone hr, hgiven⟩, fun h => absurd h hr⟩

end

/-! ## echo and cat -/

/-- The first descriptor that is not open. -/
def freeDescriptor (s : List Int) : Int :=
  ((List.range (s.length + 1)).map Int.ofNat).find? (· ∉ s) |>.getD 0

/-- A kernel that knows which descriptors are open; `echo` and `cat` are built in. -/
def plainSys : Sys (List Int) where
  sysOpen _ _ s := (freeDescriptor s, freeDescriptor s :: s)
  sysPipe s :=
    (0, (freeDescriptor s, freeDescriptor (freeDescriptor s :: s)),
      freeDescriptor (freeDescriptor s :: s) :: freeDescriptor s :: s)
  sysClose fd s := s.erase fd
  sysWrite _ _ s := s
  builtin run s :=
    if run.argv.head? = some "echo".toList then some (some 0, s)
    else if run.argv.head? = some "cat".toList then
      some (some (if run.argv.length = 1 ∧ run.infd = 0 then -2 else 0), s)
    else none
  spawn _ _ s := (0, s)

def standardShell : Shell (List Int) where
  kernel := [0, 1, 2]

theorem connected_iff_redirected :
    Connected plainSys "echo hi >f | cat <f".toList 11 3 4 [4, 3, 0, 1, 2] standardShell := by
  refine (@connected_iff _ plainSys "echo hi >f | cat <f".toList 11 0 3 4 [4, 3, 0, 1, 2]
    standardShell ?_ ?_ ?_).2 ⟨.inl ?_, fun _ => .inl ?_⟩
  all_goals decide +kernel

/-- `echo` writes to descriptor 1, and not to the pipe. -/
theorem not_connected_echo :
    findPipelineSeparator "echo hi | cat".toList = some 8 ∧
      plainSys.sysPipe standardShell.kernel = (0, (3, 4), [4, 3, 0, 1, 2]) ∧
      redirected false (openings plainSys (words "echo hi ".toList) [4, 3, 0, 1, 2]) = none ∧
      ¬Connected plainSys "echo hi | cat".toList 8 3 4 [4, 3, 0, 1, 2] standardShell := by
  refine ⟨by decide +kernel, by decide +kernel, by decide +kernel, fun h => ?_⟩
  obtain ⟨run, rest, hruns, hgiven⟩ := h.left
  have hactual : (executeLine plainSys "echo hi | cat".toList standardShell).2.runs =
      [⟨["echo".toList, "hi".toList], 1, 0⟩, ⟨["cat".toList], 1, 0⟩] := by decide +kernel
  have hrun : (⟨["echo".toList, "hi".toList], 1, 0⟩ : Run) = run :=
    (List.cons.inj (hactual.symm.trans hruns)).1
  have hout : run.outfd = 4 := hgiven.outfd
  rw [← hrun] at hout
  exact absurd hout (by decide)

end RadKernel.Rash
