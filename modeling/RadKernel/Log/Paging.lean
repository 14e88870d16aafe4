import Mathlib.Data.List.DropRight
import RadKernel.Log.Model

/-!
# Reading the log page by page

After any writes `rad_log_read` finds the entries behind a sequence number among the last ones
that were written. A loop that goes on behind the last entry of each page then handles every
entry once.
-/

namespace RadKernel.Log

open List

/-- The arguments of `rad_log_write`, with the time of the call. -/
structure Write where
  now : Nat
  level : LogLevel
  category : List Char
  message : List Char

def Write.entry (w : Write) (sequence : Nat) : LogEntry :=
  { sequence := sequence
    timeMillis := w.now
    level := w.level
    category := copyString logCategoryMax (if w.category ≠ [] then w.category else "kernel".toList)
    message := copyString logMessageMax w.message }

def logAfter (writes : List Write) : LogState :=
  writes.foldl (fun s w => radLogWrite s w.now w.level w.category w.message) {}

def written (writes : List Write) : List LogEntry := writes.mapIdx fun i w => w.entry (i + 1)

def retained (writes : List Write) : List LogEntry := (written writes).rtake maxLogEntries

/-- The entries behind a sequence number. -/
def behind (afterSequence : Nat) (entries : List LogEntry) : List LogEntry :=
  entries.filter fun e => afterSequence < e.sequence

variable {s : LogState} {entries page : List LogEntry} {after : Nat}

/-! ## What the log holds -/

/-- The ring holds the last entries. -/
structure Holds (s : LogState) (entries : List LogEntry) : Prop where
  next : s.nextLogSequence = entries.length
  numbered : ∀ i e, entries[i]? = some e → e.sequence = i + 1
  kept : ∀ i e, entries[i]? = some e → entries.length ≤ i + maxLogEntries →
    s.logs ((i + 1) % maxLogEntries) = { entry := e, used := true }

theorem Holds.write (h : Holds s entries) (w : Write) :
    Holds (radLogWrite s w.now w.level w.category w.message)
      (entries ++ [w.entry (entries.length + 1)]) where
  next := by simp [radLogWrite, h.next]
  numbered i e he := by
    rw [List.getElem?_append] at he
    split at he
    · exact h.numbered i e he
    · next hi =>
      have hlast : i = entries.length ∧ w.entry (entries.length + 1) = e := by grind
      rw [← hlast.2, hlast.1]
      rfl
  kept i e he hlen := by
    rw [length_append, length_singleton] at hlen
    rw [List.getElem?_append] at he
    simp only [radLogWrite, h.next]
    split at he
    · next hi =>
      -- the slots of the last entries are different
      have hne : (i + 1) % maxLogEntries ≠ (entries.length + 1) % maxLogEntries := by
        simp only [maxLogEntries] at hlen ⊢
        omega
      rw [Function.update_of_ne hne]
      exact h.kept i e he (by omega)
    · next hi =>
      have hlast : i = entries.length ∧ w.entry (entries.length + 1) = e := by grind
      rw [← hlast.2, hlast.1, Function.update_self]
      rfl

theorem written_concat (writes : List Write) (w : Write) :
    written (writes ++ [w]) = written writes ++ [w.entry ((written writes).length + 1)] := by
  simp [written, mapIdx_append]

theorem holds_logAfter (writes : List Write) : Holds (logAfter writes) (written writes) := by
  induction writes using List.reverseRecOn with
  | nil => exact ⟨rfl, by simp [written], by simp [written]⟩
  | append_singleton writes w ih =>
    rw [written_concat, logAfter, foldl_append]
    exact ih.write w

/-! ## Reading -/

/-- The entry that a turn of the loop of `rad_log_read` accepts. -/
def matching (s : LogState) (afterSequence sequence : Nat) : Option LogEntry :=
  let record := s.logs (sequence % maxLogEntries)
  if !record.used ∨ record.entry.sequence ≠ sequence ∨ sequence ≤ afterSequence then none
  else some record.entry

theorem readStep_eq (capacity : Nat) (out : Nat × List LogEntry) (q : Nat) :
    readStep s capacity after out q =
      match matching s after q with
      | none => out
      | some e => (out.1 + 1, if out.1 < capacity then out.2 ++ [e] else out.2) := by
  unfold matching readStep
  dsimp only
  split <;> rfl

/-- The loop counts all the entries and copies the first ones. -/
theorem foldl_readStep (s : LogState) (after capacity : Nat) (sequences : List Nat)
    (found : List LogEntry) :
    sequences.foldl (readStep s capacity after) (found.length, found.take capacity) =
      ((found ++ sequences.filterMap (matching s after)).length,
        (found ++ sequences.filterMap (matching s after)).take capacity) := by
  induction sequences generalizing found with
  | nil => simp
  | cons q sequences ih =>
    rw [foldl_cons, readStep_eq]
    cases hq : matching s after q with
    | none => rw [ih, filterMap_cons_none hq]
    | some e =>
      have hcopy : (if found.length < capacity then found.take capacity ++ [e]
          else found.take capacity) = (found ++ [e]).take capacity := by
        split
        · next hroom =>
          rw [take_of_length_le (by omega), take_of_length_le (by simp; omega)]
        · next hfull => rw [take_append_of_le_length (by omega)]
      have hnext := ih (found ++ [e])
      rw [length_append, length_singleton] at hnext
      dsimp only
      rw [filterMap_cons_some hq, hcopy, hnext, append_assoc, singleton_append]

variable {e : LogEntry}

theorem Holds.matching_eq (h : Holds s entries) {i : Nat}
    (he : entries[i]? = some e) (hlast : entries.length ≤ i + maxLogEntries) :
    matching s after (i + 1) = if after < e.sequence then some e else none := by
  have hsequence := h.numbered i e he
  simp only [matching, h.kept i e he hlast]
  grind

theorem filterMap_range' {α β : Type} {f : Nat → Option β} {g : α → Option β} (l : List α)
    (first : Nat) (h : ∀ i x, l[i]? = some x → f (first + i) = g x) :
    (List.range' first l.length).filterMap f = l.filterMap g := by
  induction l generalizing first with
  | nil => rfl
  | cons x l ih =>
    have hrest := ih (first + 1) fun i y hy => by
      rw [Nat.add_right_comm]
      exact h (i + 1) y hy
    rw [length_cons, List.range'_succ, filterMap_cons, filterMap_cons, hrest,
      show f first = g x from h 0 x rfl]

/-- A call counts the entries behind `after` among the last ones, and copies the first of them. -/
theorem Holds.radLogRead (h : Holds s entries) (capacity : Nat) :
    radLogRead s capacity after =
      ((behind after (entries.rtake maxLogEntries)).length,
        (behind after (entries.rtake maxLogEntries)).take capacity) := by
  have hfirst : (if maxLogEntries < s.nextLogSequence then s.nextLogSequence - maxLogEntries + 1
      else 1) = entries.length - maxLogEntries + 1 := by
    rw [h.next]
    split <;> omega
  have hfound : (List.range' (entries.length - maxLogEntries + 1)
      (entries.rtake maxLogEntries).length).filterMap (matching s after) =
        behind after (entries.rtake maxLogEntries) := by
    rw [behind, ← filterMap_eq_filter]
    apply filterMap_range'
    intro i e he
    rw [List.rtake, List.getElem?_drop] at he
    rw [Nat.add_right_comm, h.matching_eq he (by omega)]
    simp [Option.guard]
  have hlength : s.nextLogSequence + 1 - (entries.length - maxLogEntries + 1) =
      (entries.rtake maxLogEntries).length := by
    rw [h.next, List.rtake, length_drop]
    omega
  have hloop := foldl_readStep s after capacity
    (List.range' (entries.length - maxLogEntries + 1) (entries.rtake maxLogEntries).length) []
  simp only [length_nil, take_nil, nil_append, hfound] at hloop
  rw [Log.radLogRead, hfirst, hlength, hloop]

/-! ## Pages -/

/-- The entries in the order of their numbers. -/
def Sorted (entries : List LogEntry) : Prop :=
  entries.Pairwise fun e f => e.sequence < f.sequence

theorem Holds.sorted (h : Holds s entries) : Sorted entries := by
  refine List.pairwise_iff_getElem.2 fun i j hi hj hij => ?_
  rw [h.numbered i _ (List.getElem?_eq_getElem hi), h.numbered j _ (List.getElem?_eq_getElem hj)]
  omega

theorem Sorted.behind (h : Sorted entries) (after : Nat) : Sorted (behind after entries) :=
  h.sublist filter_sublist

theorem Sorted.behind_last (h : Sorted entries) {n : Nat}
    (hlast : ((Log.behind after entries).take n).getLast? = some e) :
    Log.behind e.sequence entries = (Log.behind after entries).drop n := by
  have hafter : after < e.sequence := by
    have hmem := mem_of_mem_take (mem_of_getLast? hlast)
    simpa [Log.behind] using (List.mem_filter.1 hmem).2
  have hsame : Log.behind e.sequence entries = Log.behind e.sequence (Log.behind after entries) := by
    rw [Log.behind, Log.behind, Log.behind, filter_filter]
    refine filter_congr fun x _ => ?_
    grind
  have hsorted := h.behind after
  obtain ⟨init, hpage⟩ := List.getLast?_eq_some_iff.1 hlast
  rw [hsame]
  generalize Log.behind after entries = rest at hsorted hpage ⊢
  rw [← take_append_drop n rest, hpage] at hsorted
  have hinit : ∀ x ∈ init ++ [e], ¬ e.sequence < x.sequence := by
    intro x hx
    rcases List.mem_append.1 hx with hx | hx
    · have hlt := (List.pairwise_append.1 (List.pairwise_append.1 hsorted).1).2.2 x hx e (by simp)
      omega
    · rw [List.mem_singleton.1 hx]
      omega
  have hdrop : ∀ x ∈ rest.drop n, e.sequence < x.sequence := fun x hx =>
    (List.pairwise_append.1 hsorted).2.2 e (by simp) x hx
  calc Log.behind e.sequence rest
      = Log.behind e.sequence (rest.take n) ++ Log.behind e.sequence (rest.drop n) := by
        rw [Log.behind, Log.behind, Log.behind, ← filter_append, take_append_drop]
    _ = rest.drop n := by
        rw [hpage, Log.behind, Log.behind, List.filter_eq_nil_iff.2, List.filter_eq_self.2]
        · rfl
        · simpa using hdrop
        · simpa using hinit

section

variable {ε σ : Type} {emit : σ → LogEntry → Except ε σ}

theorem emitPage_eq (page : List LogEntry) (after : Nat) (out : σ) :
    emitPage emit page after out = (page.foldlM emit out).map fun out =>
      ((page.getLast?.map (·.sequence)).getD after, out) := by
  induction page generalizing after out with
  | nil => rfl
  | cons e page ih =>
    rw [emitPage, foldlM_cons]
    cases emit out e with
    | error status => rfl
    | ok out =>
      dsimp only
      rw [ih]
      cases page with
      | nil => rfl
      | cons f page =>
        rfl

/-- A page that is not the last one moves on to what it left out. -/
theorem emitPages_eq (emit : σ → LogEntry → Except ε σ) (h : Holds s entries) (fuel after : Nat)
    (out : σ)
    (hfuel : (behind after (entries.rtake maxLogEntries)).length + pageEntries ≤
      pageEntries * fuel) :
    emitPages s emit fuel after out =
      some ((behind after (entries.rtake maxLogEntries)).foldlM emit out) := by
  induction fuel generalizing after out with
  | zero =>
    simp [pageEntries] at hfuel
  | succ fuel ih =>
    have hsorted : Sorted (entries.rtake maxLogEntries) := h.sorted.sublist (drop_sublist _ _)
    rw [emitPages, h.radLogRead]
    dsimp only
    split
    · next hnone =>
      rw [eq_nil_of_length_eq_zero hnone]
      rfl
    · next hsome =>
      obtain ⟨e, hlast⟩ : ∃ e, ((behind after (entries.rtake maxLogEntries)).take
          pageEntries).getLast? = some e := by
        refine Option.ne_none_iff_exists'.1 fun hnone => hsome ?_
        simpa [pageEntries] using hnone
      have hrest := hsorted.behind_last hlast
      rw [emitPage_eq, hlast]
      have hsplit := take_append_drop pageEntries (behind after (entries.rtake maxLogEntries))
      conv_rhs => rw [← hsplit, foldlM_append]
      cases ((behind after (entries.rtake maxLogEntries)).take pageEntries).foldlM emit out with
      | error status => rfl
      | ok out =>
        have hnext := ih e.sequence out (by
          rw [hrest, length_drop]
          simp only [pageEntries] at hfuel ⊢
          omega)
        rw [hrest] at hnext
        simp only [Except.map, Option.map_some, Option.getD_some, hnext, bind, Except.bind]

/-- From the start, seventeen turns are enough. -/
theorem emitPages_retained (writes : List Write) (fuel : Nat) (out : σ) :
    emitPages (logAfter writes) emit (fuel + 17) 0 out = some ((retained writes).foldlM emit out) := by
  have h := holds_logAfter writes
  have hall : behind 0 (retained writes) = retained writes := by
    refine List.filter_eq_self.2 fun e he => ?_
    obtain ⟨i, hi⟩ := mem_iff_getElem?.1 (mem_of_mem_drop he)
    simp [h.numbered i e hi]
  have hpages := emitPages_eq emit h (fuel + 17) 0 out (by
    have hlength : (behind 0 ((written writes).rtake maxLogEntries)).length ≤ maxLogEntries := by
      refine (length_filter_le _ _).trans ?_
      rw [List.rtake, length_drop]
      omega
    simp only [maxLogEntries, pageEntries] at hlength ⊢
    omega)
  rw [hpages]
  exact congrArg (fun entries => some (entries.foldlM emit out)) hall

end

theorem foldlM_dmesgEntry (entries : List LogEntry) (out : List Char) :
    entries.foldlM dmesgEntry out =
      .ok (out ++ entries.flatMap fun e => entryLine e ++ ['\n']) := by
  induction entries generalizing out with
  | nil => simp [pure, Except.pure]
  | cons e entries ih =>
    rw [foldlM_cons, flatMap_cons, ← append_assoc, ← append_assoc]
    exact ih _

/-- Lines written one after the other, until one is not taken whole. -/
def writeLines (write : WriteAnswer) : List (List Char) → List (List Char) →
    Status × List (List Char)
  | [], done => (.ok, done)
  | line :: lines, done =>
    let (status, count) := write done line
    if status ≠ .ok ∨ count ≠ line.length then
      (if status = .ok then .error else status, done)
    else writeLines write lines (done ++ [line])

theorem foldlM_flushEntry (write : WriteAnswer) (entries : List LogEntry)
    (done : List (List Char)) :
    (match entries.foldlM (flushEntry write) done with
      | .error result => result
      | .ok lines => (.ok, lines)) = writeLines write (entries.map flushLine) done := by
  induction entries generalizing done with
  | nil => rfl
  | cons e entries ih =>
    rw [foldlM_cons, map_cons, writeLines, flushEntry]
    by_cases hrefused : (write done (flushLine e)).1 ≠ .ok ∨
        (write done (flushLine e)).2 ≠ (flushLine e).length
    · simp only [if_pos hrefused]
      rfl
    · simp only [if_neg hrefused]
      exact ih _

/-- A call of `rad_log_read` finds the entries behind `after` among the last ones that were
written, in order. `cmd_dmesg` prints all of these, each once, and comes to its end;
`rad_log_flush_to_path` gives the file system their lines until one is not taken. -/
theorem paging_of_writes (writes : List Write) :
    Sorted (written writes) ∧
    (∀ capacity after, radLogRead (logAfter writes) capacity after =
      ((behind after (retained writes)).length, (behind after (retained writes)).take capacity)) ∧
    (∀ fuel, cmdDmesg (logAfter writes) (fuel + 17) =
      some (.ok, (retained writes).flatMap fun e => entryLine e ++ ['\n'])) ∧
    (∀ path opened write fuel,
      radLogFlushToPath (logAfter writes) path opened write (fuel + 17) = some
        (if path = [] then (.invalidArgument, [])
        else if opened ≠ .ok then (opened, [])
        else writeLines write ((retained writes).map flushLine) [])) := by
  have h := holds_logAfter writes
  refine ⟨h.sorted, fun capacity after => h.radLogRead capacity, fun fuel => ?_,
    fun path opened write fuel => ?_⟩
  · simp only [cmdDmesg, emitPages_retained, foldlM_dmesgEntry, List.nil_append]
  · rw [radLogFlushToPath, emitPages_retained, ← foldlM_flushEntry]
    split
    · rfl
    · split
      · rfl
      · cases (retained writes).foldlM (flushEntry write) [] <;> rfl

end RadKernel.Log
