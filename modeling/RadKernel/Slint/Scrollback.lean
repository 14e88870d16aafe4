import Mathlib.Data.List.Infix

/-!
# The text of the terminal window

`append_terminal_text` of `SlintShell.cpp`, with the line discipline under it. A buffer with a
length is the list of its bytes. What stands behind the end of a buffer is written before it is
read.
-/

namespace RadKernel.Slint

open List

def maxShellText : Nat := 8192

/-- `sizeof(g_term_line)`. -/
def lineSize : Nat := 1024

inductive Escape where
  | normal
  | sawEsc
  | csi
  deriving DecidableEq, Repr

structure Terminal where
  committed : List UInt8 := []
  line : List UInt8 := []
  cursor : Nat := 0
  esc : Escape := .normal
  csi : List UInt8 := []
  terminalText : List UInt8 := []

def newline : UInt8 := '\n'.toUInt8

def termLineIsMarker (t : Terminal) : Bool :=
  5 ≤ t.line.length && t.line.take 4 == "RAD_".toList.map Char.toUInt8 &&
    t.line.all fun ch => ('A'.toUInt8 ≤ ch && ch ≤ 'Z'.toUInt8) ||
      ('0'.toUInt8 ≤ ch && ch ≤ '9'.toUInt8) || ch == '_'.toUInt8

/-- The text without its first line. -/
def dropLine (committed : List UInt8) : List UInt8 := (committed.dropWhile (· != newline)).drop 1

/-- The first lines go until a line of `need` bytes fits. -/
def makeRoom (need : Nat) (committed : List UInt8) : List UInt8 :=
  if maxShellText ≤ committed.length + need ∧ 0 < committed.length then
    makeRoom need (dropLine committed)
  else committed
termination_by committed.length
decreasing_by
  have hle := (committed.dropWhile_sublist (· != newline)).length_le
  rw [dropLine, List.length_drop]
  omega

def termCommitLine (t : Terminal) : Terminal :=
  let need := t.line.length + 1
  let committed :=
    if !termLineIsMarker t && decide (need < maxShellText) then
      makeRoom need t.committed ++ (t.line ++ [newline])
    else t.committed
  { t with committed, line := [], cursor := 0 }

def termPutVisible (t : Terminal) (c : UInt8) : Terminal :=
  if t.cursor < lineSize - 1 then
    { t with
      line := t.line.take t.cursor ++ c :: t.line.drop (t.cursor + 1)
      cursor := t.cursor + 1 }
  else t

/-- The loop of a tab. -/
def putTab (t : Terminal) : Terminal :=
  let next := termPutVisible t ' '.toUInt8
  if next.cursor % 8 ≠ 0 ∧ next.cursor < lineSize - 1 then putTab next else next
termination_by lineSize - t.cursor
decreasing_by
  rename_i h
  simp only [next, termPutVisible] at h ⊢
  split_ifs at h ⊢
  · dsimp only
    omega
  · exact absurd h.2 ‹_›

def termFeedByte (t : Terminal) (c : UInt8) : Terminal :=
  match t.esc with
  | .sawEsc => if c = '['.toUInt8 then { t with esc := .csi, csi := [] } else { t with esc := .normal }
  | .csi =>
    if ('0'.toUInt8 ≤ c ∧ c ≤ '9'.toUInt8) ∨ c = ';'.toUInt8 then
      if t.csi.length < 15 then { t with csi := t.csi ++ [c] } else t
    else
      let t := { t with esc := .normal }
      if c = 'K'.toUInt8 then
        if t.csi.head? = some '2'.toUInt8 then { t with line := [], cursor := 0 }
        else { t with line := t.line.take t.cursor }
      else t
  | .normal =>
    if c = 0x1b then { t with esc := .sawEsc }
    else if c = newline then termCommitLine t
    else if c = '\r'.toUInt8 then { t with cursor := 0 }
    else if c = 0x08 then { t with cursor := t.cursor - 1 }
    else if c = '\t'.toUInt8 then putTab t
    else if c < 0x20 then t
    else termPutVisible t c

def termRebuildVisible (t : Terminal) : Terminal :=
  let text := t.committed.take (maxShellText - 1)
  { t with terminalText := text ++ t.line.take (maxShellText - 1 - text.length) }

def appendTerminalText (t : Terminal) (text : List UInt8) : Terminal :=
  if text = [] then t else termRebuildVisible (text.foldl termFeedByte t)

/-- The line that a byte completes, if it is none of a marker. -/
def completes (t : Terminal) (c : UInt8) : List (List UInt8) :=
  if t.esc = .normal ∧ c = newline ∧ termLineIsMarker t = false then [t.line ++ [newline]]
  else []

/-- The lines that a text completes. -/
def completed : Terminal → List UInt8 → List (List UInt8)
  | _, [] => []
  | t, c :: text => completes t c ++ completed (termFeedByte t c) text

/-- The terminal and its completed lines after the texts, the last of which is the first of the
list. -/
def appended : List (List UInt8) → Terminal × List (List UInt8)
  | [] => ({}, [])
  | text :: before =>
    let (t, lines) := appended before
    (appendTerminalText t text, lines ++ completed t text)

/-- The longest suffix of the lines that is shorter than `n` bytes. -/
def lastLines (n : Nat) : List (List UInt8) → List (List UInt8)
  | [] => []
  | line :: lines =>
    if (line :: lines).flatten.length < n then line :: lines else lastLines n lines

/-- A line with its newline, which is the only one. -/
def Whole (line : List UInt8) : Prop := ∃ s, newline ∉ s ∧ line = s ++ [newline]

structure Tidy (t : Terminal) : Prop where
  cursor : t.cursor ≤ t.line.length
  fits : t.line.length < lineSize
  plain : newline ∉ t.line

/-- What holds after each byte. -/
structure Scrolled (t : Terminal) (lines : List (List UInt8)) : Prop extends Tidy t where
  keeps : t.committed = (lastLines maxShellText lines).flatten
  whole : ∀ line ∈ lines, Whole line

variable {t : Terminal} {c : UInt8} {lines : List (List UInt8)} {line : List UInt8}

theorem Tidy.termPutVisible (h : Tidy t) (hc : newline ≠ c) : Tidy (termPutVisible t c) := by
  unfold Slint.termPutVisible
  split_ifs with hroom
  · have hcursor := h.cursor
    have hfits := h.fits
    refine ⟨?_, ?_, fun hmem => ?_⟩
    · simp only [length_append, length_take, length_cons, length_drop]
      omega
    · simp only [length_append, length_take, length_cons, length_drop]
      omega
    · rcases List.mem_append.1 hmem with hmem | hmem
      · exact h.plain (mem_of_mem_take hmem)
      · exact h.plain (mem_of_mem_drop (mem_of_ne_of_mem hc hmem))
  · exact h

theorem committed_termPutVisible : (termPutVisible t c).committed = t.committed := by
  unfold termPutVisible
  split_ifs <;> rfl

theorem Tidy.putTab (h : Tidy t) : Tidy (putTab t) ∧ (putTab t).committed = t.committed := by
  induction t using Slint.putTab.induct with
  | case1 t next hmore ih =>
    rw [Slint.putTab, if_pos hmore]
    obtain ⟨htidy, hsame⟩ := ih (h.termPutVisible (by decide))
    exact ⟨htidy, hsame.trans committed_termPutVisible⟩
  | case2 t next hend =>
    rw [Slint.putTab, if_neg hend]
    exact ⟨h.termPutVisible (by decide), committed_termPutVisible⟩

theorem dropLine_whole (h : Whole line) (rest : List UInt8) : dropLine (line ++ rest) = rest := by
  obtain ⟨s, hs, rfl⟩ := h
  have hskip : ∀ c ∈ s, (c != newline) = true := fun c hc =>
    bne_iff_ne.2 (ne_of_mem_of_not_mem hc hs)
  rw [dropLine, append_assoc, dropWhile_append_of_pos hskip]
  simp

theorem lastLines_spec {n : Nat} (hn : 0 < n) (lines : List (List UInt8)) :
    lastLines n lines <:+ lines ∧ (lastLines n lines).flatten.length < n := by
  induction lines with
  | nil => exact ⟨suffix_rfl, hn⟩
  | cons line lines ih =>
    rw [lastLines]
    split_ifs with hfits
    · exact ⟨suffix_rfl, hfits⟩
    · exact ⟨ih.1.trans (suffix_cons ..), ih.2⟩

theorem lastLines_of_lt {n : Nat} (h : lines.flatten.length < n) : lastLines n lines = lines := by
  cases lines with
  | nil => rfl
  | cons line lines => exact if_pos h

theorem makeRoom_flatten {need : Nat} (hwhole : ∀ line ∈ lines, Whole line) :
    makeRoom need lines.flatten = (lastLines (maxShellText - need) lines).flatten := by
  induction lines with
  | nil => rw [makeRoom, if_neg (by simp)]; rfl
  | cons line rest ih =>
    rw [makeRoom, lastLines]
    by_cases hroom : (line :: rest).flatten.length < maxShellText - need
    · rw [if_pos hroom, if_neg (by omega)]
    · obtain ⟨s, -, hs⟩ := hwhole line mem_cons_self
      have hpos : 0 < (line :: rest).flatten.length := by simp +arith only [hs, flatten_cons, length_append, length_cons]
      rw [if_neg hroom, if_pos ⟨by omega, hpos⟩, flatten_cons,
        dropLine_whole (hwhole line mem_cons_self), ih fun l hl => hwhole l (.tail _ hl)]

/-- A line that is added leaves those before it that it has room for. -/
theorem lastLines_concat {n : Nat} (h : line.length < n) : lastLines n (lines ++ [line]) =
    lastLines (n - line.length) (lastLines n lines) ++ [line] := by
  induction lines with
  | nil => simp [lastLines, h]
  | cons first rest ih =>
    have hsum : (first :: (rest ++ [line])).flatten.length =
        (first :: rest).flatten.length + line.length := by simp [Nat.add_assoc]
    rw [cons_append, lastLines, hsum]
    by_cases hall : (first :: rest).flatten.length + line.length < n
    · rw [if_pos hall, @lastLines_of_lt (first :: rest) _ (by omega),
        @lastLines_of_lt (first :: rest) _ (by omega)]
      rfl
    · rw [if_neg hall, ih]
      by_cases hfits : (first :: rest).flatten.length < n
      · have hle : rest.flatten.length ≤ (first :: rest).flatten.length := by simp
        rw [lastLines_of_lt hfits, lastLines_of_lt (hle.trans_lt hfits), lastLines,
          if_neg (by omega)]
      · rw [lastLines, if_neg hfits]

section
variable (h : Scrolled t lines)
include h

theorem Scrolled.termCommitLine (hesc : t.esc = .normal) :
    Scrolled (termCommitLine t) (lines ++ completes t newline) := by
  have hsize := h.fits
  have hlen : (t.line ++ [newline]).length = t.line.length + 1 := length_append ..
  have hneed : t.line.length + 1 < maxShellText := Nat.lt_of_le_of_lt hsize (by decide)
  rw [Slint.termCommitLine, completes]
  refine ⟨⟨Nat.le_refl _, Nat.zero_lt_succ _, not_mem_nil⟩, ?_, ?_⟩
  · cases hmarker : termLineIsMarker t with
    | true => simpa using h.keeps
    | false =>
      have hkept : ∀ line ∈ lastLines maxShellText lines, Whole line := fun line hline =>
        h.whole line ((lastLines_spec (by decide) lines).1.subset hline)
      simp [hesc, hneed, h.keeps, makeRoom_flatten hkept, lastLines_concat (hlen.trans_lt hneed)]
  · intro line hline
    rcases List.mem_append.1 hline with hline | hline
    · exact h.whole line hline
    · split_ifs at hline
      · exact ⟨t.line, h.plain, List.mem_singleton.1 hline⟩
      · cases hline

/-- What a byte does. -/
theorem Scrolled.termFeedByte (c : UInt8) :
    Scrolled (termFeedByte t c) (lines ++ completes t c) := by
  by_cases hcommit : t.esc = .normal ∧ c = newline
  · obtain ⟨hesc, rfl⟩ := hcommit
    rw [Slint.termFeedByte, hesc]
    exact h.termCommitLine hesc
  have hnone : completes t c = [] := if_neg fun hall => hcommit ⟨hall.1, hall.2.1⟩
  suffices hall : Tidy (Slint.termFeedByte t c) ∧
      (Slint.termFeedByte t c).committed = t.committed by
    rw [hnone, append_nil]
    exact ⟨hall.1, hall.2 ▸ h.keeps, h.whole⟩
  have hcursor := h.cursor
  have hfits := h.fits
  unfold Slint.termFeedByte
  cases hesc : t.esc with
  | sawEsc => dsimp only; split_ifs <;> exact ⟨⟨h.cursor, h.fits, h.plain⟩, rfl⟩
  | csi =>
    dsimp only
    split_ifs
    · exact ⟨⟨h.cursor, h.fits, h.plain⟩, rfl⟩
    · exact ⟨h.toTidy, rfl⟩
    · exact ⟨⟨Nat.le_refl _, Nat.zero_lt_succ _, not_mem_nil⟩, rfl⟩
    · refine ⟨⟨?_, ?_, fun hmem => h.plain (mem_of_mem_take hmem)⟩, rfl⟩
      · exact (length_take_of_le hcursor).ge
      · exact (length_take_le' ..).trans_lt hfits
    · exact ⟨⟨h.cursor, h.fits, h.plain⟩, rfl⟩
  | normal =>
    have hc : newline ≠ c := fun heq => hcommit ⟨hesc, heq.symm⟩
    dsimp only
    rw [if_neg hc.symm]
    split_ifs
    · exact ⟨⟨h.cursor, h.fits, h.plain⟩, rfl⟩
    · exact ⟨⟨Nat.zero_le _, h.fits, h.plain⟩, rfl⟩
    · exact ⟨⟨by dsimp only; omega, h.fits, h.plain⟩, rfl⟩
    · exact h.toTidy.putTab
    · exact ⟨h.toTidy, rfl⟩
    · exact ⟨h.toTidy.termPutVisible hc, committed_termPutVisible⟩

theorem Scrolled.feed (text : List UInt8) :
    Scrolled (text.foldl Slint.termFeedByte t) (lines ++ completed t text) := by
  induction text generalizing t lines with
  | nil => rwa [completed, append_nil]
  | cons c text ih =>
    rw [completed, ← append_assoc]
    exact ih (h.termFeedByte c)

end

/-- After any texts the terminal has the longest suffix of the completed lines, and shows it with as
much of the current line as there is room for. -/
theorem shows_of_texts (texts : List (List UInt8)) :
    let (t, lines) := appended texts
    Scrolled t lines ∧ t.terminalText =
      t.committed ++ t.line.take (maxShellText - 1 - t.committed.length) := by
  induction texts with
  | nil => exact ⟨⟨⟨Nat.le_refl _, by decide, by simp⟩, rfl, by simp⟩, rfl⟩
  | cons text before ih =>
    obtain ⟨h, htext⟩ := ih
    rw [appended]
    dsimp only [appendTerminalText]
    split_ifs with hempty
    · subst hempty
      exact ⟨by simpa [completed] using h, htext⟩
    · have hfeed := h.feed text
      have hlt := hfeed.keeps ▸ (lastLines_spec (n := maxShellText) (by decide) _).2
      have htake := take_of_length_le (Nat.le_sub_one_of_lt hlt)
      refine ⟨⟨⟨hfeed.cursor, hfeed.fits, hfeed.plain⟩, hfeed.keeps, hfeed.whole⟩, ?_⟩
      rw [termRebuildVisible, htake]

theorem feed_newlines {n : Nat} (h : n < maxShellText) :
    (List.replicate n newline).foldl termFeedByte {} = { committed := List.replicate n newline } := by
  induction n with
  | zero => rfl
  | succ n ih =>
    have hroom : makeRoom 1 (List.replicate n newline) = List.replicate n newline := by
      rw [makeRoom, if_neg (by rw [length_replicate]; omega)]
    rw [replicate_succ', foldl_append, ih (by omega), foldl_cons, termFeedByte]
    dsimp only
    rw [if_neg (by decide), if_pos rfl]
    change ({ committed := makeRoom 1 (List.replicate n newline) ++ [newline] } : Terminal) = _
    rw [hroom]

/-- Lines that fill the buffer leave no room for the current one. -/
theorem not_shows_whole_line : ¬∀ texts, (appended texts).1.terminalText =
    (appended texts).1.committed ++ (appended texts).1.line := by
  intro h
  obtain ⟨n, hn⟩ : ∃ n, n + 1 = maxShellText := ⟨8191, rfl⟩
  have hlast : termFeedByte { committed := List.replicate n newline } 'a'.toUInt8 =
    { committed := List.replicate n newline, line := ['a'.toUInt8], cursor := 1 } := rfl
  have htext := h [List.replicate n newline ++ ['a'.toUInt8]]
  simp only [appended, appendTerminalText, append_eq_nil_iff, cons_ne_nil, and_false,
    if_false, foldl_append, feed_newlines (Nat.lt_of_succ_le hn.le), foldl_cons,
    foldl_nil, hlast, termRebuildVisible] at htext
  simpa [← hn] using congrArg List.length htext

end RadKernel.Slint
