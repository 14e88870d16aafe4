import Mathlib.Algebra.BigOperators.Ring.List
import Mathlib.Algebra.Ring.Nat
import RadKernel.Lib.Run
import RadKernel.Tty.Chunks

/-!
# Lines of a canonical terminal

A terminal in canonical mode edits what is typed into lines and gives readers the lines that are
complete. As long as every line fits into the input with its newline, readers get whole lines in
order. The line and the newline are copied separately, so a line that does not fit loses its end
and runs into the next one.
-/

namespace RadKernel.Tty

open Kernel List

variable {c : TtyContent} {line bytes : List UInt8} {j : Nat}

/-- Line editing from an open line on: the lines that are completed, with their newlines, and the
open line at the end. A line has room for `ttyLineBytes` bytes. -/
def edit (line : List UInt8) : List UInt8 → List (List UInt8) × List UInt8
  | [] => ([], line)
  | b :: bytes =>
    let ch := if b = 13 then 10 else b
    if ch = 8 ∨ ch = 0x7f then edit line.dropLast bytes
    else if ch = 10 then
      let (lines, rest) := edit [] bytes
      ((line ++ [10]) :: lines, rest)
    else if isprint ch ∨ ch = 9 then edit (bufferAppend ttyLineBytes line [ch]) bytes
    else edit line bytes

theorem edit_append (line a b : List UInt8) : edit line (a ++ b) =
    ((edit line a).1 ++ (edit (edit line a).2 b).1, (edit (edit line a).2 b).2) := by
  induction a generalizing line with
  | nil => rfl
  | cons x a ih =>
    simp only [cons_append, edit, ih]
    split_ifs <;> rfl

theorem bufferAppend_of_fits {n : Nat} {dst x : List UInt8} (h : dst.length + x.length ≤ n) :
    bufferAppend n dst x = dst ++ x := by
  rw [bufferAppend, take_of_length_le (by omega)]

theorem pressed_edit {b : UInt8} (hmode : c.mode &&& ttyModeCanonical ≠ 0)
    (hfits : c.input.length + (edit c.line [b]).1.flatten.length ≤ ttyBufferBytes) :
    (pressed c b).input = c.input ++ (edit c.line [b]).1.flatten ∧
      (pressed c b).line = (edit c.line [b]).2 := by
  have hnewline : c.input.length + (c.line ++ [10]).length ≤ ttyBufferBytes →
      bufferAppend ttyBufferBytes (bufferAppend ttyBufferBytes c.input c.line) [10] =
        c.input ++ (c.line ++ [10]) := fun h => by
    rw [bufferAppend_append, bufferAppend_of_fits h]
  simp only [edit, pressed, pushChar] at hfits ⊢
  split_ifs at hfits ⊢ <;> simp_all

/-- The record follows the editor while the completed lines fit. -/
theorem foldl_pressed_edit (hmode : c.mode &&& ttyModeCanonical ≠ 0)
    (hfits : c.input.length + (edit c.line bytes).1.flatten.length ≤ ttyBufferBytes) :
    (bytes.foldl pressed c).input = c.input ++ (edit c.line bytes).1.flatten ∧
      (bytes.foldl pressed c).line = (edit c.line bytes).2 := by
  induction bytes generalizing c with
  | nil => simp [edit]
  | cons b bytes ih =>
    have hsplit := edit_append c.line [b] bytes
    rw [singleton_append] at hsplit
    rw [hsplit] at hfits ⊢
    rw [flatten_append, length_append] at hfits
    obtain ⟨hinput, hline⟩ := pressed_edit (b := b) hmode (by omega)
    rw [← (pressed_keeps c b).2] at hmode
    have hrest := ih hmode (by rw [hinput, hline, length_append]; omega)
    rw [hinput, hline] at hrest
    rw [foldl_cons, flatten_append, ← append_assoc]
    exact hrest

/-! ## Runs -/

/-- The tables with all that was typed on a terminal and all that readers got from it. -/
structure Typed where
  tables : TtyState
  typed : List UInt8 := []
  delivered : List UInt8 := []

inductive Traffic where
  | push (bytes : List UInt8)
  | read (size : Nat)

def Typed.next (j : Nat) (w : Typed) : Traffic → Typed
  | .push bytes =>
    { w with
      tables := ttyPushInputRecord w.tables j bytes
      typed := w.typed ++ bytes }
  | .read size =>
    let (bytes, tables) := ttyReadRecord w.tables j size
    { w with
      tables := tables
      delivered := w.delivered ++ bytes }

/-- A canonical terminal that nothing was typed on yet. -/
def Typed.Start (j : Nat) (w : Typed) : Prop :=
  (w.tables.ttys j).mode &&& ttyModeCanonical ≠ 0 ∧ (w.tables.ttys j).input = [] ∧
    (w.tables.ttys j).line = [] ∧ w.typed = [] ∧ w.delivered = []

/-- The lines that a push completes fit into the input. -/
def Typed.Fits (j : Nat) (w : Typed) : Traffic → Prop
  | .push bytes => (w.tables.ttys j).input.length +
      (edit (w.tables.ttys j).line bytes).1.flatten.length ≤ ttyBufferBytes
  | .read _ => True

/-- What readers got, with what waits for them, is a concatenation of complete lines, in the
order in which they were typed. -/
def Typed.Whole (j : Nat) (w : Typed) : Prop :=
  ∃ lines : List (List UInt8), lines.Sublist (edit [] w.typed).1 ∧
    w.delivered ++ (w.tables.ttys j).input = lines.flatten

/-- All the lines that were typed came through. -/
structure Typed.Sound (j : Nat) (w : Typed) : Prop where
  canonical : (w.tables.ttys j).mode &&& ttyModeCanonical ≠ 0
  line : (w.tables.ttys j).line = (edit [] w.typed).2
  lines : w.delivered ++ (w.tables.ttys j).input = (edit [] w.typed).1.flatten

theorem setTty_content (s : TtyState) (j : Nat) (c : TtyContent) :
    ((setTty s j c).ttys j).toTtyContent = c := by
  simp [setTty]

theorem ttyPushInputRecord_content (s : TtyState) (j : Nat) (bytes : List UInt8) :
    ((ttyPushInputRecord s j bytes).ttys j).toTtyContent = (s.ttys j).toTtyContent.push bytes := by
  rw [ttyPushInputRecord_eq, setTty_content]

variable {w : Typed}

theorem Typed.Sound.push (h : w.Sound j) (bytes : List UInt8) (hfits : w.Fits j (.push bytes)) :
    (w.next j (.push bytes)).Sound j := by
  have hcontent := ttyPushInputRecord_content w.tables j bytes
  rw [push_eq] at hcontent
  obtain ⟨hinput, hline⟩ := foldl_pressed_edit h.canonical hfits
  have hedit := edit_append [] w.typed bytes
  rw [← h.line] at hedit
  refine ⟨?_, ?_, ?_⟩
  · have hmode : ((ttyPushInputRecord w.tables j bytes).ttys j).mode = (w.tables.ttys j).mode :=
      (congrArg TtyContent.mode hcontent).trans (foldl_pressed_keeps _ bytes).2
    simp only [Typed.next, hmode]
    exact h.canonical
  · simp only [Typed.next, hedit]
    exact (congrArg TtyContent.line hcontent).trans hline
  · have hinput' := (congrArg TtyContent.input hcontent).trans hinput
    simp only [Typed.next, hedit, flatten_append, ← h.lines, append_assoc] at hinput' ⊢
    rw [hinput']

theorem Typed.Sound.read (h : w.Sound j) (size : Nat) : (w.next j (.read size)).Sound j := by
  have hcontent := setTty_content w.tables j ((w.tables.ttys j).toTtyContent.read size)
  refine ⟨?_, ?_, ?_⟩
  · simp only [Typed.next, ttyReadRecord, hcontent]
    exact h.canonical
  · simp only [Typed.next, ttyReadRecord, hcontent]
    exact h.line
  · simp only [Typed.next, ttyReadRecord, hcontent, ← h.lines, append_assoc]
    exact congrArg _ (take_append_drop _ _)

theorem Typed.Sound.next (h : w.Sound j) (e : Traffic) (hfits : w.Fits j e) :
    (w.next j e).Sound j := by
  cases e with
  | push bytes => exact h.push bytes hfits
  | read size => exact h.read size

/-- While the completed lines fit, what readers get are whole lines. -/
theorem whole_of_run (h : Run (Obeys (Typed.next j) (Typed.Fits j)) (Typed.Start j) w) :
    w.Whole j := by
  have hsound : w.Sound j := by
    apply h.invariant
    · rintro v ⟨hmode, hinput, hline, htyped, hdelivered⟩
      refine ⟨hmode, ?_, ?_⟩
      · rw [hline, htyped, edit]
      · rw [hinput, htyped, hdelivered]
        rfl
    · rintro v e _ hv ⟨hfits, rfl⟩
      exact hv.next e hfits
  exact ⟨_, .refl _, hsound.lines⟩

/-- A new terminal with its echo turned off. -/
def quietTty : Typed :=
  let termios := { defaultTtyTermios with localFlags := ttyLflagIcanon }
  { tables := (radTtySetTermios (boot ["/dev/tty0".toList]) 0 termios).2 }

theorem start_quietTty : Typed.Start 0 quietTty := ⟨by decide, rfl, rfl, rfl, rfl⟩

instance Typed.Fits.decidable (j : Nat) (w : Typed) : ∀ e, Decidable (w.Fits j e)
  | .push _ => inferInstanceAs (Decidable (_ ≤ _))
  | .read _ => isTrue trivial

/-- A line is typed in two pieces with a correction, and read in two. -/
def corrected : List Traffic := [.push [97, 98, 8], .push [99, 13], .read 1, .read 9]

theorem whole_corrected : (corrected.foldl (Typed.next 0) quietTty).Whole 0 ∧
    (corrected.foldl (Typed.next 0) quietTty).delivered = [97, 99, 10] :=
  ⟨whole_of_run ((Run.start start_quietTty).along corrected (by decide)), by decide⟩

/-- What divides the length of every line divides the length of what whole lines give. -/
theorem Typed.Whole.dvd_length {m : Nat} (h : w.Whole j)
    (hlines : ∀ line ∈ (edit [] w.typed).1, m ∣ line.length) :
    m ∣ (w.delivered ++ (w.tables.ttys j).input).length := by
  obtain ⟨lines, hsub, hwhole⟩ := h
  rw [hwhole, length_flatten]
  apply dvd_sum
  intro n hn
  obtain ⟨line, hline, rfl⟩ := List.mem_map.1 hn
  exact hlines line (hsub.subset hline)

/-- Lines of three bytes or multiples leave one byte of the input free. The next line loses its
end there, and what is typed after the input was read goes on with that line. -/
def filled : List Traffic :=
  [.push (List.replicate 31 (List.replicate 32 97 ++ [10])).flatten, .push [98, 99, 10],
    .read 1024, .push [100, 101, 10], .read 1024]

theorem not_whole_filled : ¬ ∀ j w,
    Run (Obeys (Typed.next j) fun _ _ => True) (Typed.Start j) w → w.Whole j := by
  intro h
  have hwhole := h 0 _ ((Run.start start_quietTty).foldl filled)
  have hthree := hwhole.dvd_length (m := 3) (by decide +kernel)
  exact absurd hthree (by decide +kernel)

end RadKernel.Tty
