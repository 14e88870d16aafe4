import Mathlib.Data.List.Infix
import RadKernel.Tty.Model

/-!
# Input in pieces

What a push leaves in the input and the line does not depend on how the bytes are cut into calls.
The echo does: each call collects it in an array of `ttyLineBytes` bytes and drops the rest.
-/

namespace RadKernel.Tty

open Kernel List

variable {c : TtyContent} {a b bytes : List UInt8}

/-! ## Bounded buffers -/

section

variable {n m : Nat} {dst x y : List UInt8}

theorem bufferAppend_append :
    bufferAppend n (bufferAppend n dst x) y = bufferAppend n dst (x ++ y) := by
  simp only [bufferAppend, append_assoc, length_append, length_take, take_append]
  congr 2
  grind

theorem bufferAppend_take : bufferAppend n (x.take n) y = (x ++ y).take n := by
  rw [bufferAppend, take_append, length_take]
  congr 1
  grind

/-- Appending a cut piece and a cut rest is appending both cut together only if nothing is lost
in the second case that was not lost in the first. -/
theorem bufferAppend_cut_iff (hm : 0 < m) :
    bufferAppend n dst (x.take m ++ y.take m) = bufferAppend n dst ((x ++ y).take m) ↔
      x = [] ∨ y = [] ∨ x.length + y.length ≤ m ∨ n - dst.length ≤ m := by
  -- the cut whole is the beginning of the cut pieces, so only lengths count
  have hbegins : ((x ++ y).take m).take (n - dst.length) <+:
      (x.take m ++ y.take m).take (n - dst.length) := by
    have hcut : (x ++ y).take m <+: x.take m ++ y.take m := by
      rw [take_append]
      exact (prefix_append_right_inj _).2 (take_prefix_take_left (Nat.sub_le _ _))
    exact hcut.take _
  have hsame : bufferAppend n dst (x.take m ++ y.take m) = bufferAppend n dst ((x ++ y).take m) ↔
      ((x.take m ++ y.take m).take (n - dst.length)).length =
        (((x ++ y).take m).take (n - dst.length)).length := by
    rw [bufferAppend, bufferAppend, append_cancel_left_eq]
    exact ⟨congrArg List.length, fun hlen => (hbegins.eq_of_length hlen.symm).symm⟩
  rw [hsame, ← length_eq_zero_iff, ← length_eq_zero_iff]
  simp only [length_take, length_append]
  omega

end

/-! ## One byte -/

/-- The record after one byte, and the echo of the byte. -/
def pressed (c : TtyContent) (b : UInt8) : TtyContent := (pushChar (c, []) b).1

def echoText (c : TtyContent) (b : UInt8) : List UInt8 := (pushChar (c, []) b).2

/-- The echo of some bytes when nothing is dropped. -/
def echoed (c : TtyContent) : List UInt8 → List UInt8
  | [] => []
  | b :: bytes => echoText c b ++ echoed (pressed c b) bytes

theorem pushChar_eq (c : TtyContent) (echo : List UInt8) (b : UInt8) :
    pushChar (c, echo) b = (pressed c b, bufferAppend ttyLineBytes echo (echoText c b)) := by
  simp only [pressed, echoText, pushChar]
  split_ifs <;> simp [bufferAppend, ttyLineBytes]

theorem foldl_pushChar (bytes echo : List UInt8) :
    bytes.foldl pushChar (c, echo.take ttyLineBytes) =
      (bytes.foldl pressed c, (echo ++ echoed c bytes).take ttyLineBytes) := by
  induction bytes generalizing c echo with
  | nil => simp [echoed]
  | cons b bytes ih =>
    rw [foldl_cons, foldl_cons, pushChar_eq, bufferAppend_take, ih, echoed, append_assoc]

theorem pushInput_eq (c : TtyContent) (bytes : List UInt8) :
    pushInput c bytes = (bytes.foldl pressed c, (echoed c bytes).take ttyLineBytes) :=
  foldl_pushChar bytes []

theorem echoed_append (a b : List UInt8) :
    echoed c (a ++ b) = echoed c a ++ echoed (a.foldl pressed c) b := by
  induction a generalizing c with
  | nil => rfl
  | cons x a ih => simp [echoed, ih]

section
variable (c)

/-- The output neither changes nor matters. -/
theorem pressed_output (output : List UInt8) (b : UInt8) :
    pressed { c with output := output } b = { pressed c b with output := output } ∧
      echoText { c with output := output } b = echoText c b := by
  simp only [pressed, echoText, pushChar]
  split_ifs <;> simp

theorem pressed_keeps (b : UInt8) :
    (pressed c b).output = c.output ∧ (pressed c b).mode = c.mode := by
  simp only [pressed, pushChar]
  split_ifs <;> simp

theorem foldl_pressed_output (output bytes : List UInt8) :
    bytes.foldl pressed { c with output := output } =
        { bytes.foldl pressed c with output := output } ∧
      echoed { c with output := output } bytes = echoed c bytes := by
  induction bytes generalizing c with
  | nil => exact ⟨rfl, rfl⟩
  | cons b bytes ih =>
    obtain ⟨hpressed, hecho⟩ := pressed_output c output b
    rw [foldl_cons, foldl_cons, echoed, echoed, hpressed, hecho]
    exact ⟨(ih _).1, congrArg _ (ih _).2⟩

theorem foldl_pressed_keeps (bytes : List UInt8) :
    (bytes.foldl pressed c).output = c.output ∧ (bytes.foldl pressed c).mode = c.mode := by
  induction bytes generalizing c with
  | nil => exact ⟨rfl, rfl⟩
  | cons b bytes ih =>
    obtain ⟨houtput, hmode⟩ := ih (pressed c b)
    exact ⟨houtput.trans (pressed_keeps c b).1, hmode.trans (pressed_keeps c b).2⟩

/-! ## Two calls and one -/

theorem push_eq (bytes : List UInt8) : c.push bytes =
    { bytes.foldl pressed c with
      output := bufferAppend ttyBufferBytes c.output ((echoed c bytes).take ttyLineBytes) } := by
  rw [TtyContent.push, pushInput_eq, TtyContent.append, (foldl_pressed_keeps c bytes).1]

/-- The second call finds the line as the first one left it. -/
theorem echoed_push (a b : List UInt8) : echoed (c.push a) b = echoed (a.foldl pressed c) b := by
  rw [push_eq]
  exact (foldl_pressed_output _ _ b).2

theorem push_push (a b : List UInt8) : (c.push a).push b =
    { (a ++ b).foldl pressed c with
      output := bufferAppend ttyBufferBytes c.output ((echoed c a).take ttyLineBytes ++
        (echoed (a.foldl pressed c) b).take ttyLineBytes) } := by
  rw [push_eq (c.push a), echoed_push, push_eq c a, (foldl_pressed_output _ _ b).1, foldl_append]
  rw [bufferAppend_append]

end

/-- How many bytes some input is echoed as, when the line holds `held` bytes. -/
def echoLength (mode : UInt32) : Nat → List UInt8 → Nat
  | _, [] => 0
  | held, b :: bytes =>
    let ch := if b = 13 then 10 else b
    if mode &&& ttyModeEcho = 0 then 0
    else if mode &&& ttyModeCanonical = 0 then 1 + echoLength mode held bytes
    else if ch = 8 ∨ ch = 0x7f then
      if held = 0 then echoLength mode 0 bytes else 3 + echoLength mode (held - 1) bytes
    else if ch = 10 then 1 + echoLength mode 0 bytes
    else if isprint ch ∨ ch = 9 then
      1 + echoLength mode (if held < ttyLineBytes then held + 1 else held) bytes
    else echoLength mode held bytes

theorem echoLength_quiet {mode : UInt32} (h : mode &&& ttyModeEcho = 0) (held : Nat)
    (bytes : List UInt8) : echoLength mode held bytes = 0 := by
  cases bytes <;> simp [echoLength, h]

theorem length_echoed (c : TtyContent) (bytes : List UInt8) :
    (echoed c bytes).length = echoLength c.mode c.line.length bytes := by
  induction bytes generalizing c with
  | nil => rfl
  | cons b bytes ih =>
    rw [echoed, length_append, ih, (pressed_keeps c b).2]
    by_cases hquiet : c.mode &&& ttyModeEcho = 0
    · simp only [echoLength_quiet hquiet, echoText, pushChar, hquiet]
      grind
    · rw [echoLength, if_neg hquiet]
      simp only [pressed, echoText, pushChar, bufferAppend]
      split_ifs <;> grind [ttyLineBytes]

/-! ## The tables -/

variable {s : TtyState} {j : Nat}

section
variable (s)

theorem attachedPty_appendMaster (ptyId : Nat) (data : List UInt8) (id : Nat) :
    attachedPty (appendMaster s ptyId data) id = attachedPty s id := by
  unfold appendMaster
  split
  · rfl
  · next i _ =>
    have hsame : ∀ k, (((Function.update s.ptys i { s.ptys i with
        master := bufferAppend ttyBufferBytes (s.ptys i).master data }) k).used ∧
        ((Function.update s.ptys i { s.ptys i with
          master := bufferAppend ttyBufferBytes (s.ptys i).master data }) k).id = id) ↔
        ((s.ptys k).used ∧ (s.ptys k).id = id) := by
      intro k
      by_cases hk : k = i
      · subst hk
        simp
      · simp [hk]
    simp [attachedPty, hsame]

theorem appendMaster_append (ptyId : Nat) (x y : List UInt8) :
    appendMaster (appendMaster s ptyId x) ptyId y = appendMaster s ptyId (x ++ y) := by
  rw [appendMaster, attachedPty_appendMaster]
  cases hi : attachedPty s ptyId with
  | none => simp [appendMaster, hi]
  | some i => simp [appendMaster, hi, bufferAppend_append]

theorem appendMaster_setTty (j ptyId : Nat) (c : TtyContent) (data : List UInt8) :
    appendMaster (setTty s j c) ptyId data = setTty (appendMaster s ptyId data) j c := by
  have hattached : attachedPty (setTty s j c) ptyId = attachedPty s ptyId := rfl
  rw [appendMaster, hattached, appendMaster]
  cases attachedPty s ptyId <;> rfl

theorem appendMaster_eq_iff (ptyId : Nat) (x y : List UInt8) :
    appendMaster s ptyId x = appendMaster s ptyId y ↔ ∀ i, attachedPty s ptyId = some i →
      bufferAppend ttyBufferBytes (s.ptys i).master x =
        bufferAppend ttyBufferBytes (s.ptys i).master y := by
  cases hi : attachedPty s ptyId with
  | none => simp [appendMaster, hi]
  | some i =>
    simp only [appendMaster, hi, Option.some.injEq, forall_eq', TtyState.mk.injEq, true_and]
    rw [(Function.update_injective s.ptys i).eq_iff, PtyRecord.mk.injEq]
    simp

end

theorem setTty_eq_iff {t u : TtyState} {d : TtyContent} (h : t.ttys = u.ttys) :
    setTty t j c = setTty u j d ↔ c = d ∧ t = u := by
  obtain ⟨ttys, ptys⟩ := t
  obtain ⟨ttys', ptys'⟩ := u
  obtain rfl : ttys = ttys' := h
  simp only [setTty, TtyState.mk.injEq, true_and]
  rw [(Function.update_injective ttys j).eq_iff, TtyRecord.mk.injEq]
  simp

theorem ttyPushInputRecord_eq (s : TtyState) (j : Nat) (bytes : List UInt8) :
    ttyPushInputRecord s j bytes =
      setTty (appendMaster s (s.ttys j).ptyId
        ((echoed (s.ttys j).toTtyContent bytes).take ttyLineBytes)) j
        ((s.ttys j).toTtyContent.push bytes) := by
  rw [ttyPushInputRecord, pushInput_eq, appendMaster_setTty]

theorem push_twice (s : TtyState) (j : Nat) (a b : List UInt8) :
    ttyPushInputRecord (ttyPushInputRecord s j a) j b =
      setTty (appendMaster s (s.ttys j).ptyId
        ((echoed (s.ttys j).toTtyContent a).take ttyLineBytes ++
          (echoed (a.foldl pressed (s.ttys j).toTtyContent) b).take ttyLineBytes)) j
        (((s.ttys j).toTtyContent.push a).push b) := by
  have hrecord : (ttyPushInputRecord s j a).ttys j =
      { s.ttys j with toTtyContent := (s.ttys j).toTtyContent.push a } := by
    rw [ttyPushInputRecord_eq, setTty, appendMaster_ttys]
    exact Function.update_self ..
  rw [ttyPushInputRecord_eq, hrecord]
  rw [echoed_push, ttyPushInputRecord_eq, appendMaster_setTty, appendMaster_append]
  simp [setTty]

/-- The echo does not depend on the cut: one of the pieces has none, all of it fits one call, or
no more fits the buffers it goes to. -/
def EchoFits (s : TtyState) (j : Nat) (a b : List UInt8) : Prop :=
  let c := (s.ttys j).toTtyContent
  let first := echoLength c.mode c.line.length a
  let both := echoLength c.mode c.line.length (a ++ b)
  first = 0 ∨ both = first ∨ both ≤ ttyLineBytes ∨
    (ttyBufferBytes - c.output.length ≤ ttyLineBytes ∧
      ∀ i, attachedPty s (s.ttys j).ptyId = some i →
        ttyBufferBytes - (s.ptys i).master.length ≤ ttyLineBytes)

theorem content_push_iff (c : TtyContent) (a b : List UInt8) :
    (c.push a).push b = c.push (a ++ b) ↔
      bufferAppend ttyBufferBytes c.output ((echoed c a).take ttyLineBytes ++
          (echoed (a.foldl pressed c) b).take ttyLineBytes) =
        bufferAppend ttyBufferBytes c.output
          ((echoed c a ++ echoed (a.foldl pressed c) b).take ttyLineBytes) := by
  rw [push_push, push_eq c (a ++ b), echoed_append, TtyContent.mk.injEq]
  simp

theorem push_twice_iff (s : TtyState) (j : Nat) (a b : List UInt8) :
    ttyPushInputRecord (ttyPushInputRecord s j a) j b = ttyPushInputRecord s j (a ++ b) ↔
      EchoFits s j a b := by
  have hsum : echoLength (s.ttys j).mode (s.ttys j).line.length (a ++ b) =
      (echoed (s.ttys j).toTtyContent a).length +
        (echoed (a.foldl pressed (s.ttys j).toTtyContent) b).length := by
    rw [← length_echoed, echoed_append, length_append]
  rw [push_twice, ttyPushInputRecord_eq s j (a ++ b),
    setTty_eq_iff (by rw [appendMaster_ttys, appendMaster_ttys]), content_push_iff, echoed_append,
    appendMaster_eq_iff]
  simp only [bufferAppend_cut_iff (show 0 < ttyLineBytes by decide), EchoFits, hsum,
    ← length_echoed, ← length_eq_zero_iff, Nat.add_eq_left]
  by_cases hlost : (echoed (s.ttys j).toTtyContent a).length = 0 ∨
      (echoed (a.foldl pressed (s.ttys j).toTtyContent) b).length = 0 ∨
      (echoed (s.ttys j).toTtyContent a).length +
        (echoed (a.foldl pressed (s.ttys j).toTtyContent) b).length ≤ ttyLineBytes
  · grind
  · grind

/-- Pushing two pieces one after the other does what pushing both at once does, exactly when the
echo does not depend on the cut. -/
theorem push_append_iff (s : TtyState) (j : Nat) (a b : List UInt8) :
    ttyPushInputRecord (ttyPushInputRecord s j a) j b = ttyPushInputRecord s j (a ++ b) ↔
      EchoFits s j a b := push_twice_iff s j a b

/-- Two halves of 200 letters on a terminal that was just made: one call echoes 256 of them. -/
theorem not_push_append_letters : ¬ ∀ s j a b,
    ttyPushInputRecord (ttyPushInputRecord s j a) j b = ttyPushInputRecord s j (a ++ b) := by
  intro h
  have hfits := (push_twice_iff {} 0 (List.replicate 200 65) (List.replicate 200 65)).1 (h _ _ _ _)
  rcases hfits with hfirst | hsecond | hfit | ⟨hfull, -⟩
  · exact absurd hfirst (by decide +kernel)
  · exact absurd hsecond (by decide +kernel)
  · exact absurd hfit (by decide +kernel)
  · exact absurd hfull (by decide +kernel)

end RadKernel.Tty
