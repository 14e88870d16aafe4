import RadKernel.Lib.Flags
import RadKernel.Lib.Run
import RadKernel.Tty.Model

/-!
# Settings of a terminal

The window, the mode and the flags of a terminal can be set through its device and directly. The
mode and the flags say the same things twice and stay in step on every path. The window is checked
by the direct call before it is stored, by the device only afterwards.
-/

namespace RadKernel.Tty

open Kernel Flags

structure WindowSize where
  rows : UInt16
  columns : UInt16
  xPixels : UInt16
  yPixels : UInt16
  deriving DecidableEq, Repr

/-- The terminals with their windows. -/
structure TtyDevices where
  tables : TtyState := {}
  windows : Nat → WindowSize := fun _ => ⟨0, 0, 0, 0⟩

/-- The window that `ensure_tty` gives a record. -/
def defaultTtyWindow : WindowSize := ⟨30, 120, 960, 480⟩

def ttyFlushInput : UInt32 := 1
def ttyFlushOutput : UInt32 := 2

def ttyTermiosFromMode (termios : Termios) (mode : UInt32) : Termios :=
  { termios with
    localFlags :=
      put (put termios.localFlags ttyLflagIcanon (mode &&& ttyModeCanonical ≠ 0)) ttyLflagEcho
        (mode &&& ttyModeEcho ≠ 0)
    inputFlags := put termios.inputFlags ttyIflagIcrnl (mode &&& ttyModeCrlf ≠ 0) }

/-- The assignments of `rad_tty_set_mode`. -/
def TtyContent.setMode (c : TtyContent) (mode : UInt32) : TtyContent :=
  { c with mode := mode, termios := ttyTermiosFromMode c.termios mode, line := [] }

def setContent (s : TtyDevices) (j : Nat) (c : TtyContent) : TtyDevices :=
  { s with tables := setTty s.tables j c }

def setWindow (s : TtyDevices) (j : Nat) (size : WindowSize) : TtyDevices :=
  { s with windows := Function.update s.windows j size }

def ttyFlushRecord (s : TtyState) (j : Nat) (queues : UInt32) : TtyState :=
  let queues := if queues = 0 then ttyFlushInput ||| ttyFlushOutput else queues
  let s :=
    if queues &&& ttyFlushInput ≠ 0 then
      setTty s j { (s.ttys j).toTtyContent with input := [], line := [] }
    else s
  if queues &&& ttyFlushOutput ≠ 0 then
    let s := setTty s j { (s.ttys j).toTtyContent with output := [] }
    match attachedPty s (s.ttys j).ptyId with
    | none => s
    | some i => setPty s i { s.ptys i with master := [] }
  else s

/-! ## Through the device -/

/-- A request with its argument, which may be missing. -/
inductive Request where
  | getWinsize (argument : Bool)
  | setWinsize (argument : Option WindowSize)
  | getMode (argument : Bool)
  | setMode (argument : Option UInt32)
  | getTermios (argument : Bool)
  | setTermios (argument : Option Termios)
  | flush (argument : Option UInt32)
  | other
  deriving DecidableEq

/-- What a request stores in its argument. -/
inductive Answer where
  | nothing
  | window (size : WindowSize)
  | mode (mode : UInt32)
  | termios (termios : Termios)
  deriving DecidableEq

/-- `tty_device_ioctl` on the record `j`. -/
def ttyDeviceIoctl (s : TtyDevices) (j : Nat) : Request → (Status × Answer) × TtyDevices
  | .getWinsize true => ((.ok, .window (s.windows j)), s)
  | .setWinsize (some size) =>
    ((if size.rows ≠ 0 ∧ size.columns ≠ 0 then .ok else .invalidArgument, .nothing),
      setWindow s j size)
  | .getMode true => ((.ok, .mode (s.tables.ttys j).mode), s)
  | .setMode (some mode) =>
    ((.ok, .nothing), setContent s j ((s.tables.ttys j).toTtyContent.setMode mode))
  | .getTermios true => ((.ok, .termios (s.tables.ttys j).termios), s)
  | .setTermios (some termios) =>
    ((.ok, .nothing), setContent s j ((s.tables.ttys j).toTtyContent.configure termios))
  | .flush (some queues) => ((.ok, .nothing), { s with tables := ttyFlushRecord s.tables j queues })
  | .other => ((.notSupported, .nothing), s)
  | .getWinsize false | .setWinsize none | .getMode false | .setMode none | .getTermios false
  | .setTermios none | .flush none => ((.invalidArgument, .nothing), s)

/-! ## Directly -/

def radTtySetWindowSize (s : TtyDevices) (j : Nat) (size : Option WindowSize) :
    Status × TtyDevices :=
  match openTty s.tables j, size with
  | some j, some size =>
    if size.rows = 0 ∨ size.columns = 0 then (.invalidArgument, s) else (.ok, setWindow s j size)
  | _, _ => (.invalidArgument, s)

def radTtySetMode (s : TtyDevices) (j : Nat) (mode : UInt32) : Status × TtyDevices :=
  match openTty s.tables j with
  | none => (.invalidArgument, s)
  | some j => (.ok, setContent s j ((s.tables.ttys j).toTtyContent.setMode mode))

def radTtyFlush (s : TtyDevices) (j : Nat) (queues : UInt32) : Status × TtyDevices :=
  match openTty s.tables j with
  | none => (.invalidArgument, s)
  | some j => (.ok, { s with tables := ttyFlushRecord s.tables j queues })

inductive SettingCall where
  | ioctl (tty : Nat) (request : Request)
  | setWindowSize (tty : Nat) (size : Option WindowSize)
  | setMode (tty : Nat) (mode : UInt32)
  | setTermios (tty : Nat) (termios : Option Termios)
  | flush (tty : Nat) (queues : UInt32)
  deriving DecidableEq

namespace SettingCall

def perform (s : TtyDevices) : SettingCall → Status × TtyDevices
  | ioctl tty request =>
    let (result, s) := ttyDeviceIoctl s tty request
    (result.1, s)
  | setWindowSize tty size => radTtySetWindowSize s tty size
  | setMode tty mode => radTtySetMode s tty mode
  | setTermios _ none => (.invalidArgument, s)
  | setTermios tty (some termios) =>
    let (status, tables) := radTtySetTermios s.tables tty termios
    (status, { s with tables := tables })
  | flush tty queues => radTtyFlush s tty queues

/-- The terminal that a call is about. -/
def tty : SettingCall → Nat
  | ioctl tty _ | setWindowSize tty _ | setMode tty _ | setTermios tty _ | flush tty _ => tty

/-- The call does not set an empty window through the device. -/
def Proper : SettingCall → Prop
  | ioctl _ (.setWinsize (some size)) => size.rows ≠ 0 ∧ size.columns ≠ 0
  | _ => True

end SettingCall

/-! ## Agreement -/

/-- The mode bits that the flags say, too. -/
def sharedModes : UInt32 := ttyModeCanonical ||| ttyModeEcho ||| ttyModeCrlf

def Agrees (c : TtyContent) : Prop := c.mode &&& sharedModes = ttyModeFromTermios c.termios

def WindowSize.Visible (size : WindowSize) : Prop := size.rows ≠ 0 ∧ size.columns ≠ 0

/-- The window is not empty, and the mode agrees with the flags. -/
structure Settled (s : TtyDevices) (j : Nat) : Prop where
  visible : (s.windows j).Visible
  agrees : Agrees (s.tables.ttys j).toTtyContent

/-- Every terminal in use is settled. -/
def AllSettled (s : TtyDevices) : Prop := ∀ j, (s.tables.ttys j).used = true → Settled s j

variable {s : TtyDevices} {c : TtyContent} {j : Nat} {size : WindowSize}

theorem ttyModeFromTermios_shared (termios : Termios) :
    ttyModeFromTermios termios &&& sharedModes = ttyModeFromTermios termios := by
  unfold ttyModeFromTermios
  split_ifs <;> decide

theorem and_sharedModes (mode : UInt32) : mode &&& sharedModes =
    (if mode &&& ttyModeCanonical ≠ 0 then ttyModeCanonical else 0) |||
      (if mode &&& ttyModeEcho ≠ 0 then ttyModeEcho else 0) |||
      (if mode &&& ttyModeCrlf ≠ 0 then ttyModeCrlf else 0) := by
  rw [sharedModes, and_or, and_or]
  exact congrArg₂ _ (congrArg₂ _ (and_twoPow mode 0) (and_twoPow mode 1)) (and_twoPow mode 2)

/-- The flags repeat the mode that they were set from. -/
theorem ttyModeFromTermios_fromMode (termios : Termios) (mode : UInt32) :
    ttyModeFromTermios (ttyTermiosFromMode termios mode) = mode &&& sharedModes := by
  have hcanonical : (ttyTermiosFromMode termios mode).localFlags &&& ttyLflagIcanon =
      if mode &&& ttyModeCanonical ≠ 0 then ttyLflagIcanon else 0 :=
    (put_and_of_disjoint (by decide)).trans put_and_self
  have hecho : (ttyTermiosFromMode termios mode).localFlags &&& ttyLflagEcho =
      if mode &&& ttyModeEcho ≠ 0 then ttyLflagEcho else 0 := put_and_self
  have hcrlf : (ttyTermiosFromMode termios mode).inputFlags &&& ttyIflagIcrnl =
      if mode &&& ttyModeCrlf ≠ 0 then ttyIflagIcrnl else 0 := put_and_self
  rw [and_sharedModes, ttyModeFromTermios, hcanonical, hecho, hcrlf]
  split_ifs <;> first | rfl | contradiction

theorem agrees_setMode (c : TtyContent) (mode : UInt32) : Agrees (c.setMode mode) :=
  (ttyModeFromTermios_fromMode c.termios mode).symm

theorem agrees_configure (c : TtyContent) (termios : Termios) : Agrees (c.configure termios) :=
  ttyModeFromTermios_shared _

def SameSettings (t u : TtyState) : Prop := ∀ k, (u.ttys k).used = (t.ttys k).used ∧
  (u.ttys k).mode = (t.ttys k).mode ∧ (u.ttys k).termios = (t.ttys k).termios

theorem SameSettings.setTty {t u : TtyState} (h : SameSettings t u)
    (hmode : c.mode = (u.ttys j).mode) (htermios : c.termios = (u.ttys j).termios) :
    SameSettings t (setTty u j c) := by
  intro k
  by_cases hk : k = j
  · subst hk
    simpa [Tty.setTty, hmode, htermios] using h k
  · simpa [Tty.setTty, hk] using h k

theorem sameSettings_flush (t : TtyState) (j : Nat) (queues : UInt32) :
    SameSettings t (ttyFlushRecord t j queues) := by
  have hinput : SameSettings t
      (setTty t j { (t.ttys j).toTtyContent with input := [], line := [] }) :=
    SameSettings.setTty (fun _ => ⟨rfl, rfl, rfl⟩) rfl rfl
  have houtput : ∀ u, SameSettings t u → SameSettings t
      (setTty u j { (u.ttys j).toTtyContent with output := [] }) := fun u hu => hu.setTty rfl rfl
  unfold ttyFlushRecord
  dsimp only
  generalize (if queues = 0 then ttyFlushInput ||| ttyFlushOutput else queues) = chosen
  have hfirst : SameSettings t (if chosen &&& ttyFlushInput ≠ 0 then
      setTty t j { (t.ttys j).toTtyContent with input := [], line := [] } else t) := by
    split
    · exact hinput
    · exact fun _ => ⟨rfl, rfl, rfl⟩
  split
  · split
    · exact houtput _ hfirst
    · exact houtput _ hfirst
  · exact hfirst

namespace AllSettled

theorem setContent (h : AllSettled s) (hc : Agrees c) : AllSettled (setContent s j c) := by
  intro k hused
  by_cases hk : k = j
  · subst hk
    simp only [Tty.setContent, setTty, Function.update_self] at hused
    refine ⟨(h k hused).visible, ?_⟩
    simpa [Tty.setContent, setTty] using hc
  · simp only [Tty.setContent, setTty, Function.update_of_ne hk] at hused
    refine ⟨(h k hused).visible, ?_⟩
    simpa [Tty.setContent, setTty, hk] using (h k hused).agrees

theorem setWindow (h : AllSettled s) (hsize : size.Visible) : AllSettled (setWindow s j size) := by
  intro k hused
  refine ⟨?_, (h k hused).agrees⟩
  by_cases hk : k = j
  · subst hk
    simpa [Tty.setWindow] using hsize
  · simpa [Tty.setWindow, hk] using (h k hused).visible

theorem flush (h : AllSettled s) (queues : UInt32) :
    AllSettled { s with tables := ttyFlushRecord s.tables j queues } := by
  intro k hused
  obtain ⟨hsame, hmode, htermios⟩ := sameSettings_flush s.tables j queues k
  have hsettled := h k (hsame ▸ hused)
  refine ⟨hsettled.visible, ?_⟩
  rw [Agrees, hmode, htermios]
  exact hsettled.agrees

end AllSettled

/-- After the call every terminal in use is settled, and an error leaves all records as they
were. -/
def Keeps (s : TtyDevices) (c : SettingCall) : Prop :=
  AllSettled (c.perform s).2 ∧ ((c.perform s).1 ≠ .ok → (c.perform s).2 = s)

namespace AllSettled

theorem ioctl {request : Request} (h : AllSettled s)
    (hproper : (SettingCall.ioctl j request).Proper) : Keeps s (.ioctl j request) := by
  cases request with
  | setWinsize argument =>
    cases argument with
    | none => exact ⟨h, fun _ => rfl⟩
    | some size =>
      have hvisible : size.rows ≠ 0 ∧ size.columns ≠ 0 := hproper
      refine ⟨h.setWindow hvisible, fun herror => ?_⟩
      simp [SettingCall.perform, ttyDeviceIoctl, hvisible] at herror
  | setMode argument =>
    cases argument with
    | none => exact ⟨h, fun _ => rfl⟩
    | some mode => exact ⟨h.setContent (agrees_setMode _ mode), fun herror => absurd rfl herror⟩
  | setTermios argument =>
    cases argument with
    | none => exact ⟨h, fun _ => rfl⟩
    | some termios =>
      exact ⟨h.setContent (agrees_configure _ termios), fun herror => absurd rfl herror⟩
  | flush argument =>
    cases argument with
    | none => exact ⟨h, fun _ => rfl⟩
    | some queues => exact ⟨h.flush queues, fun herror => absurd rfl herror⟩
  | getWinsize argument => cases argument <;> exact ⟨h, fun _ => rfl⟩
  | getMode argument => cases argument <;> exact ⟨h, fun _ => rfl⟩
  | getTermios argument => cases argument <;> exact ⟨h, fun _ => rfl⟩
  | other => exact ⟨h, fun _ => rfl⟩

theorem keeps {call : SettingCall} (h : AllSettled s) (hproper : call.Proper) : Keeps s call := by
  cases call with
  | ioctl tty request => exact h.ioctl hproper
  | setWindowSize tty size =>
    simp only [Keeps, SettingCall.perform, radTtySetWindowSize]
    split
    · next size _ _ =>
      split
      · exact ⟨h, fun _ => rfl⟩
      · next hsize => exact ⟨h.setWindow (not_or.1 hsize), fun herror => absurd rfl herror⟩
    · exact ⟨h, fun _ => rfl⟩
  | setMode tty mode =>
    simp only [Keeps, SettingCall.perform, radTtySetMode]
    split
    · exact ⟨h, fun _ => rfl⟩
    · exact ⟨h.setContent (agrees_setMode _ mode), fun herror => absurd rfl herror⟩
  | setTermios tty termios =>
    cases termios with
    | none => exact ⟨h, fun _ => rfl⟩
    | some termios =>
      simp only [Keeps, SettingCall.perform, radTtySetTermios]
      split
      · exact ⟨h, fun _ => rfl⟩
      · exact ⟨h.setContent (agrees_configure _ termios), fun herror => absurd rfl herror⟩
  | flush tty queues =>
    simp only [Keeps, SettingCall.perform, radTtyFlush]
    split
    · exact ⟨h, fun _ => rfl⟩
    · exact ⟨h.flush queues, fun herror => absurd rfl herror⟩

end AllSettled

/-- An empty window is stored before it is refused. -/
theorem proper_of_keeps {call : SettingCall} (hused : (s.tables.ttys call.tty).used = true)
    (hkeeps : Keeps s call) : call.Proper := by
  cases call with
  | ioctl tty request =>
    cases request with
    | setWinsize argument =>
      cases argument with
      | none => trivial
      | some size =>
        have hvisible : ((setWindow s tty size).windows tty).Visible :=
          (hkeeps.1 tty hused).visible
        simp only [setWindow, Function.update_self] at hvisible
        exact hvisible
    | _ => trivial
  | _ => trivial

/-! ## Runs -/

/-- The terminals of start-up, each with the window that it was made with. -/
def SettingStart (s : TtyDevices) : Prop := ∃ names, s.tables = boot names ∧
  ∀ j, (s.tables.ttys j).used = true → s.windows j = defaultTtyWindow

/-- The records in use repeat their modes in their flags. -/
def AllAgree (t : TtyState) : Prop :=
  ∀ j, (t.ttys j).used = true → Agrees (t.ttys j).toTtyContent

theorem AllAgree.ensureTty {t : TtyState} (h : AllAgree t) (name : List Char) :
    AllAgree (ensureTty t name).2 := by
  unfold Tty.ensureTty
  split
  · exact h
  · split
    · exact h
    · split
      · exact h
      · next i _ =>
        intro j hused
        by_cases hj : j = i
        · subst hj
          simp only [Function.update_self]
          exact ttyModeFromTermios_shared defaultTtyTermios
        · simp only [Function.update_of_ne hj] at hused ⊢
          exact h j hused

theorem allAgree_boot (names : List (List Char)) : AllAgree (boot names) := by
  have hfold : ∀ t, AllAgree t → AllAgree (names.foldl (fun s name => (ensureTty s name).2) t) := by
    induction names with
    | nil => exact fun t h => h
    | cons name names ih => exact fun t h => ih _ (h.ensureTty name)
  exact hfold {} fun j hused => by simp at hused

theorem SettingStart.settled (h : SettingStart s) : AllSettled s := by
  obtain ⟨names, htables, hwindows⟩ := h
  intro j hused
  refine ⟨?_, ?_⟩
  · rw [hwindows j hused]
    exact ⟨by decide, by decide⟩
  · rw [htables] at hused ⊢
    exact allAgree_boot names j hused

/-- In every run that sets no empty window through a device, all terminals are settled. The next
call keeps them so, and leaves the records alone when it fails, exactly when it does not set an
empty window through a device either. -/
theorem settled_of_run
    (h : Run (Obeys (fun s c => (SettingCall.perform s c).2) fun _ c => c.Proper) SettingStart s) :
    AllSettled s ∧ ∀ c : SettingCall, (s.tables.ttys c.tty).used = true → (Keeps s c ↔ c.Proper) := by
  have hsettled : AllSettled s := by
    apply h.invariant
    · intro s hs
      exact hs.settled
    · rintro s c _ hs ⟨hproper, rfl⟩
      exact (hs.keeps hproper).1
  exact ⟨hsettled, fun c hused => ⟨proper_of_keeps hused, hsettled.keeps⟩⟩

/-- A terminal as it was made at start-up. -/
def oneTty : TtyDevices where
  tables := boot ["/dev/tty0".toList]
  windows := fun _ => defaultTtyWindow

theorem settingStart_oneTty : SettingStart oneTty := ⟨_, rfl, fun _ _ => rfl⟩

theorem keeps_mode_oneTty : Keeps oneTty (.setMode 0 5) :=
  ((settled_of_run (.start settingStart_oneTty)).2 (.setMode 0 5) (by decide)).2 trivial

/-- A window without rows is refused by the device, and stored. -/
theorem not_keeps_oneTty : ¬ ∀ s,
    Run (Obeys (fun s c => (SettingCall.perform s c).2) fun _ _ => True) SettingStart s →
      ∀ c : SettingCall, (s.tables.ttys c.tty).used = true → Keeps s c := by
  intro h
  have hkeeps := h oneTty (.start settingStart_oneTty) (.ioctl 0 (.setWinsize (some ⟨0, 80, 0, 0⟩)))
    (by decide)
  exact absurd (hkeeps.1 0 (by decide)).visible.1 (by decide)

end RadKernel.Tty
