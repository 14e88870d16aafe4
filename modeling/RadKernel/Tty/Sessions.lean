import RadKernel.Lib.Run
import RadKernel.Tty.Model

/-!
# Sessions on pseudo terminals

The record of a slave stays in the table of terminals when its pty is closed, and the next pty
with the same slave name gets it back as it is. Beside the tables stands what all sessions under
a name have left; the tables agree with it.
-/

namespace RadKernel.Tty

open Kernel Function

variable {s t : TtyState} {i j k : Nat} {name : List Char} {c : TtyContent}

/-- The tables, and the content of the sessions by their slave name. -/
structure Sessions where
  tables : TtyState
  content : List Char → TtyContent := fun _ => {}

/-- The session whose content a call changes, and how. -/
def Call.touches (s : TtyState) : Call → Option (List Char × (TtyContent → TtyContent))
  | writeMaster pty bytes => (findPty s pty).map fun i => ((s.ptys i).slaveName, (·.push bytes))
  | writeSlave pty bytes => (findPty s pty).map fun i => ((s.ptys i).slaveName, (·.append bytes))
  | readSlave pty size => (findPty s pty).map fun i => ((s.ptys i).slaveName, (·.read size))
  | readTty tty size => (openTty s tty).map fun j => ((s.ttys j).name, (·.read size))
  | setTermios tty termios => (openTty s tty).map fun j => ((s.ttys j).name, (·.configure termios))
  | openPair .. | close .. | readMaster .. => none

def record (w : Sessions) (e : Call) : Sessions where
  tables := e.perform w.tables
  content :=
    match e.touches w.tables with
    | none => w.content
    | some (name, f) => Function.update w.content name (f (w.content name))

def SessionStart (w : Sessions) : Prop := ∃ names, w = { tables := boot names }

def openPtys (s : TtyState) : Nat := (List.range maxPtys).countP fun i => (s.ptys i).used

/-- Nothing is left of a session. -/
def Clean (c : TtyContent) : Prop :=
  c.input = [] ∧ c.line = [] ∧ c.output = [] ∧ c.termios = defaultTtyTermios

instance Clean.decidable (c : TtyContent) : Decidable (Clean c) :=
  inferInstanceAs (Decidable (_ ∧ _ ∧ _ ∧ _))

/-- A pair is opened, and its buffers and settings are those of a new one. -/
def StartsFresh (s : TtyState) (name : List Char) : Prop :=
  ∃ i j t, radPtyOpenPair s name true = ((.ok, some i), t) ∧ slaveTty t i = some j ∧
    Clean (t.ttys j).toTtyContent ∧ (t.ptys i).master = []

/-! ## Tables -/

theorem findTty_some (h : findTty s name = some j) :
    j < maxTtys ∧ (s.ttys j).used = true ∧ (s.ttys j).name = name := by
  obtain ⟨hp, hmem, -⟩ := List.find?_range_eq_some.1 h
  exact ⟨List.mem_range.1 hmem, by simpa using hp⟩

theorem findTty_none : findTty s name = none ↔
    ∀ j < maxTtys, (s.ttys j).used = true → (s.ttys j).name ≠ name := by
  simp [findTty, List.find?_eq_none]

/-- Records of terminals have different names, each holds what the sessions of its name left,
and the slave of an open pty has one. -/
structure Mirrors (w : Sessions) : Prop where
  unique : ∀ j k, j < maxTtys → k < maxTtys → (w.tables.ttys j).used = true →
    (w.tables.ttys k).used = true → (w.tables.ttys j).name = (w.tables.ttys k).name → j = k
  content : ∀ j < maxTtys, (w.tables.ttys j).used = true →
    (w.tables.ttys j).toTtyContent = w.content (w.tables.ttys j).name
  absent : ∀ name, findTty w.tables name = none → w.content name = {}
  slave : ∀ i < maxPtys, (w.tables.ptys i).used = true →
    findTty w.tables (w.tables.ptys i).slaveName ≠ none

/-- Terminals keep their names and use. -/
structure SameNames (s t : TtyState) : Prop where
  used : ∀ j, (t.ttys j).used = (s.ttys j).used
  name : ∀ j, (t.ttys j).name = (s.ttys j).name

theorem SameNames.findTty (h : SameNames s t) (name : List Char) :
    findTty t name = findTty s name := by
  simp only [Tty.findTty, h.used, h.name]

variable {w : Sessions}

/-- Nothing changes in the terminals, and the slaves of the ptys are among them. -/
theorem Mirrors.keep (h : Mirrors w) (hnames : SameNames w.tables t)
    (hcontent : ∀ j, (t.ttys j).toTtyContent = (w.tables.ttys j).toTtyContent)
    (hptys : ∀ i < maxPtys, (t.ptys i).used = true →
      findTty w.tables (t.ptys i).slaveName ≠ none) : Mirrors { w with tables := t } := by
  constructor
  case unique =>
    intro j k hj hk hused hused' hname
    rw [hnames.used] at hused hused'
    rw [hnames.name, hnames.name] at hname
    exact h.unique j k hj hk hused hused' hname
  case content =>
    intro j hj hused
    rw [hnames.used] at hused
    rw [hcontent, hnames.name]
    exact h.content j hj hused
  case absent =>
    intro name hname
    rw [hnames.findTty] at hname
    exact h.absent name hname
  case slave =>
    intro i hi hused
    rw [hnames.findTty]
    exact hptys i hi hused

variable {f : TtyContent → TtyContent} {id : Nat} {e : Call}

theorem Mirrors.touch (h : Mirrors w) (hj : j < maxTtys)
    (hjUsed : (w.tables.ttys j).used = true) (hnames : SameNames w.tables t)
    (hself : (t.ttys j).toTtyContent = f (w.tables.ttys j).toTtyContent)
    (hother : ∀ k, k ≠ j → (t.ttys k).toTtyContent = (w.tables.ttys k).toTtyContent)
    (hptys : ∀ i, (t.ptys i).used = (w.tables.ptys i).used ∧
      (t.ptys i).slaveName = (w.tables.ptys i).slaveName) :
    Mirrors ⟨t, update w.content (w.tables.ttys j).name
      (f (w.content (w.tables.ttys j).name))⟩ := by
  constructor
  case unique =>
    intro k l hk hl hused hused' hname
    rw [hnames.used] at hused hused'
    rw [hnames.name, hnames.name] at hname
    exact h.unique k l hk hl hused hused' hname
  case content =>
    intro k hk hused
    rw [hnames.used] at hused
    rw [hnames.name]
    dsimp only
    by_cases hkj : k = j
    · rw [hkj, hself, update_self, h.content j hj hjUsed]
    · have hne : (w.tables.ttys k).name ≠ (w.tables.ttys j).name := fun hname =>
        hkj (h.unique k j hk hj hused hjUsed hname)
      rw [hother k hkj, update_of_ne hne, h.content k hk hused]
  case absent =>
    intro name hname
    rw [hnames.findTty] at hname
    have hne : name ≠ (w.tables.ttys j).name := fun hne =>
      findTty_none.1 hname j hj hjUsed hne.symm
    dsimp only
    rw [update_of_ne hne, h.absent name hname]
  case slave =>
    intro i hi hused
    rw [(hptys i).1] at hused
    rw [hnames.findTty, (hptys i).2]
    exact h.slave i hi hused

/-! ## The calls -/

theorem setTty_names (s : TtyState) (j : Nat) (c : TtyContent) : SameNames s (setTty s j c) := by
  constructor <;> intro k <;> by_cases hk : k = j <;> simp [setTty, hk]

theorem setTty_self (s : TtyState) (j : Nat) (c : TtyContent) :
    ((setTty s j c).ttys j).toTtyContent = c := by
  simp [setTty]

theorem setTty_other (c : TtyContent) (hk : k ≠ j) : (setTty s j c).ttys k = s.ttys k := by
  simp [setTty, hk]

theorem appendMaster_ptys (s : TtyState) (id : Nat) (data : List UInt8) (i : Nat) :
    ((appendMaster s id data).ptys i).used = (s.ptys i).used ∧
      ((appendMaster s id data).ptys i).slaveName = (s.ptys i).slaveName := by
  unfold appendMaster
  cases attachedPty s id with
  | none => exact ⟨rfl, rfl⟩
  | some k => by_cases hk : i = k <;> simp [hk]

variable {data : List UInt8}

/-- A terminal gets new content, and the master of its pty some bytes. -/
theorem Mirrors.setTty (h : Mirrors w) (hj : j < maxTtys) (hused : (w.tables.ttys j).used = true) :
    Mirrors ⟨appendMaster (Tty.setTty w.tables j (f (w.tables.ttys j).toTtyContent)) id data,
      update w.content (w.tables.ttys j).name (f (w.content (w.tables.ttys j).name))⟩ := by
  have hnames := setTty_names w.tables j (f (w.tables.ttys j).toTtyContent)
  refine h.touch hj hused ⟨?_, ?_⟩ ?_ (fun k hk => ?_) fun i => ?_
  · simpa using hnames.used
  · simpa using hnames.name
  · simpa using setTty_self w.tables j _
  · rw [appendMaster_ttys, setTty_other _ hk]
  · exact appendMaster_ptys _ _ _ i

theorem Mirrors.slave_found (h : Mirrors w) (hi : findPty w.tables i = some k) :
    ∃ j, slaveTty w.tables i = some j ∧ j < maxTtys ∧ (w.tables.ttys j).used = true ∧
      (w.tables.ttys j).name = (w.tables.ptys k).slaveName := by
  have hpty : k < maxPtys ∧ (w.tables.ptys k).used = true := by
    unfold findPty at hi
    split_ifs at hi with hpty
    obtain rfl := Option.some.inj hi
    exact hpty
  obtain ⟨j, hj⟩ := Option.ne_none_iff_exists'.1 (h.slave k hpty.1 hpty.2)
  exact ⟨j, by simp [slaveTty, hi, hj], findTty_some hj⟩

theorem openTty_some (h : openTty s j = some k) : k = j ∧ j < maxTtys ∧ (s.ttys j).used = true := by
  unfold openTty at h
  split_ifs at h with hj
  exact ⟨(Option.some.inj h).symm, hj⟩

/-- A call that finds nothing to work on. -/
theorem Mirrors.of_none (h : Mirrors w) (htouches : e.touches w.tables = none)
    (hperform : e.perform w.tables = w.tables) : Mirrors (record w e) := by
  rw [record, htouches, hperform]
  exact h

/-- A call on a terminal that changes its content. -/
theorem Mirrors.of_touches
    (h : Mirrors w) (hj : j < maxTtys) (hused : (w.tables.ttys j).used = true)
    (htouches : e.touches w.tables = some ((w.tables.ttys j).name, f))
    (hperform : e.perform w.tables =
      appendMaster (Tty.setTty w.tables j (f (w.tables.ttys j).toTtyContent)) id data) :
    Mirrors (record w e) := by
  rw [record, htouches, hperform]
  exact h.setTty hj hused

/-- Without a pty no master gets bytes. -/
theorem appendMaster_zero (s : TtyState) (data : List UInt8) : appendMaster s 0 data = s := by
  simp [appendMaster, attachedPty]

/-- A call through a pty that changes the content of its slave. -/
theorem Mirrors.of_pty (h : Mirrors w)
    (htouches : e.touches w.tables =
      (findPty w.tables i).map fun k => ((w.tables.ptys k).slaveName, f))
    (hnone : slaveTty w.tables i = none → e.perform w.tables = w.tables)
    (hsome : ∀ j, slaveTty w.tables i = some j → ∃ id data, e.perform w.tables =
      appendMaster (Tty.setTty w.tables j (f (w.tables.ttys j).toTtyContent)) id data) :
    Mirrors (record w e) := by
  cases hi : findPty w.tables i with
  | none =>
    rw [hi] at htouches
    exact h.of_none htouches (hnone (by simp [slaveTty, hi]))
  | some k =>
    obtain ⟨j, hslave, hj, hused, hname⟩ := h.slave_found hi
    obtain ⟨id, data, hperform⟩ := hsome j hslave
    rw [hi, Option.map_some, ← hname] at htouches
    exact h.of_touches hj hused htouches hperform

/-- A call through a terminal handle that changes the content of the terminal. -/
theorem Mirrors.of_tty (h : Mirrors w)
    (htouches : e.touches w.tables =
      (openTty w.tables i).map fun j => ((w.tables.ttys j).name, f))
    (hnone : openTty w.tables i = none → e.perform w.tables = w.tables)
    (hsome : ∀ j, openTty w.tables i = some j → e.perform w.tables =
      Tty.setTty w.tables j (f (w.tables.ttys j).toTtyContent)) : Mirrors (record w e) := by
  cases hi : openTty w.tables i with
  | none =>
    rw [hi] at htouches
    exact h.of_none htouches (hnone hi)
  | some j =>
    obtain ⟨rfl, hj, hused⟩ := openTty_some hi
    rw [hi, Option.map_some] at htouches
    exact h.of_touches hj hused htouches ((hsome j hi).trans (appendMaster_zero _ []).symm)

theorem setPtyId_names (s : TtyState) (j id : Nat) : SameNames s (setPtyId s j id) := by
  constructor <;> intro k <;> by_cases hk : k = j <;> simp [setPtyId, hk]

theorem setPtyId_content (s : TtyState) (j id k : Nat) :
    ((setPtyId s j id).ttys k).toTtyContent = (s.ttys k).toTtyContent := by
  by_cases hk : k = j <;> simp [setPtyId, hk]

theorem Mirrors.close (h : Mirrors w) : Mirrors (record w (.close i)) := by
  show Mirrors { w with tables := radPtyClose w.tables i }
  unfold radPtyClose
  cases findPty w.tables i with
  | none => exact h
  | some i =>
    have hptys : ∀ (u : TtyState), u.ptys = w.tables.ptys → ∀ k < maxPtys,
        ((setPty u i {}).ptys k).used = true →
          findTty w.tables ((setPty u i {}).ptys k).slaveName ≠ none := by
      intro u hu k hk hused
      by_cases hki : k = i
      · simp [setPty, hki] at hused
      · simp only [setPty, update_of_ne hki, hu] at hused ⊢
        exact h.slave k hk hused
    dsimp only
    cases findTty w.tables (w.tables.ptys i).slaveName with
    | none => exact h.keep ⟨fun _ => rfl, fun _ => rfl⟩ (fun _ => rfl) (hptys _ rfl)
    | some j =>
      have hnames := setPtyId_names w.tables j 0
      exact h.keep ⟨hnames.used, hnames.name⟩ (setPtyId_content w.tables j 0) (hptys _ rfl)

theorem Mirrors.readMaster (h : Mirrors w) (size : Nat) :
    Mirrors (record w (.readMaster i size)) := by
  show Mirrors { w with tables := (radPtyReadMaster w.tables i size).2 }
  unfold radPtyReadMaster
  cases findPty w.tables i with
  | none => exact h
  | some i =>
    refine h.keep ⟨fun _ => rfl, fun _ => rfl⟩ (fun _ => rfl) fun k hk hused => ?_
    by_cases hki : k = i
    · subst hki
      simp only [setPty, update_self] at hused ⊢
      exact h.slave k hk hused
    · simp only [setPty, update_of_ne hki] at hused ⊢
      exact h.slave k hk hused

theorem ensureTty_some (h : ensureTty s name = (some j, t)) :
    (findTty s name = some j ∧ t = s) ∨
    (findTty s name = none ∧ name ≠ [] ∧ j < maxTtys ∧ (s.ttys j).used = false ∧
      t = { s with ttys := update s.ttys j { name := name, used := true } }) := by
  unfold ensureTty at h
  cases hfind : findTty s name with
  | some k =>
    simp only [hfind, Prod.mk.injEq, Option.some.injEq] at h
    exact .inl ⟨by rw [h.1], h.2.symm⟩
  | none =>
    simp only [hfind] at h
    split_ifs at h with hname
    · simp at h
    · cases hfree : (List.range maxTtys).find? fun j => !(s.ttys j).used with
      | none => simp [hfree] at h
      | some k =>
        simp only [hfree, Prod.mk.injEq, Option.some.injEq] at h
        obtain ⟨rfl, rfl⟩ := h
        obtain ⟨hp, hmem, -⟩ := List.find?_range_eq_some.1 hfree
        exact .inr ⟨rfl, hname, List.mem_range.1 hmem, by simpa using hp, rfl⟩

theorem ensureTty_none (h : ensureTty s name = (none, t)) :
    t = s ∧ findTty s name = none ∧ (name = [] ∨ ∀ j < maxTtys, (s.ttys j).used = true) := by
  unfold ensureTty at h
  cases hfind : findTty s name with
  | some k => simp [hfind] at h
  | none =>
    simp only [hfind] at h
    split_ifs at h with hname
    · exact ⟨(Prod.mk.inj h).2.symm, rfl, .inl hname⟩
    · cases hfree : (List.range maxTtys).find? fun j => !(s.ttys j).used with
      | none =>
        simp only [hfree] at h
        exact ⟨(Prod.mk.inj h).2.symm, rfl, .inr (by simpa using hfree)⟩
      | some k => simp [hfree] at h

/-- The record of a new terminal is that of a session that left nothing. -/
theorem Mirrors.add (h : Mirrors w) (hj : j < maxTtys) (hfree : (w.tables.ttys j).used = false)
    (hnone : findTty w.tables name = none)
    (ht : t = { w.tables with
      ttys := update w.tables.ttys j { name := name, used := true } }) :
    Mirrors { w with tables := t } ∧ findTty t name ≠ none := by
  have hself : t.ttys j = { name := name, used := true } := by simp [ht]
  have hother : ∀ k, k ≠ j → t.ttys k = w.tables.ttys k := fun k hk => by simp [ht, hk]
  have hfound : findTty t name ≠ none := fun hfound =>
    findTty_none.1 hfound j hj (by rw [hself]) (by rw [hself])
  have hkept : ∀ n, findTty t n = none → findTty w.tables n = none ∧ n ≠ name := by
    intro n hn
    refine ⟨findTty_none.2 fun k hk hused => ?_, fun hname => hfound (hname ▸ hn)⟩
    have hkj : k ≠ j := by
      rintro rfl
      simp [hused] at hfree
    have := findTty_none.1 hn k hk
    rw [hother k hkj] at this
    exact this hused
  refine ⟨?_, hfound⟩
  have hnew : ∀ k, k < maxTtys → k ≠ j → (t.ttys k).used = true → (t.ttys k).name ≠ name := by
    intro k hk hkj hused
    rw [hother k hkj] at hused ⊢
    exact findTty_none.1 hnone k hk hused
  constructor
  case unique =>
    intro k l hk hl hused hused' hname
    by_cases hkj : k = j <;> by_cases hlj : l = j
    · rw [hkj, hlj]
    · rw [hkj, hself] at hname
      exact absurd hname.symm (hnew l hl hlj hused')
    · rw [hlj, hself] at hname
      exact absurd hname (hnew k hk hkj hused)
    · rw [hother k hkj, hother l hlj] at hname
      rw [hother k hkj] at hused
      rw [hother l hlj] at hused'
      exact h.unique k l hk hl hused hused' hname
  case content =>
    intro k hk hused
    by_cases hkj : k = j
    · rw [hkj, hself, h.absent name hnone]
    · rw [hother k hkj] at hused ⊢
      exact h.content k hk hused
  case absent => exact fun n hn => h.absent n (hkept n hn).1
  case slave =>
    intro i hi hused hn
    have hptys : t.ptys = w.tables.ptys := by rw [ht]
    rw [hptys] at hused hn
    exact h.slave i hi hused (hkept _ hn).1

theorem ensureTty_setPty (s : TtyState) (i : Nat) (r : PtyRecord) (name : List Char) :
    ensureTty (setPty s i r) name =
      ((ensureTty s name).1, setPty (ensureTty s name).2 i r) := by
  have hfind : findTty (setPty s i r) name = findTty s name := rfl
  have httys : (setPty s i r).ttys = s.ttys := rfl
  unfold ensureTty
  rw [hfind, httys]
  cases findTty s name with
  | some k => rfl
  | none =>
    split_ifs
    · rfl
    · cases (List.range maxTtys).find? fun j => !(s.ttys j).used <;> rfl

/-- The record of the slave is there, old or new. -/
theorem Mirrors.ensureTty (h : Mirrors w) (hensure : ensureTty w.tables name = (some j, t)) :
    Mirrors { w with tables := t } ∧ findTty t name = some j := by
  obtain ⟨hfound, rfl⟩ | ⟨hnone, -, hj, hfree, ht⟩ := ensureTty_some hensure
  · exact ⟨h, hfound⟩
  · obtain ⟨hmirrors, hfound⟩ := h.add hj hfree hnone ht
    obtain ⟨k, hk⟩ := Option.ne_none_iff_exists'.1 hfound
    obtain ⟨hkLt, hkUsed, hkName⟩ := findTty_some hk
    have hself : (t.ttys j).used = true ∧ (t.ttys j).name = name := by simp [ht]
    rw [hk, hmirrors.unique k j hkLt hj hkUsed hself.1 (hkName.trans hself.2.symm)]
    exact ⟨hmirrors, rfl⟩

theorem Mirrors.openPair (h : Mirrors w) (name : List Char) (memory : Bool) :
    Mirrors (record w (.openPair name memory)) := by
  show Mirrors { w with tables := (radPtyOpenPair w.tables name memory).2 }
  unfold radPtyOpenPair
  cases (List.range maxPtys).find? fun i => !(w.tables.ptys i).used with
  | none => exact h
  | some i =>
    simp only [ensureTty_setPty]
    generalize ptsName (nextPtyId w.tables) = slaveName
    have hcleared : ∀ (u : TtyState), Mirrors { w with tables := u } → ∀ r v,
        SameNames u v → (∀ j, (v.ttys j).toTtyContent = (u.ttys j).toTtyContent) →
        v.ptys = update u.ptys i r →
        (r.used = true → findTty u r.slaveName ≠ none) → Mirrors { w with tables := v } := by
      intro u hu r v hnames hcontent hptys hr
      refine hu.keep hnames hcontent fun k hk hused => ?_
      rw [hptys] at hused ⊢
      by_cases hki : k = i
      · subst hki
        rw [update_self] at hused ⊢
        exact hr hused
      · rw [update_of_ne hki] at hused ⊢
        exact hu.slave k hk hused
    cases hensure : Tty.ensureTty w.tables slaveName with
    | mk slave u =>
      cases slave with
      | none =>
        obtain ⟨rfl, -⟩ := ensureTty_none hensure
        exact hcleared w.tables h {} _ ⟨fun _ => rfl, fun _ => rfl⟩ (fun _ => rfl)
          (by simp [setPty]) (by simp)
      | some j =>
        obtain ⟨hu, hfound⟩ := h.ensureTty hensure
        cases memory with
        | true =>
          have hnames := setPtyId_names u j (nextPtyId w.tables)
          refine hcleared u hu _ _ ⟨hnames.used, hnames.name⟩
            (setPtyId_content u j (nextPtyId w.tables)) rfl fun _ => ?_
          simp [hfound]
        | false =>
          have hnames := setPtyId_names u j 0
          exact hcleared u hu {} _ ⟨hnames.used, hnames.name⟩ (setPtyId_content u j 0)
            (by simp [setPty, setPtyId]) (by simp)

theorem Mirrors.step (h : Mirrors w) (e : Call) : Mirrors (record w e) := by
  cases e with
  | openPair name memory => exact h.openPair name memory
  | close pty => exact h.close
  | readMaster pty size => exact h.readMaster size
  | writeMaster pty bytes =>
    refine h.of_pty rfl (fun hnone => ?_) fun j hj => ?_
    · simp [Call.perform, radPtyWriteMaster, hnone]
    · exact ⟨_, _, by simp only [Call.perform, radPtyWriteMaster, hj]; rfl⟩
  | writeSlave pty bytes =>
    refine h.of_pty rfl (fun hnone => ?_) fun j hj => ?_
    · simp [Call.perform, radPtyWriteSlave, hnone]
    · exact ⟨_, _, by simp only [Call.perform, radPtyWriteSlave, hj]; rfl⟩
  | readSlave pty size =>
    refine h.of_pty rfl (fun hnone => ?_) fun j hj => ⟨0, [], ?_⟩
    · simp [Call.perform, radPtyReadSlave, hnone]
    · rw [appendMaster_zero]
      simp [Call.perform, radPtyReadSlave, hj, ttyReadRecord]
  | readTty tty size =>
    refine h.of_tty rfl (fun hnone => ?_) fun j hj => ?_
    · simp [Call.perform, radTtyRead, hnone]
    · simp [Call.perform, radTtyRead, hj, ttyReadRecord]
  | setTermios tty termios =>
    refine h.of_tty rfl (fun hnone => ?_) fun j hj => ?_
    · simp [Call.perform, radTtySetTermios, hnone]
    · simp [Call.perform, radTtySetTermios, hj]

theorem Mirrors.of_start (h : SessionStart w) : Mirrors w := by
  obtain ⟨names, rfl⟩ := h
  have hempty : Mirrors { tables := {} } :=
    ⟨by simp, by simp, fun _ _ => rfl, by simp⟩
  have hboot : ∀ (l : List (List Char)) s, Mirrors { tables := s } →
      Mirrors { tables := l.foldl (fun s name => (Tty.ensureTty s name).2) s } := by
    intro l
    induction l with
    | nil => exact fun s hs => hs
    | cons name l ih =>
      intro s hs
      refine ih _ ?_
      show Mirrors { tables := (Tty.ensureTty s name).2 }
      cases hensure : Tty.ensureTty s name with
      | mk slave u =>
        cases slave with
        | none => exact (ensureTty_none hensure).1 ▸ hs
        | some j => exact (Mirrors.ensureTty hs hensure).1
  exact hboot names {} hempty

theorem ptsName_ne_nil (id : Nat) : ptsName id ≠ [] :=
  List.append_ne_nil_of_left_ne_nil (by decide) _

theorem exists_free_of_openPtys_lt (h : openPtys s < maxPtys) :
    ∃ i, (List.range maxPtys).find? (fun i => !(s.ptys i).used) = some i := by
  refine Option.isSome_iff_exists.1 (List.find?_isSome.2 ?_)
  by_contra hall
  push Not at hall
  have hcount : openPtys s = maxPtys := by
    rw [openPtys, List.countP_eq_length.2 fun i hi => by simpa using hall i hi, List.length_range]
  omega

/-- In every state that calls lead to, while fewer ptys are open than the table holds: the next
pair is opened and starts empty and with default settings, if and only if the sessions under the
name of its slave left nothing, and the table of terminals has a record for it. -/
theorem startsFresh_iff (h : Run (Obeys record fun _ _ => True) SessionStart w)
    (hroom : openPtys w.tables < maxPtys) (name : List Char) :
    StartsFresh w.tables name ↔
      Clean (w.content (ptsName (nextPtyId w.tables))) ∧
        (findTty w.tables (ptsName (nextPtyId w.tables)) ≠ none ∨
          ∃ j < maxTtys, (w.tables.ttys j).used = false) := by
  have hw : Mirrors w := by
    refine h.invariant (fun _ => Mirrors.of_start) ?_
    rintro v e _ hv ⟨-, rfl⟩
    exact hv.step e
  obtain ⟨i, hi⟩ := exists_free_of_openPtys_lt hroom
  obtain ⟨-, hmem, -⟩ := List.find?_range_eq_some.1 hi
  have hiLt := List.mem_range.1 hmem
  simp only [StartsFresh, radPtyOpenPair, hi, ensureTty_setPty]
  have hnamed := ptsName_ne_nil (nextPtyId w.tables)
  generalize ptsName (nextPtyId w.tables) = slaveName at hnamed ⊢
  cases hensure : Tty.ensureTty w.tables slaveName with
  | mk slave u =>
    cases slave with
    | none =>
      obtain ⟨-, hnone, hfull⟩ := ensureTty_none hensure
      have hfull := hfull.resolve_left hnamed
      simp only [Prod.mk.injEq, reduceCtorEq, and_false, false_and, exists_false, hnone, ne_eq,
        not_true_eq_false, false_or, false_iff, not_and, not_exists]
      intro _ j hj
      simp [hfull j hj]
    | some j =>
      obtain ⟨hu, hfound⟩ := hw.ensureTty hensure
      obtain ⟨hj, hused, hname⟩ := findTty_some hfound
      have hcontent : (u.ttys j).toTtyContent = w.content slaveName := by
        rw [← hname]
        exact hu.content j hj hused
      have hready : findTty w.tables slaveName ≠ none ∨
          ∃ j < maxTtys, (w.tables.ttys j).used = false := by
        obtain ⟨hold, -⟩ | ⟨-, -, hk, hfree, -⟩ := ensureTty_some hensure
        · exact .inl (by simp [hold])
        · exact .inr ⟨_, hk, hfree⟩
      rw [and_iff_left hready, ← hcontent]
      simp only [if_true, Prod.mk.injEq, true_and, Option.some.injEq]
      generalize hr : PtyRecord.mk _ _ _ _ _ = r
      have hslave : slaveTty (setPtyId (setPty u i r) j (nextPtyId w.tables)) i = some j := by
        have hpty : findPty (setPtyId (setPty u i r) j (nextPtyId w.tables)) i = some i := by
          simp [findPty, setPtyId, setPty, hiLt, ← hr]
        have hnames := (setPtyId_names (setPty u i r) j (nextPtyId w.tables)).findTty slaveName
        rw [slaveTty, hpty, Option.bind_some]
        simpa [setPtyId, setPty, ← hr] using hnames.trans hfound
      have hmaster : ((setPtyId (setPty u i r) j (nextPtyId w.tables)).ptys i).master = [] := by
        simp [setPtyId, setPty, ← hr]
      have hkept := setPtyId_content (setPty u i r) j (nextPtyId w.tables) j
      constructor
      · rintro ⟨_, k, _, ⟨rfl, rfl⟩, hk, hclean, -⟩
        obtain rfl : j = k := Option.some.inj (hslave.symm.trans hk)
        rw [hkept] at hclean
        exact hclean
      · intro hclean
        refine ⟨i, j, _, ⟨rfl, rfl⟩, hslave, ?_, hmaster⟩
        rw [hkept]
        exact hclean

def consoles : Sessions := { tables := boot ["/dev/console".toList, "/dev/tty0".toList] }

/-- A session in which nothing was written, closed again. -/
theorem startsFresh_quiet :
    StartsFresh ([.openPair [] true, .close 0].foldl record consoles).tables [] :=
  (startsFresh_iff (.along [.openPair [] true, .close 0] (.start (s := consoles) ⟨_, rfl⟩)
    (by simp [Along])) (by decide +kernel) []).2 (by decide +kernel)

/-- A session that wrote a byte, closed again. -/
def written : Sessions :=
  [.openPair [] true, .writeSlave 0 [65], .close 0].foldl record consoles

/-- The next pair has the byte among its output. -/
theorem not_startsFresh_written :
    ¬ ∀ w, Run (Obeys record fun _ _ => True) SessionStart w → openPtys w.tables < maxPtys →
      ∀ name, StartsFresh w.tables name := by
  intro h
  obtain ⟨i, j, t, hopen, hslave, hclean, -⟩ := h written (.along _ (.start ⟨_, rfl⟩)
    (by simp [Along])) (by decide +kernel) []
  obtain rfl : (radPtyOpenPair written.tables [] true).2 = t := congrArg Prod.snd hopen
  obtain rfl : 0 = i := Option.some.inj
    ((by decide +kernel : some 0 = (radPtyOpenPair written.tables [] true).1.2).trans
      (congrArg (fun r => r.1.2) hopen))
  obtain rfl : 2 = j := Option.some.inj
    ((by decide +kernel : some 2 = slaveTty (radPtyOpenPair written.tables [] true).2 0).trans hslave)
  revert hclean
  decide +kernel

end RadKernel.Tty
