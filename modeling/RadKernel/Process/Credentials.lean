import RadKernel.Process.Model
import RadKernel.Lib.Run

/-!
# Credentials of a process without privilege

What a process whose effective user is not root can do to its own ids and to those of
others with the three calls that set them. The user ids are safe in every call; the group
ids are checked by `rad_process_setgid` only.
-/

namespace RadKernel.Process

open Kernel Fd

variable {s t : KernelState} {caller pid : Int} {i j : Nat}

/-- A call that sets ids. -/
inductive CredCall where
  | setuid (uid : Nat)
  | setgid (gid : Nat)
  | setCredentials (pid : Int) (c : Credentials)
  deriving DecidableEq, Repr

namespace CredCall

def perform (caller : Int) (s : KernelState) : CredCall → KernelState
  | setuid uid => (radProcessSetuid s caller uid).2
  | setgid gid => (radProcessSetgid s caller gid).2
  | setCredentials pid c => (radProcessSetCredentials s caller pid c).2

end CredCall

/-- The ids of `now` are among the user and group ids of `start`. -/
structure AmongIds (start now : Credentials) : Prop where
  uid : now.uid = start.uid ∨ now.uid = start.euid
  euid : now.euid = start.uid ∨ now.euid = start.euid
  gid : now.gid = start.gid ∨ now.gid = start.egid
  egid : now.egid = start.gid ∨ now.egid = start.egid

/-- From `s` to `t` the process in record `i` gained no id, and no other record has new
credentials. -/
structure NoGain (i : Nat) (s t : KernelState) : Prop where
  own : AmongIds (s.processes i).credentials (t.processes i).credentials
  others : ∀ j, j ≠ i → (t.processes j).credentials = (s.processes j).credentials

def NonRoot (i : Nat) (s : KernelState) (_ : CredCall) : Prop :=
  (s.processes i).credentials.euid ≠ 0

/-- If the call replaces the credentials of record `i`, the caller's own, then with group ids
it held at the start. -/
def KeepsGroups (i : Nat) (caller : Int) (start : Credentials) (s : KernelState) :
    CredCall → Prop
  | .setCredentials pid c =>
    (pid ≤ 0 ∨ pid = caller) → c.uid = (s.processes i).credentials.uid →
      c.euid = (s.processes i).credentials.uid →
        (c.gid = start.gid ∨ c.gid = start.egid) ∧ (c.egid = start.gid ∨ c.egid = start.egid)
  | _ => True

/-! ## One call -/

theorem findProcess_setCredentials (s : KernelState) (i : Nat) (c : Credentials) (pid : Int) :
    findProcess (setCredentials s i c) pid = findProcess s pid := by
  unfold findProcess
  congr 1
  funext j
  by_cases hj : j = i
  · subst hj
    simp [setCredentials, setProcess]
  · simp [setCredentials, setProcess, hj]

@[simp] theorem setCredentials_self (s : KernelState) (i : Nat) (c : Credentials) :
    ((setCredentials s i c).processes i).credentials = c := by
  simp [setCredentials, setProcess]

theorem setCredentials_of_ne (c : Credentials) (hj : j ≠ i) :
    ((setCredentials s i c).processes j).credentials = (s.processes j).credentials := by
  simp [setCredentials, setProcess, hj]

theorem currentCredentials_eq (h : findProcess s caller = some i) :
    currentCredentials s caller = (s.processes i).credentials := by
  simp [currentCredentials, h]

variable {call : CredCall}

/-- Without privilege a call does nothing, or it replaces the caller's own credentials: by the
ids it has, or by those of an accepted `rad_process_set_credentials`. -/
theorem perform_cases (h : findProcess s caller = some i) (hroot : NonRoot i s call) :
    call.perform caller s = s ∨
      (∃ c, call.perform caller s = setCredentials s i c ∧
        AmongIds (s.processes i).credentials c ∧ ∀ pid c', call ≠ .setCredentials pid c') ∨
      ∃ pid c, call = .setCredentials pid c ∧ (pid ≤ 0 ∨ pid = caller) ∧
        c.uid = (s.processes i).credentials.uid ∧ c.euid = (s.processes i).credentials.uid ∧
        call.perform caller s = setCredentials s i c := by
  have hheld : (s.processes i).credentials.euid ≠ 0 := hroot
  cases call with
  | setuid uid =>
    simp only [CredCall.perform, radProcessSetuid, h]
    split_ifs with hcheck
    · exact .inl rfl
    · obtain rfl : uid = (s.processes i).credentials.uid := by
        by_contra hne
        exact hcheck ⟨hheld, hne⟩
      exact .inr (.inl ⟨_, rfl, ⟨.inl rfl, .inl rfl, .inl rfl, .inr rfl⟩, by simp⟩)
  | setgid gid =>
    simp only [CredCall.perform, radProcessSetgid, h]
    split_ifs with hcheck
    · exact .inl rfl
    · obtain rfl : gid = (s.processes i).credentials.gid := by
        by_contra hne
        exact hcheck ⟨hheld, hne⟩
      exact .inr (.inl ⟨_, rfl, ⟨.inl rfl, .inr rfl, .inl rfl, .inl rfl⟩, by simp⟩)
  | setCredentials pid c =>
    simp only [CredCall.perform, radProcessSetCredentials, currentCredentials_eq h]
    cases hfind : findProcess s (if pid ≤ 0 then caller else pid) with
    | none => exact .inl rfl
    | some j =>
      by_cases hself : (if pid ≤ 0 then caller else pid) = caller
      · obtain rfl : i = j := by
          rw [hself, h] at hfind
          exact Option.some.inj hfind
        have hpid : pid ≤ 0 ∨ pid = caller := by
          by_cases hle : pid ≤ 0
          · exact .inl hle
          · exact .inr (by simpa [hle] using hself)
        by_cases hids : c.uid = (s.processes i).credentials.uid ∧
            c.euid = (s.processes i).credentials.uid
        · exact .inr (.inr ⟨pid, c, rfl, hpid, hids.1, hids.2, by simp [hself, hids]⟩)
        · refine .inl ?_
          have : c.uid ≠ (s.processes i).credentials.uid ∨
              c.euid ≠ (s.processes i).credentials.uid := by
            by_contra hnot
            push Not at hnot
            exact hids hnot
          simp [hself, hheld, this]
      · exact .inl (by simp [hself, hheld])

theorem AmongIds.trans {a b c : Credentials} (h : AmongIds a b) (h' : AmongIds b c) :
    AmongIds a c where
  uid := by have := h.uid; have := h.euid; have := h'.uid; grind
  euid := by have := h.uid; have := h.euid; have := h'.euid; grind
  gid := by have := h.gid; have := h.egid; have := h'.gid; grind
  egid := by have := h.gid; have := h.egid; have := h'.egid; grind

/-- Replacing the process's own credentials gains nothing exactly when the new ids are among
the old. -/
theorem noGain_setCredentials (h : NoGain i s t) (c : Credentials) :
    NoGain i s (setCredentials t i c) ↔ AmongIds (s.processes i).credentials c := by
  constructor
  · intro h'
    simpa using h'.own
  · intro hc
    refine ⟨by simpa using hc, fun j hj => ?_⟩
    rw [setCredentials_of_ne c hj, h.others j hj]

theorem findProcess_perform (h : findProcess s caller = some i)
    (hroot : NonRoot i s call) : findProcess (call.perform caller s) caller = some i := by
  obtain heq | ⟨c, heq, -⟩ | ⟨pid, c, -, -, -, -, heq⟩ := perform_cases h hroot
  · rw [heq, h]
  · rw [heq, findProcess_setCredentials, h]
  · rw [heq, findProcess_setCredentials, h]

theorem noGain_perform_iff (h : findProcess t caller = some i)
    (hroot : NonRoot i t call) (hs : NoGain i s t) :
    NoGain i s (call.perform caller t) ↔
      KeepsGroups i caller (s.processes i).credentials t call := by
  obtain heq | ⟨c, heq, hc, hother⟩ | ⟨pid, c, rfl, hpid, huid, heuid, heq⟩ :=
    perform_cases h hroot
  · rw [heq, iff_true_left hs]
    cases call with
    | setuid | setgid => trivial
    | setCredentials pid c =>
      -- the call changed nothing, so an accepted one has set the credentials held already
      intro hpid huid heuid
      have hself : (if pid ≤ 0 then caller else pid) = caller := by
        split_ifs with hle
        · rfl
        · exact hpid.resolve_left hle
      have hset : t = setCredentials t i c := by
        simpa [CredCall.perform, radProcessSetCredentials, hself, h, currentCredentials_eq h,
          huid, heuid] using heq.symm
      rw [hset] at hs
      have := (noGain_setCredentials (by rwa [← hset] at hs) c).1 hs
      exact ⟨this.gid, this.egid⟩
  · rw [heq, noGain_setCredentials hs]
    have hkeeps : KeepsGroups i caller (s.processes i).credentials t call := by
      cases call with
      | setuid | setgid => trivial
      | setCredentials pid c' => exact absurd rfl (hother pid c')
    exact iff_of_true (hs.own.trans hc) hkeeps
  · rw [heq, noGain_setCredentials hs]
    have hown := hs.own
    constructor
    · intro hc _ _ _
      exact ⟨hc.gid, hc.egid⟩
    · intro hkeeps
      obtain ⟨hgid, hegid⟩ := hkeeps hpid huid heuid
      exact ⟨huid ▸ hown.uid, heuid ▸ hown.uid, hgid, hegid⟩

/-! ## A run of calls -/

theorem noGain_refl (i : Nat) (s : KernelState) : NoGain i s s :=
  ⟨⟨.inl rfl, .inr rfl, .inl rfl, .inr rfl⟩, fun _ _ => rfl⟩

theorem noGain_run_iff (calls : List CredCall) (h : findProcess t caller = some i)
    (hs : NoGain i s t) (hroot : Along (CredCall.perform caller) (NonRoot i) t calls) :
    (∀ made, made <+: calls → NoGain i s (made.foldl (CredCall.perform caller) t)) ↔
      Along (CredCall.perform caller) (KeepsGroups i caller (s.processes i).credentials) t
        calls := by
  induction calls generalizing t with
  | nil =>
    refine iff_of_true (fun made hmade => ?_) trivial
    rw [List.prefix_nil.1 hmade]
    exact hs
  | cons call calls ih =>
    obtain ⟨hnow, hrest⟩ := hroot
    have hstep := noGain_perform_iff h hnow hs
    have hfind := findProcess_perform h hnow
    constructor
    · intro hall
      have hcall := hall [call] (by simp)
      refine ⟨hstep.1 hcall, (ih hfind hcall hrest).1 fun made hmade => ?_⟩
      exact hall (call :: made) (List.cons_prefix_cons.2 ⟨rfl, hmade⟩)
    · rintro ⟨hkeeps, hkeepsRest⟩ made hmade
      have hcall := hstep.2 hkeeps
      cases made with
      | nil => exact hs
      | cons first made =>
        obtain ⟨rfl, htail⟩ := List.cons_prefix_cons.1 hmade
        exact (ih hfind hcall hrest).2 hkeepsRest made htail

/-- A process without privilege, in every state along a run of its calls, has only ids it held
at the start and has left the others alone, if and only if none of its accepted
`rad_process_set_credentials` names a group id it did not hold. -/
theorem noGain_iff_keepsGroups (calls : List CredCall) (h : findProcess s caller = some i)
    (hroot : Along (CredCall.perform caller) (NonRoot i) s calls) :
    (∀ made, made <+: calls → NoGain i s (made.foldl (CredCall.perform caller) s)) ↔
      Along (CredCall.perform caller) (KeepsGroups i caller (s.processes i).credentials) s
        calls :=
  noGain_run_iff calls h (noGain_refl i s) hroot

/-- A process of user and group 1000 beside the kernel. -/
def oneUser : KernelState :=
  { processes := Function.update bootProcesses 1
      { pid := 2, parentPid := 0, processGroupId := 1, sessionId := 1, state := .running,
        credentials := ⟨1000, 1000, 1000, 1000⟩, used := true } }

theorem noGain_setuid_setgid :
    NoGain 1 oneUser ([CredCall.setuid 1000, .setgid 1000,
      .setCredentials 0 ⟨1000, 1000, 1000, 1000⟩].foldl (CredCall.perform 2) oneUser) :=
  (noGain_iff_keepsGroups _ (by decide) (by unfold NonRoot; decide)).2
    (by simp only [Along, KeepsGroups]; decide) _ List.prefix_rfl

/-- Root's group in one call. -/
theorem not_noGain_setCredentials :
    ¬∀ made, made <+: [CredCall.setCredentials 0 ⟨1000, 0, 1000, 0⟩] →
      NoGain 1 oneUser (made.foldl (CredCall.perform 2) oneUser) := by
  intro h
  have hgid := (h _ List.prefix_rfl).own.gid
  revert hgid
  decide

end RadKernel.Process
