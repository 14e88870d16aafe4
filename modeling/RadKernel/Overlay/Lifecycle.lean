import RadKernel.Overlay.Service

/-!
# The life cycle of a service

A service that was started is stopped, or fails a poll, before it is started again. The law holds
along every run in which no running service is configured anew or disabled by a tree node; these two
take it out of `RAD_SERVICE_RUNNING` without the stop callback.
-/

namespace RadKernel.Overlay

/-! ## The law -/

/-- The last successful start has seen no stop and no failed poll. -/
def started : List Callback → Prop
  | [] => False
  | .start _ status :: calls => status = .ok ∨ started calls
  | .stop :: _ => False
  | .poll status :: calls => status = .ok ∧ started calls

/-- Starts are called when nothing is started, stops when something is. -/
def Alternates : List Callback → Prop
  | [] => True
  | .start _ _ :: calls => ¬started calls ∧ Alternates calls
  | .stop :: calls => started calls ∧ Alternates calls
  | .poll _ :: calls => started calls ∧ Alternates calls

/-- A tree node that says "disabled" about a service that runs. -/
def DisablesRunning (s : Services) (i : Nat) : Prop :=
  treeStatusIsDisabled s.tree i = true ∧
    ∃ k, serviceOfNode s i = some k ∧ (s.services k).state = .running

/-- No node that the pass over the tree comes to disables a service that runs. -/
def OrderlyNodes (answers : Nat → Status) : List Nat → Services → Prop
  | [], _ => True
  | i :: rest, s =>
    ¬DisablesRunning s i ∧
      ((configureServiceNode s i (answers i)).1 = .ok →
        OrderlyNodes answers rest (configureServiceNode s i (answers i)).2)

/-- No service that runs is configured anew, and none is disabled by a tree node. -/
def Orderly (s : Services) : ServiceCall → Prop
  | .register descriptor answers =>
    ∀ k, registerSlot s descriptor = .ok k →
      OrderlyNodes answers (List.range s.tree.nodes.length) (setService s k (newService descriptor))
  | .configure name config =>
    ∀ k, configureSlot s name config = .ok k → (s.services k).state ≠ .running
  | .configureTree i _ => ¬DisablesRunning s i
  | .bindTree answers => OrderlyNodes answers (List.range s.tree.nodes.length) s
  | _ => True

/-! ## The log -/

section
variable (s : Services)
include s

@[simp] theorem setService_services (k j : Nat) (r : ServiceRecord) :
    (setService s k r).services j = if j = k then r else s.services j := by
  simp only [setService, Function.update_apply]

@[simp] theorem setService_tree (k : Nat) (r : ServiceRecord) :
    (setService s k r).tree = s.tree := rfl

@[simp] theorem setService_callsOf (k j : Nat) (r : ServiceRecord) :
    (setService s k r).callsOf j = s.callsOf j := rfl

@[simp] theorem called_services (k : Nat) (c : Callback) :
    (called s k c).services = s.services := rfl

@[simp] theorem called_callsOf (k j : Nat) (c : Callback) :
    (called s k c).callsOf j = if j = k then c :: s.callsOf j else s.callsOf j := by
  unfold called Services.callsOf
  by_cases h : j = k
  · subst h
    simp
  · simp [h, Ne.symm h]

end

/-! ## The law is kept -/

/-- What one slot has to do with its callbacks. -/
structure LawfulAt (calls : List Callback) (r : ServiceRecord) : Prop where
  alternates : Alternates calls
  started_iff : started calls ↔ r.state = .running
  used : r.state = .running → r.used = true

def Services.Lawful (s : Services) : Prop := ∀ k, LawfulAt (s.callsOf k) (s.services k)

/-- A record that does not run, and did not. -/
theorem LawfulAt.idle {calls : List Callback} {r r' : ServiceRecord} (h : LawfulAt calls r)
    (hr : r.state ≠ .running) (hr' : r'.state ≠ .running) : LawfulAt calls r' where
  alternates := h.alternates
  started_iff := iff_of_false (fun hs => hr (h.started_iff.1 hs)) hr'
  used hs := absurd hs hr'

variable {calls : List Callback} {r r' : ServiceRecord} {s : Services} {k : Nat}

/-- A record whose state is not changed. -/
theorem LawfulAt.same (h : LawfulAt calls r)
    (hstate : r'.state = r.state) (hused : r'.used = r.used) : LawfulAt calls r' where
  alternates := h.alternates
  started_iff := by rw [h.started_iff, hstate]
  used hs := by
    rw [hused]
    exact h.used (hstate ▸ hs)

theorem LawfulAt.stop (h : LawfulAt calls r)
    (hr : r.state = .running) (hr' : r'.state ≠ .running) : LawfulAt (.stop :: calls) r' where
  alternates := ⟨h.started_iff.2 hr, h.alternates⟩
  started_iff := iff_of_false not_false hr'
  used hs := absurd hs hr'

namespace Services.Lawful

variable {s : Services} {k : Nat}

section
variable (h : s.Lawful)
include h

theorem set (hr : LawfulAt (s.callsOf k) r) : (setService s k r).Lawful := by
  intro j
  rw [setService_services, setService_callsOf]
  by_cases hj : j = k
  · subst hj
    rwa [if_pos rfl]
  · rw [if_neg hj]
    exact h j

theorem call {k : Nat} {c : Callback} {r : ServiceRecord}
    (hr : LawfulAt (c :: s.callsOf k) r) : (setService (called s k c) k r).Lawful := by
  intro j
  rw [setService_services, setService_callsOf, called_callsOf, called_services]
  by_cases hj : j = k
  · subst hj
    rwa [if_pos rfl, if_pos rfl]
  · rw [if_neg hj, if_neg hj]
    exact h j

theorem tree (t : TreeState) : Lawful { s with tree := t } := h

theorem runStart (hr : (s.services k).state ≠ .running)
    (hused : (s.services k).used = true) (answer : Status) : (runStart s k answer).Lawful := by
  refine h.call ⟨⟨fun hs => hr ((h k).started_iff.1 hs), (h k).alternates⟩, ?_, fun _ => hused⟩
  have hnot : ¬started (s.callsOf k) := fun hs => hr ((h k).started_iff.1 hs)
  cases answer <;> simp [started, hnot]

end

end Services.Lawful

theorem serviceOfNode_used {i : Nat} (h : serviceOfNode s i = some k) :
    (s.services k).used = true := by
  unfold serviceOfNode at h
  split_ifs at h
  obtain ⟨value, -, hk⟩ := Option.bind_eq_some_iff.1 h
  have hfound := List.find?_some hk
  simp only [decide_eq_true_eq] at hfound
  exact hfound.1

theorem findServiceByName_used {name : CString}
    (h : findServiceByName s name = some k) : (s.services k).used = true := by
  have hfound := List.find?_some h
  simp only [decide_eq_true_eq] at hfound
  exact hfound.1


namespace Services.Lawful

variable {s : Services}

theorem configureServiceNode (h : s.Lawful) {i : Nat} (hi : ¬DisablesRunning s i)
    (answer : Status) : (configureServiceNode s i answer).2.Lawful := by
  unfold Overlay.configureServiceNode
  cases hk : serviceOfNode s i with
  | none => exact h
  | some k =>
    have hused := serviceOfNode_used hk
    dsimp only
    split_ifs with hdisabled hrunning hstart
    · have hidle : (s.services k).state ≠ .running := fun hr => hi ⟨hdisabled, k, hk, hr⟩
      exact (h.tree _).set ((h k).idle hidle (by simp))
    · exact (h.tree _).set ((h k).same rfl rfl)
    · have hconfigured : LawfulAt (s.callsOf k)
          { configuredFrom s.tree i (s.services k) with state := .configured } :=
        (h k).idle hrunning (by simp)
      have hbound := (h.tree (setBound s.tree i true)).set hconfigured
      refine hbound.runStart ?_ ?_ answer
      · simp
      · simpa [configuredFrom] using hused
    · exact (h.tree _).set ((h k).idle hrunning (by simp))

variable {answers : Nat → Status}

section
variable (h : s.Lawful)
include h

theorem bindServiceNodes {nodes : List Nat}
    (hn : OrderlyNodes answers nodes s) : (bindServiceNodes answers nodes s).2.Lawful := by
  induction nodes generalizing s with
  | nil => exact h
  | cons i rest ih =>
    obtain ⟨hi, hrest⟩ := hn
    have hnode := h.configureServiceNode hi (answers i)
    rw [Overlay.bindServiceNodes]
    split
    · next s' hok =>
      rw [hok] at hrest hnode
      exact ih hnode (hrest rfl)
    · next status s' _ hfail =>
      rw [hfail] at hnode
      exact hnode

theorem radServiceRegister {descriptor : ServiceDescriptor}
    (ho : Orderly s (.register descriptor answers)) :
    (radServiceRegister s descriptor answers).2.Lawful := by
  unfold Overlay.radServiceRegister
  cases hslot : registerSlot s descriptor with
  | error status => exact h
  | ok k =>
    refine bindServiceNodes (h.set ?_) (ho k hslot)
    have hfree : (s.services k).used = false := by
      unfold registerSlot at hslot
      split_ifs at hslot
      cases hfind : freeService s with
      | none => simp [hfind] at hslot
      | some j =>
        rw [hfind] at hslot
        cases hslot
        simpa using List.find?_some hfind
    have hidle : (s.services k).state ≠ .running := by
      intro hr
      rw [(h k).used hr] at hfree
      cases hfree
    exact (h k).idle hidle (by simp [newService])

theorem radServiceUnregister (name : CString) : (radServiceUnregister s name).2.Lawful := by
  unfold Overlay.radServiceUnregister
  cases findServiceByName s name with
  | none => exact h
  | some k =>
    dsimp only
    split_ifs with hr
    · exact (h.call ((h k).stop hr (by simp))).tree _
    · exact (h.set ((h k).idle hr (by simp))).tree _

theorem radServiceConfigure {name : CString} {config : ServiceConfig}
    (ho : Orderly s (.configure name config)) : (radServiceConfigure s name config).2.Lawful := by
  unfold Overlay.radServiceConfigure
  cases hslot : configureSlot s name config with
  | error status => exact h
  | ok k => exact h.set ((h k).idle (ho k hslot) (by simp [configured]))

theorem radServiceStart (name : CString) (answer : Status) :
    (radServiceStart s name answer).2.Lawful := by
  unfold Overlay.radServiceStart
  cases hk : findServiceByName s name with
  | none => exact h
  | some k =>
    dsimp only
    split_ifs with hr
    · exact h
    · exact h.runStart hr (findServiceByName_used hk) answer

theorem radServiceStop (name : CString) : (radServiceStop s name).2.Lawful := by
  unfold Overlay.radServiceStop
  cases findServiceByName s name with
  | none => exact h
  | some k =>
    dsimp only
    split_ifs with hr
    · exact h
    · exact h.call ((h k).stop (not_not.1 hr) (by simp))

theorem pollServices (answers : Nat → Status) (slots : List Nat) :
    (pollServices answers slots s).2.Lawful := by
  induction slots generalizing s with
  | nil => exact h
  | cons k rest ih =>
    rw [Overlay.pollServices]
    split_ifs with hskip hok
    · exact ih h
    · have hr : (s.services k).state = .running := by
        by_contra hr
        simp [hr] at hskip
      have hstarted := (h k).started_iff.2 hr
      have hset := h.call (c := .poll (answers k))
        ⟨⟨hstarted, (h k).alternates⟩, by simp [started, hok, hstarted, hr], (h k).used⟩
      have hsame : setService (called s k (.poll (answers k))) k (s.services k) =
          called s k (.poll (answers k)) := by
        simp [setService, called]
      rw [hsame] at hset
      exact ih hset
    · have hr : (s.services k).state = .running := by
        by_contra hr
        simp [hr] at hskip
      refine h.call ⟨⟨(h k).started_iff.2 hr, (h k).alternates⟩, ?_, by simp⟩
      simp [started, hok]

theorem next {call : ServiceCall} (ho : Orderly s call) : (s.next call).Lawful := by
  cases call with
  | register descriptor answers => exact h.radServiceRegister ho
  | unregister name => exact h.radServiceUnregister name
  | configure name config => exact h.radServiceConfigure ho
  | configureTree node answer => exact h.configureServiceNode ho answer
  | bindTree answers => exact h.bindServiceNodes ho
  | start name answer => exact h.radServiceStart name answer
  | stop name => exact h.radServiceStop name
  | pollAll answers => exact h.pollServices answers _
  | loadOverlay bytes beyond => exact h.tree _

end

theorem start (hs : s.Start) : s.Lawful := by
  intro k
  have hcalls : s.callsOf k = [] := by
    rw [Services.callsOf, hs.2]
    rfl
  rw [hcalls, hs.1 k]
  exact ⟨trivial, by simp [started], by simp⟩

end Services.Lawful

/-! ## What a call adds to the log -/

def Callback.IsPoll : Callback → Prop
  | .poll _ => True
  | _ => False

/-- More callbacks were run, none of them a poll. -/
def Extends (s t : Services) : Prop :=
  ∃ new, t.calls = new ++ s.calls ∧ ∀ call ∈ new, ¬call.2.IsPoll

namespace Extends

variable {s t u : Services}

theorem of_eq (h : t.calls = s.calls) : Extends s t := ⟨[], h, by simp⟩

theorem trans (h : Extends s t) (h' : Extends t u) : Extends s u := by
  obtain ⟨new, ht, hnew⟩ := h
  obtain ⟨new', hu, hnew'⟩ := h'
  refine ⟨new' ++ new, by rw [hu, ht, List.append_assoc], ?_⟩
  intro call hcall
  rcases List.mem_append.1 hcall with hc | hc
  · exact hnew' call hc
  · exact hnew call hc

theorem call {k : Nat} {c : Callback} (hc : ¬c.IsPoll) : Extends s (called s k c) :=
  ⟨[(k, c)], rfl, by simpa using hc⟩

theorem configureServiceNode (s : Services) (i : Nat) (answer : Status) :
    Extends s (configureServiceNode s i answer).2 := by
  unfold Overlay.configureServiceNode
  cases serviceOfNode s i with
  | none => exact .of_eq rfl
  | some k =>
    dsimp only
    split_ifs
    · exact .of_eq rfl
    · exact .of_eq rfl
    · exact ⟨[(k, .start _ answer)], rfl, by simp [Callback.IsPoll]⟩
    · exact .of_eq rfl

theorem bindServiceNodes (answers : Nat → Status) (nodes : List Nat) (s : Services) :
    Extends s (bindServiceNodes answers nodes s).2 := by
  induction nodes generalizing s with
  | nil => exact .of_eq rfl
  | cons i rest ih =>
    have hnode := configureServiceNode s i (answers i)
    rw [Overlay.bindServiceNodes]
    split
    · next s' hok =>
      rw [hok] at hnode
      exact hnode.trans (ih s')
    · next status s' _ hfail =>
      rw [hfail] at hnode
      exact hnode

theorem next (s : Services) (call : ServiceCall) (hpoll : ∀ answers, call ≠ .pollAll answers) :
    Extends s (s.next call) := by
  cases call with
  | register descriptor answers =>
    rw [Services.next, radServiceRegister]
    cases registerSlot s descriptor with
    | error status => exact .of_eq rfl
    | ok k => exact bindServiceNodes answers _ (setService s k (newService descriptor))
  | unregister name =>
    rw [Services.next, radServiceUnregister]
    cases findServiceByName s name with
    | none => exact .of_eq rfl
    | some k =>
      dsimp only
      split_ifs
      · exact .call (by simp [Callback.IsPoll])
      · exact .of_eq rfl
  | configure name config =>
    rw [Services.next, radServiceConfigure]
    cases configureSlot s name config with
    | error status => exact .of_eq rfl
    | ok k => exact .of_eq rfl
  | configureTree node answer => exact configureServiceNode s node answer
  | bindTree answers => exact bindServiceNodes answers _ s
  | start name answer =>
    rw [Services.next, radServiceStart]
    cases findServiceByName s name with
    | none => exact .of_eq rfl
    | some k =>
      dsimp only
      split_ifs
      · exact .of_eq rfl
      · exact .call (by simp [Callback.IsPoll])
  | stop name =>
    rw [Services.next, radServiceStop]
    cases findServiceByName s name with
    | none => exact .of_eq rfl
    | some k =>
      dsimp only
      split_ifs
      · exact .of_eq rfl
      · exact .call (by simp [Callback.IsPoll])
  | pollAll answers => exact absurd rfl (hpoll answers)
  | loadOverlay bytes beyond => exact .of_eq rfl

theorem callsOf (h : Extends s t) (k : Nat) :
    ∃ new, t.callsOf k = new ++ s.callsOf k ∧ ∀ c ∈ new, ¬c.IsPoll := by
  obtain ⟨new, ht, hnew⟩ := h
  refine ⟨new.filterMap fun call => if call.1 = k then some call.2 else none, ?_, ?_⟩
  · rw [Services.callsOf, ht, List.filterMap_append]
    rfl
  · intro c hc
    obtain ⟨call, hcall, heq⟩ := List.mem_filterMap.1 hc
    split_ifs at heq
    cases heq
    exact hnew call hcall

end Extends

/-- What was started and is not any more was stopped, unless a poll failed. -/
theorem stop_mem_of_started {new old : List Callback} (hold : started old)
    (hnew : ¬started (new ++ old)) (hpoll : ∀ c ∈ new, ¬c.IsPoll) : Callback.stop ∈ new := by
  induction new with
  | nil => exact absurd hold hnew
  | cons c new ih =>
    have hrest : ∀ c ∈ new, ¬c.IsPoll := fun c hc => hpoll c (List.mem_cons_of_mem _ hc)
    cases c with
    | start config status =>
      have hnot : ¬started (new ++ old) := fun hs => hnew (Or.inr hs)
      exact List.mem_cons_of_mem _ (ih hnot hrest)
    | stop => exact List.mem_cons_self
    | poll status => exact absurd trivial (hpoll _ List.mem_cons_self)

/-! ## Along a run -/

/-- The law of one service, and a service that a request takes out of `RAD_SERVICE_RUNNING` has had
its stop callback run. -/
structure Services.KeepsLifecycle (s : Services) : Prop where
  alternates : ∀ k, Alternates (s.callsOf k)
  stopped : ∀ call k, Orderly s call → (∀ answers, call ≠ .pollAll answers) → s.Running k →
    ¬(s.next call).Running k →
    ∃ new, (s.next call).callsOf k = new ++ s.callsOf k ∧ Callback.stop ∈ new

/-- The law along a run. -/
theorem lifecycle_of_run {s : Services} (hs : Run (Obeys Services.next Orderly) Services.Start s) :
    s.KeepsLifecycle := by
  have hlaw : s.Lawful := by
    refine hs.invariant (fun s h => Services.Lawful.start h) ?_
    rintro s call t h ⟨ho, rfl⟩
    exact h.next ho
  refine ⟨fun k => (hlaw k).alternates, ?_⟩
  intro call k ho hpoll hrun hleft
  obtain ⟨new, hnew, hnopoll⟩ := (Extends.next s call hpoll).callsOf k
  have hafter := (hlaw.next ho) k
  refine ⟨new, hnew, stop_mem_of_started ((hlaw k).started_iff.2 hrun.2) ?_ hnopoll⟩
  rw [← hnew, hafter.started_iff]
  exact fun h => hleft ⟨hafter.used h, h⟩

theorem lifecycle_of_run_started :
    ([.register { name := text "RADCompositor" } fun _ => .ok,
      .start (text "RADCompositor") .ok].foldl Services.next {}).KeepsLifecycle := by
  refine lifecycle_of_run (Run.along _ (.start ⟨fun _ => rfl, rfl⟩) ⟨?_, trivial, trivial⟩)
  intro k _
  refine ⟨?_, fun _ => trivial⟩
  rintro ⟨hdisabled, -⟩
  revert hdisabled
  have hroot : treeStatusIsDisabled radOverlayReset 0 = false := by decide +kernel
  simp [hroot]

/-- A service is registered, started, configured anew and started again. -/
def configuredTwice : List ServiceCall :=
  [.register { name := text "RADCompositor" } fun _ => .ok, .start (text "RADCompositor") .ok,
    .configure (text "RADCompositor") {}, .start (text "RADCompositor") .ok]

theorem not_alternates_configuredTwice :
    ∃ s, Run (Obeys Services.next fun _ _ => True) Services.Start s ∧ ¬Alternates (s.callsOf 0) := by
  refine ⟨configuredTwice.foldl Services.next {}, ?_, ?_⟩
  · refine Run.along _ (.start ⟨fun _ => rfl, rfl⟩) ?_
    simp [configuredTwice, Along]
  · have hcalls : (configuredTwice.foldl Services.next {}).callsOf 0 =
        [.start { treePath := text "RADCompositor" } .ok, .start {} .ok] := by
      decide +kernel
    rw [hcalls]
    simp [Alternates, started]

end RadKernel.Overlay
