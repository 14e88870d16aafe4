import Mathlib.Data.Finset.Insert
import RadKernel.Overlay.Dma

/-!
# Accounts of DMA channels

A submit marks the handle as active before it knows whether there is a backend to take the transfer.
Where there is none, and no memory to copy either, the handle stays active although the submit
failed. All else is in order along every run.
-/

namespace RadKernel.Overlay

/-! ## Accounts -/

/-- The event ends what an earlier submit of the handle began. -/
def DmaEvent.Ends (event : DmaEvent) : Prop :=
  event = .waited .ok ∨ event = .cancelled .ok ∨ event = .requested ∨ event = .released

/-- The handle is between a submit that succeeded and the next successful wait or cancel. -/
def Outstanding (events : List DmaEvent) : Prop :=
  ∃ later earlier, events = later ++ .submitted .ok :: earlier ∧ ∀ event ∈ later, ¬ event.Ends

/-- Handles, controllers and transfers are in order. -/
structure Accounted (s : Dma) : Prop where
  distinct : ∀ j k, (s.channels j).used = true → (s.channels k).used = true →
    (s.channels j).controllerIndex = (s.channels k).controllerIndex →
    (s.channels j).index = (s.channels k).index → j = k
  held : ∀ k, (s.channels k).used = true → (s.controllerOf k).used = true ∧
    ∀ name, (radDmaControllerUnregister s name).2.controllerOf k = s.controllerOf k
  active : ∀ k, (s.channels k).active = true →
    (s.channels k).used = true ∧ Outstanding (s.eventsOf k)
  transfers : ∀ device controllerHz ops transfer txAnswer rxAnswer,
    (radSpiDeviceTransfer s device controllerHz ops transfer txAnswer rxAnswer).2.channels =
      s.channels

/-- A submit on a handle finds a callback of the backend or memory to copy, or the handle has a
transfer outstanding. -/
def Backed (s : Dma) : DmaCall → Prop
  | .channel channel (.submit transfer _) => ∀ k, channelHandle s channel = some k →
    (s.controllerOf k).ops.submit = true ∨ transfer.Copies ∨ Outstanding (s.eventsOf k)
  | _ => True

section Events

variable {event : DmaEvent} {events : List DmaEvent}

theorem not_outstanding_nil : ¬ Outstanding [] := by
  rintro ⟨later, earlier, h, -⟩
  cases later <;> cases h

theorem outstanding_cons :
    Outstanding (event :: events) ↔
      event = .submitted .ok ∨ ¬ event.Ends ∧ Outstanding events := by
  constructor
  · rintro ⟨later, earlier, h, hlater⟩
    cases later with
    | nil => exact .inl (List.cons.inj h).1
    | cons last later =>
      obtain ⟨rfl, rfl⟩ := List.cons.inj h
      exact .inr ⟨hlater event List.mem_cons_self, later, earlier, rfl,
        fun e he => hlater e (List.mem_cons_of_mem event he)⟩
  · rintro (rfl | ⟨hends, later, earlier, rfl, hlater⟩)
    · exact ⟨[], events, rfl, fun e he => by cases he⟩
    · exact ⟨event :: later, earlier, rfl, List.forall_mem_cons.2 ⟨hends, hlater⟩⟩

theorem outstanding_submitted (status : Status) :
    Outstanding (.submitted status :: events) ↔ status = .ok ∨ Outstanding events := by
  rw [outstanding_cons]
  simp [DmaEvent.Ends]

theorem outstanding_waited (status : Status) :
    Outstanding (.waited status :: events) ↔ status ≠ .ok ∧ Outstanding events := by
  rw [outstanding_cons]
  simp [DmaEvent.Ends]

theorem outstanding_cancelled (status : Status) :
    Outstanding (.cancelled status :: events) ↔ status ≠ .ok ∧ Outstanding events := by
  rw [outstanding_cons]
  simp [DmaEvent.Ends]

end Events

/-! ## States -/

namespace Dma

variable {s : Dma} {j k c : Nat} {channel : DmaChannel} {event : DmaEvent} {active : Bool}

@[simp] theorem setChannel_channels :
    (s.setChannel k channel).channels j = if j = k then channel else s.channels j := by
  simp only [setChannel, Function.update_apply]

@[simp] theorem setChannel_controllers : (s.setChannel k channel).controllers = s.controllers := rfl
@[simp] theorem setChannel_eventsOf : (s.setChannel k channel).eventsOf j = s.eventsOf j := rfl

@[simp] theorem setActive_channels : (s.setActive k active).channels j =
    if j = k then { s.channels k with active } else s.channels j :=
  setChannel_channels

@[simp] theorem setActive_controllers : (s.setActive k active).controllers = s.controllers := rfl
@[simp] theorem setActive_eventsOf : (s.setActive k active).eventsOf j = s.eventsOf j := rfl

section
variable (controller : DmaController)
include controller

@[simp] theorem setController_channels :
    (s.setController c controller).channels = s.channels := rfl

@[simp] theorem setController_controllers :
    (s.setController c controller).controllers j =
      if j = c then controller else s.controllers j := by
  simp only [setController, Function.update_apply]

@[simp] theorem setController_eventsOf :
    (s.setController c controller).eventsOf j = s.eventsOf j := rfl

end

@[simp] theorem note_channels : (s.note k event).channels = s.channels := rfl
@[simp] theorem note_controllers : (s.note k event).controllers = s.controllers := rfl

@[simp] theorem note_eventsOf :
    (s.note k event).eventsOf j = if j = k then event :: s.eventsOf j else s.eventsOf j := by
  unfold note eventsOf
  by_cases h : j = k
  · subst h
    simp
  · simp [h, Ne.symm h]

@[simp] theorem setActive_self : s.setActive k (s.channels k).active = s := by
  simp [setActive, setChannel]

@[simp] theorem setActive_setActive (active' : Bool) :
    (s.setActive k active').setActive k active = s.setActive k active := by
  simp [setActive, setChannel]

/-- The tables fit together, and only handles with a transfer outstanding are active. -/
structure Ordered (s : Dma) : Prop where
  free : ∀ k, (s.channels k).used = false → s.channels k = {}
  slot : ∀ k, (s.channels k).used = true → k < maxDmaChannels ∧
    (s.channels k).controllerIndex < maxDmaControllers ∧ (s.controllerOf k).used = true
  distinct : ∀ j k, (s.channels j).used = true → (s.channels k).used = true →
    (s.channels j).controllerIndex = (s.channels k).controllerIndex →
    (s.channels j).index = (s.channels k).index → j = k
  active : ∀ k, (s.channels k).active = true → Outstanding (s.eventsOf k)

end Dma

variable {s s' : Dma} {k : Nat}

theorem channelHandle_eq_some {channel : Option Nat} (h : channelHandle s channel = some k) :
    channel = some k ∧ (s.channels k).used = true ∧
      (s.channels k).controllerIndex < maxDmaControllers := by
  obtain ⟨rfl, hk⟩ := Option.filter_eq_some_iff.1 h
  exact ⟨rfl, by simpa using hk⟩

namespace Dma.Ordered

theorem start : Ordered {} where
  free k _ := rfl
  slot k h := by cases h
  distinct j k h := by cases h
  active k h := by cases h

/-- A controller is entered in a slot that no handle denotes. -/
theorem setController (h : s.Ordered) {c : Nat} (controller : DmaController)
    (hc : ∀ k, (s.channels k).used = true → (s.channels k).controllerIndex ≠ c) :
    (s.setController c controller).Ordered where
  free := h.free
  slot k hk := by
    obtain ⟨hslot, hlt, hused⟩ := h.slot k hk
    refine ⟨hslot, hlt, ?_⟩
    rw [controllerOf, setController_controllers, setController_channels, if_neg (hc k hk)]
    exact hused
  distinct := h.distinct
  active := h.active

/-- A handle is written that no other denotes. -/
theorem setChannel (h : s.Ordered) {channel : DmaChannel} {event : DmaEvent}
    (hk : k < maxDmaChannels) (hfree : channel.used = false → channel = {})
    (hslot : channel.used = true → channel.controllerIndex < maxDmaControllers ∧
      (s.controllers channel.controllerIndex).used = true ∧
      ∀ j, j ≠ k → (s.channels j).used = true →
        ¬ ((s.channels j).controllerIndex = channel.controllerIndex ∧
          (s.channels j).index = channel.index))
    (hactive : channel.active = true → Outstanding (event :: s.eventsOf k)) :
    ((s.setChannel k channel).note k event).Ordered where
  free j := by
    simp only [note_channels, setChannel_channels]
    split_ifs
    · exact hfree
    · exact h.free j
  slot j := by
    simp only [controllerOf, note_channels, note_controllers, setChannel_channels,
      setChannel_controllers]
    split_ifs with hj
    · subst hj
      exact fun hused => ⟨hk, (hslot hused).1, (hslot hused).2.1⟩
    · exact h.slot j
  distinct i j := by
    simp only [note_channels, setChannel_channels]
    have := h.distinct i j
    grind
  active j := by
    simp only [note_channels, note_eventsOf, setChannel_channels, setChannel_eventsOf]
    split_ifs with hj
    · exact hj ▸ hactive
    · exact h.active j

end Dma.Ordered

/-! ## Calls -/

/-- A handle for a channel of a controller that no other handle denotes. -/
def Grants (s : Dma) (k : Nat) (channel : DmaChannel) : Prop :=
  k < maxDmaChannels ∧ s.channels k = {} ∧ channel.used = true ∧ channel.active = false ∧
    channel.controllerIndex < maxDmaControllers ∧
    (s.controllers channel.controllerIndex).used = true ∧
    ∀ j, (s.channels j).used = true →
      ¬ ((s.channels j).controllerIndex = channel.controllerIndex ∧
        (s.channels j).index = channel.index)

theorem freeChannel_eq_some {c index : Nat} (h : freeChannel s c = some index) :
    (s.controllers c).used = true ∧ channelInUse s c index = false := by
  unfold freeChannel at h
  split_ifs at h with hused
  exact ⟨by simpa using hused, by simpa using List.find?_some h⟩

theorem radDmaChannelRequest_cases (h : s.Ordered) (requestId : DmaRequestId)
    (answer : Status × Nat) :
    (∃ status, status ≠ .ok ∧ radDmaChannelRequest s requestId answer = (status, none, s)) ∨
    ∃ k channel, Grants s k channel ∧ radDmaChannelRequest s requestId answer =
      (.ok, some k, (s.setChannel k channel).note k .requested) := by
  unfold radDmaChannelRequest
  cases hnext : (List.range maxDmaControllers).findSome?
      fun c => (freeChannel s c).map fun i => (c, i) with
  | none => exact .inl ⟨_, by decide, rfl⟩
  | some next =>
    obtain ⟨controllerIndex, index⟩ := next
    obtain ⟨c, hc, hmap⟩ := List.exists_of_findSome?_eq_some hnext
    obtain ⟨i, hfree, heq⟩ := Option.map_eq_some_iff.1 hmap
    obtain ⟨rfl, rfl⟩ := Prod.mk.inj heq
    obtain ⟨hused, hinUse⟩ := freeChannel_eq_some hfree
    cases hslot : (List.range maxDmaChannels).find? fun k => !(s.channels k).used with
    | none => exact .inl ⟨_, by decide, rfl⟩
    | some k =>
      have hk : s.channels k = {} := h.free k (by simpa using List.find?_some hslot)
      have hlt : k < maxDmaChannels := List.mem_range.1 (List.mem_of_find?_eq_some hslot)
      have hgrants : ∀ backendChannel, Grants s k
          { controllerIndex := c, index := i, requestId, backendChannel, used := true } := by
        refine fun backendChannel => ⟨hlt, hk, rfl, rfl, List.mem_range.1 hc, hused,
          fun j hj hsame => ?_⟩
        have hnone := List.any_eq_false.1 hinUse j (List.mem_range.2 (h.slot j hj).1)
        exact hnone (decide_eq_true ⟨hj, hsame⟩)
      dsimp only
      split_ifs with hcallback hanswer
      · exact .inr ⟨k, _, hgrants _, rfl⟩
      · refine .inl ⟨_, hanswer, ?_⟩
        rw [← hk]
        simp [Dma.setChannel]
      · exact .inr ⟨k, _, hgrants _, rfl⟩

/-- What a call on a channel does: nothing to a channel that is no handle, or it writes the handle.
The handle is in order afterwards when the call is backed, and not otherwise. -/
theorem perform_cases (h : s.Ordered) (channel : Option Nat) (call : ChannelCall) :
    (channelHandle s channel = none ∧ call.perform s channel = s) ∨
    ∃ k event, channelHandle s channel = some k ∧
      ((call = .release ∧ call.perform s channel = (s.setChannel k {}).note k event) ∨
      ∃ active, call.perform s channel = (s.setActive k active).note k event ∧
        ((active = true → Outstanding (event :: s.eventsOf k)) ↔
          Backed s (.channel channel call))) := by
  cases hhandle : channelHandle s channel with
  | none =>
    refine .inl ⟨rfl, ?_⟩
    cases call <;> simp [ChannelCall.perform, radDmaChannelRelease, radDmaSubmit, radDmaWait,
      radDmaCancel, hhandle]
  | some k =>
    refine .inr ⟨k, ?_⟩
    obtain ⟨-, hk, -⟩ := channelHandle_eq_some hhandle
    obtain ⟨-, -, hcontroller⟩ := h.slot k hk
    have hlive := h.active k
    cases call with
    | release =>
      exact ⟨.released, rfl, .inl ⟨rfl, by simp [ChannelCall.perform, radDmaChannelRelease, hhandle]⟩⟩
    | submit transfer answer =>
      by_cases hsubmit : (s.controllerOf k).ops.submit = true
      · refine ⟨.submitted answer, rfl, .inr ⟨decide (answer = .ok), ?_, ?_⟩⟩
        · by_cases hanswer : answer = .ok <;>
            simp [ChannelCall.perform, radDmaSubmit, hhandle, hcontroller, hsubmit, hanswer]
        · rw [outstanding_submitted]
          simp +contextual [Backed, hhandle, hsubmit]
      · by_cases hcopies : transfer.Copies
        · refine ⟨.submitted .ok, rfl, .inr ⟨false, ?_, ?_⟩⟩
          · simp [ChannelCall.perform, radDmaSubmit, hhandle, hcontroller, hsubmit, hcopies]
          · simp [Backed, hhandle, hcopies]
        · refine ⟨.submitted .notSupported, rfl, .inr ⟨true, ?_, ?_⟩⟩
          · simp [ChannelCall.perform, radDmaSubmit, hhandle, hcontroller, hsubmit, hcopies]
          · simp [Backed, hhandle, hsubmit, hcopies, outstanding_submitted]
    | wait answer =>
      set status := if (s.controllerOf k).ops.wait then answer else .ok with hstatus
      refine ⟨.waited status, rfl,
        .inr ⟨if status = .ok then false else (s.channels k).active, ?_, iff_of_true ?_ trivial⟩⟩
      · by_cases hok : status = .ok <;>
          simp [ChannelCall.perform, radDmaWait, hhandle, hcontroller, ← hstatus, hok]
      · rw [outstanding_waited]
        grind
    | cancel answer =>
      set status := if (s.controllerOf k).ops.cancel then answer else .ok with hstatus
      refine ⟨.cancelled status, rfl,
        .inr ⟨if status = .ok then false else (s.channels k).active, ?_, iff_of_true ?_ trivial⟩⟩
      · by_cases hok : status = .ok <;>
          simp [ChannelCall.perform, radDmaCancel, hhandle, hcontroller, ← hstatus, hok]
      · rw [outstanding_cancelled]
        grind

theorem Dma.Ordered.request (h : s.Ordered) {channel : DmaChannel} (hgrants : Grants s k channel) :
    ((s.setChannel k channel).note k .requested).Ordered := by
  obtain ⟨hk, hfree, hused, hinactive, hlt, hcontroller, hapart⟩ := hgrants
  refine h.setChannel hk (fun hnot => ?_) (fun _ => ⟨hlt, hcontroller, fun j _ => hapart j⟩)
    fun hactive => ?_
  · rw [hused] at hnot
    cases hnot
  · rw [hinactive] at hactive
    cases hactive

variable {call : DmaCall}

theorem Dma.Ordered.next (h : s.Ordered) (hbacked : Backed s call) : (s.next call).Ordered := by
  cases call with
  | controllerRegister name channelCount ops =>
    simp only [Dma.next, radDmaControllerRegister]
    split_ifs
    · exact h
    · cases hfind : (List.range maxDmaControllers).find? fun c => !(s.controllers c).used with
      | none => exact h
      | some c =>
        refine h.setController _ fun k hk heq => ?_
        have hunused := List.find?_some hfind
        have hused := (h.slot k hk).2.2
        rw [controllerOf, heq] at hused
        simp [hused] at hunused
  | controllerUnregister name =>
    simp only [Dma.next, radDmaControllerUnregister]
    split
    · exact h
    · split_ifs with hheld
      · exact h
      · refine h.setController _ fun k hk heq => hheld ⟨k, (h.slot k hk).1, hk, heq⟩
  | channelRequest requestId answer =>
    rw [Dma.next]
    rcases radDmaChannelRequest_cases h requestId answer with
      ⟨status, -, heq⟩ | ⟨k, channel, hgrants, heq⟩
    · rwa [heq]
    · rw [heq]
      exact h.request hgrants
  | channel channel call =>
    rw [Dma.next]
    rcases perform_cases h channel call with
      ⟨-, heq⟩ | ⟨k, event, hhandle, ⟨-, heq⟩ | ⟨active, heq, hiff⟩⟩
    · rwa [heq]
    · obtain ⟨-, hk, -⟩ := channelHandle_eq_some hhandle
      rw [heq]
      exact h.setChannel (h.slot k hk).1 (fun _ => rfl) (fun hused => by cases hused)
        fun hactive => by cases hactive
    · obtain ⟨-, hk, -⟩ := channelHandle_eq_some hhandle
      obtain ⟨hslot, hlt, hused⟩ := h.slot k hk
      rw [heq]
      refine h.setChannel hslot (fun hnot => ?_) (fun _ => ⟨hlt, hused, fun j hj hjused hsame => ?_⟩)
        (hiff.2 hbacked)
      · exact absurd (hk.symm.trans hnot) Bool.noConfusion
      · exact hj (h.distinct j k hjused hk hsame.1 hsame.2)

/-- A submit that is not backed leaves a handle active that has no transfer outstanding. -/
theorem Dma.Ordered.not_backed (h : s.Ordered) (hbacked : ¬ Backed s call) :
    ∃ k, ((s.next call).channels k).active = true ∧ ¬ Outstanding ((s.next call).eventsOf k) := by
  cases call with
  | channel channel call =>
    rw [Dma.next]
    rcases perform_cases h channel call with
      ⟨hnone, -⟩ | ⟨k, event, hhandle, ⟨rfl, -⟩ | ⟨active, heq, hiff⟩⟩
    · cases call <;> simp [Backed, hnone] at hbacked
    · exact absurd trivial hbacked
    · rw [← hiff, Classical.not_imp] at hbacked
      exact ⟨k, by simpa [heq] using hbacked⟩
  | _ => exact absurd trivial hbacked

/-! ## Transfers -/

theorem radDmaChannelRelease_channels (channel : Option Nat) (j : Nat) :
    (radDmaChannelRelease s channel).channels j =
      if channelHandle s channel = some j then {} else s.channels j := by
  unfold radDmaChannelRelease
  cases channelHandle s channel with
  | none => simp
  | some k => simp [eq_comm]

theorem perform_channels (channel : Option Nat) (call : ChannelCall) (j : Nat) :
    (call.perform s channel).channels j = s.channels j ∨
      channel = some j ∧ ((call.perform s channel).channels j = {} ∨
        ((call.perform s channel).channels j).used = true ∧
        ((call.perform s channel).channels j).controllerIndex < maxDmaControllers) := by
  by_cases hhandle : channelHandle s channel = some j
  · obtain ⟨rfl, hused, hlt⟩ := channelHandle_eq_some hhandle
    refine .inr ⟨rfl, ?_⟩
    cases call with
    | release => exact .inl (by rw [ChannelCall.perform, radDmaChannelRelease_channels, if_pos hhandle])
    | _ =>
      refine .inr ?_
      simp only [ChannelCall.perform, radDmaSubmit, radDmaWait, radDmaCancel, hhandle]
      split_ifs <;> simp [hused, hlt]
  · left
    cases call with
    | release => rw [ChannelCall.perform, radDmaChannelRelease_channels, if_neg hhandle]
    | _ =>
      simp only [ChannelCall.perform, radDmaSubmit, radDmaWait, radDmaCancel]
      cases hother : channelHandle s channel with
      | none => rfl
      | some k =>
        have hj : j ≠ k := fun heq => hhandle (heq ▸ hother)
        dsimp only
        split_ifs <;> simp [hj]

/-- The handles are those of before but for some that were free, and can be released. -/
def Borrowed (s s' : Dma) (mine : Nat → Prop) : Prop :=
  (∀ k, ¬ mine k → s'.channels k = s.channels k) ∧
    ∀ k, mine k → s.channels k = {} ∧ (s'.channels k = {} ∨ (s'.channels k).used = true ∧
      (s'.channels k).controllerIndex < maxDmaControllers)

namespace Borrowed

variable {mine : Nat → Prop} {channel tx rx : Option Nat}

theorem perform (h : Borrowed s s' mine) (hchannel : ∀ k, channel = some k → mine k)
    (call : ChannelCall) : Borrowed s (call.perform s' channel) mine := by
  refine ⟨fun k hk => ?_, fun k hk => ⟨(h.2 k hk).1, ?_⟩⟩
  · rcases perform_channels channel call k with hsame | ⟨hhere, -⟩
    · exact hsame.trans (h.1 k hk)
    · exact absurd (hchannel k hhere) hk
  · rcases perform_channels channel call k with hsame | ⟨-, hcleared | hheld⟩
    · rw [hsame]
      exact (h.2 k hk).2
    · exact .inl hcleared
    · exact .inr hheld

theorem performAll (calls : List (Bool × ChannelCall)) (h : Borrowed s s' mine)
    (htx : ∀ k, tx = some k → mine k) (hrx : ∀ k, rx = some k → mine k) :
    Borrowed s (performAll s' tx rx calls) mine := by
  induction calls generalizing s' with
  | nil => exact h
  | cons call calls ih =>
    refine ih (h.perform ?_ call.2)
    split_ifs
    · exact hrx
    · exact htx

theorem release (h : Borrowed s s' mine) (hfree : ∀ k, channel = some k → s.channels k = {}) :
    Borrowed s (radDmaChannelRelease s' channel) fun k => mine k ∧ channel ≠ some k := by
  refine ⟨fun k hk => ?_, fun k hk => ?_⟩
  · rw [radDmaChannelRelease_channels]
    by_cases hhere : channel = some k
    · have hnow : s'.channels k = {} ∨ (s'.channels k).used = true ∧
          (s'.channels k).controllerIndex < maxDmaControllers := by
        by_cases hmine : mine k
        · exact (h.2 k hmine).2
        · exact .inl ((h.1 k hmine).trans (hfree k hhere))
      rw [hfree k hhere]
      split_ifs with hhandle
      · rfl
      · exact hnow.resolve_right fun hheld => hhandle (by simp [channelHandle, hhere, hheld])
    · rw [if_neg fun hhandle => hhere (channelHandle_eq_some hhandle).1]
      exact h.1 k fun hmine => hk ⟨hmine, hhere⟩
  · rw [radDmaChannelRelease_channels, if_neg fun hhandle => hk.2 (channelHandle_eq_some hhandle).1]
    exact h.2 k hk.1

theorem channels_eq (h : Borrowed s s' fun k => tx = some k ∨ rx = some k) :
    (radDmaChannelRelease (radDmaChannelRelease s' tx) rx).channels = s.channels := by
  have hreleased := (h.release fun k hk => (h.2 k (.inl hk)).1).release
    fun k hk => (h.2 k (.inr hk)).1
  exact funext fun k => hreleased.1 k (by tauto)

theorem request (hs : s'.Ordered) (h : Borrowed s s' mine) (requestId : DmaRequestId)
    (answer : Status × Nat) :
    let result := radDmaChannelRequest s' requestId answer
    Borrowed s result.2.2 (fun k => mine k ∨ result.2.1 = some k) ∧ result.2.2.Ordered := by
  rcases radDmaChannelRequest_cases hs requestId answer with
    ⟨status, -, heq⟩ | ⟨k, channel, hgrants, heq⟩
  · simpa [heq] using And.intro h hs
  · have hordered := hs.request hgrants
    obtain ⟨-, hfree, hused, -, hlt, -⟩ := hgrants
    simp only [heq]
    refine ⟨⟨fun j hj => ?_, fun j hj => ?_⟩, hordered⟩
    · have hne : j ≠ k := fun hjk => hj (.inr (hjk ▸ rfl))
      simpa [hne] using h.1 j fun hmine => hj (.inl hmine)
    · by_cases hjk : j = k
      · subst hjk
        refine ⟨?_, .inr (by simp [hused, hlt])⟩
        by_cases hmine : mine j
        · exact (h.2 j hmine).1
        · exact (h.1 j hmine).symm.trans hfree
      · have hmine : mine j := hj.resolve_right fun hsome => hjk (Option.some.inj hsome).symm
        simpa [hjk] using h.2 j hmine

end Borrowed

/-- A transfer of an SPI device releases the channels it took, however it ends. -/
theorem radSpiDeviceTransfer_channels (h : s.Ordered) (device : BusDevice) (controllerHz : Nat)
    (ops : SpiControllerOps) (transfer : SpiTransfer) (txAnswer rxAnswer : Status × Nat) :
    (radSpiDeviceTransfer s device controllerHz ops transfer txAnswer rxAnswer).2.channels =
      s.channels := by
  have hstart : Borrowed s s fun _ => False := ⟨fun _ _ => rfl, fun _ hk => hk.elim⟩
  unfold radSpiDeviceTransfer
  by_cases hwants : wantsDma s (transfer.routed device controllerHz)
  · rw [if_pos hwants]
    cases ops.transferDma with
    | none =>
      split_ifs <;> rfl
    | some transferDma =>
      dsimp only
      generalize (if device.busId = 0 then DmaRequestId.spi0Tx else .spi1Tx) = txId
      generalize (if device.busId = 0 then DmaRequestId.spi0Rx else .spi1Rx) = rxId
      obtain ⟨htx, hordered⟩ := Borrowed.request h hstart txId txAnswer
      obtain ⟨hboth, -⟩ := Borrowed.request hordered htx rxId rxAnswer
      simp only [false_or] at htx hboth
      have hone : Borrowed s (radDmaChannelRequest s txId txAnswer).2.2 fun k =>
          (radDmaChannelRequest s txId txAnswer).2.1 = some k ∨ none = some k := by
        simpa using htx
      split_ifs
      · exact (hboth.performAll _ (fun _ => .inl) fun _ => .inr).channels_eq
      · exact (hboth.performAll _ (fun _ => .inl) fun _ => .inr).channels_eq
      · exact hboth.channels_eq
      · exact hboth.channels_eq
      · exact hone.channels_eq
      · exact hone.channels_eq
  · rw [if_neg hwants]

/-! ## Runs -/

theorem Dma.Ordered.accounted (h : s.Ordered) : Accounted s where
  distinct := h.distinct
  held k hk := by
    refine ⟨(h.slot k hk).2.2, fun name => ?_⟩
    unfold radDmaControllerUnregister
    split
    · rfl
    · split_ifs with hheld
      · rfl
      · simp only [Dma.controllerOf, Dma.setController_controllers, Dma.setController_channels]
        exact if_neg fun heq => hheld ⟨k, (h.slot k hk).1, hk, heq⟩
  active k hk := by
    refine ⟨?_, h.active k hk⟩
    by_contra hunused
    rw [h.free k (by simpa using hunused)] at hk
    cases hk
  transfers := radSpiDeviceTransfer_channels h

/-- Handles, controllers and transfers are in order along a run exactly when every submit of the run
is backed. -/
theorem accounted_iff (calls : List DmaCall) :
    Throughout Dma.next Accounted {} calls ↔ Along Dma.next Backed {} calls := by
  refine throughout_iff_along (fun s h => h.accounted) (fun s call h => h.next)
    (fun s call h hbacked haccounted => ?_) Dma.Ordered.start
  obtain ⟨k, hactive, hnot⟩ := h.not_backed hbacked
  exact hnot (haccounted.active k hactive).2

/-- A controller without callbacks, a channel of it, and a transfer to a device. -/
def deviceCalls : List DmaCall :=
  [.controllerRegister (text "dma0") 2 {}, .channelRequest .none (.ok, 0),
    .channel (some 0) (.submit { type := .memoryToDevice } .ok)]

/-- The submit fails and the handle is active. -/
theorem not_accounted_device : ¬ ∀ calls, Throughout Dma.next Accounted {} calls := by
  intro hall
  have hactive := (hall deviceCalls deviceCalls List.prefix_rfl).active 0 (by decide)
  rw [show (deviceCalls.foldl Dma.next {}).eventsOf 0 = [.submitted .notSupported, .requested] from
    rfl] at hactive
  simp [outstanding_cons, not_outstanding_nil, DmaEvent.Ends] at hactive

end RadKernel.Overlay
