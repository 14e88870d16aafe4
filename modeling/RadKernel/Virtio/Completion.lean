import RadKernel.Virtio.Model
import RadKernel.Lib.Run
import Mathlib.Data.List.Basic

/-!
# Requests and their completion

A call takes any change of the used index for the completion of its own request, and writes over the
descriptors of an earlier one without a look at what has become of it.
-/

namespace RadKernel.Virtio

open Kernel List

variable {s : Machine} {capacity : Nat}

/-- The request lies on the device; a call that returns OK has had its own request completed. -/
def Event.Safe : Event → Prop
  | .published r capacity => r.sector.toNat + r.count.toNat ≤ capacity
  | .returned number r status completed => status = .ok → completed[number]? = some r.chain

/-- What holds of the calls that returned and of the requests that are outstanding. -/
structure Sound (s : Machine) : Prop where
  events : ∀ e ∈ s.log, e.Safe
  /-- No call has written the descriptors and the status byte of a request that is outstanding. -/
  outstanding : ∀ k, s.completed.length ≤ k → ∀ p ∈ s.published[k]?, p.1 = s.prepares

def Machine.Quiet (s : Machine) : Prop := s.completed.length = s.published.length

/-- A call whose end does not wrap around is made when nothing is outstanding, and a change that a call
sees is not the late completion of an earlier one. -/
def Settled (s : Machine) : Action → Prop
  | .call r => Accepted s.capacity r → r.sector.toNat + r.count.toNat < 2 ^ 64 ∧ s.Quiet
  | .poll => s.usedIdx ≠ s.driverUsed → s.Quiet
  | _ => True

instance (s : Machine) : Decidable s.Quiet := inferInstanceAs (Decidable (_ = _))

instance (s : Machine) : ∀ a : Action, Decidable (Settled s a)
  | .call r =>
    inferInstanceAs (Decidable (Accepted s.capacity r → r.sector.toNat + r.count.toNat < 2 ^ 64 ∧ s.Quiet))
  | .poll => inferInstanceAs (Decidable (s.usedIdx ≠ s.driverUsed → s.Quiet))
  | .publish | .giveUp | .fetch | .move _ | .report | .finish => isTrue trivial

/-! ## The invariant -/

/-- The request that the device is working on. -/
def Work.chain? : Work → Option Chain
  | .idle => none
  | .fetched chain | .moved chain _ | .reported chain => some chain

structure Inv (s : Machine) : Prop where
  behind : s.completed.length ≤ s.published.length
  single : s.published.length ≤ s.completed.length + 1
  driverAvail : s.driverAvail = s.availIdx
  availIdx : s.availIdx = u16 s.published.length
  taken : s.taken = u16 (s.completed.length + if s.work = .idle then 0 else 1)
  /-- The device works on the request that is outstanding. -/
  work : ∀ c ∈ s.work.chain?, ∃ p, s.published[s.completed.length]? = some p ∧ c = p.2.chain
  completed : ∀ k < s.completed.length, ∃ p, s.published[k]? = some p ∧
    s.completed[k]? = some p.2.chain
  /-- The descriptors are those of the request that is outstanding. -/
  outstanding : ∀ p ∈ s.published[s.completed.length]?, p.1 = s.prepares ∧ s.chain = p.2.chain
  prepared : ∀ r, s.caller = .prepared r → s.chain = r.chain ∧ s.Quiet ∧
    r.sector.toNat + r.count.toNat ≤ s.capacity
  polling : ∀ n r, s.caller = .polling n r → ∃ k, s.published[n]? = some (k, r)
  events : ∀ e ∈ s.log, e.Safe

/-- Start-up: nothing was published. -/
def Fresh (s : Machine) : Prop := ∃ capacity, s = { capacity }

namespace Inv

theorem fresh (h : Fresh s) : Inv s := by
  obtain ⟨capacity, rfl⟩ := h
  refine ⟨?_, ?_, ?_, ?_, ?_, ?_, ?_, ?_, ?_, ?_, ?_⟩
  all_goals simp [u16, Work.chain?]

section
variable (h : Inv s)
include h

theorem sound : Sound s where
  events := h.events
  outstanding k hk p hp := by
    have hlt : k < s.published.length := (List.getElem?_eq_some_iff.1 hp).1
    have hsingle := h.single
    obtain rfl : k = s.completed.length := by omega
    exact (h.outstanding p hp).1

/-! ## Steps of a call -/

theorem call (r : Request) (hr : Settled s (.call r)) : Inv (s.next (.call r)) := by
  simp only [Machine.next]
  split
  · split_ifs with haccepted
    · obtain ⟨hwrap, hquiet⟩ := hr haccepted
      have hnone : s.published[s.completed.length]? = none :=
        List.getElem?_eq_none (Nat.le_of_eq hquiet.symm)
      have hend : r.sector.toNat + r.count.toNat ≤ s.capacity := by
        have hcheck := haccepted.2.2.1
        rwa [Nat.mod_eq_of_lt hwrap] at hcheck
      refine ⟨h.behind, h.single, h.driverAvail, h.availIdx, h.taken, h.work, h.completed, ?_, ?_, ?_,
        h.events⟩
      · dsimp only
        simp [hnone]
      · rintro r' hr'
        obtain rfl : r = r' := by simpa using hr'
        exact ⟨rfl, hquiet, hend⟩
      · simp
    · exact h
  all_goals exact h

theorem publish : Inv (s.next .publish) := by
  simp only [Machine.next]
  split
  case h_1 r hcaller =>
    obtain ⟨hchain, hquiet, hend⟩ := h.prepared r hcaller
    have hlast :
    (s.published ++ [(s.prepares, r)])[s.completed.length]? = some (s.prepares, r) := by
      rw [hquiet]
      simp
    have hidle : s.work.chain? = none := by
      by_contra hne
      obtain ⟨c, hc⟩ := Option.ne_none_iff_exists'.1 hne
      obtain ⟨p, hp, -⟩ := h.work c hc
      have hlt := (List.getElem?_eq_some_iff.1 hp).1
      have hbehind : s.completed.length = s.published.length := hquiet
      omega
    have hbehind : s.completed.length = s.published.length := hquiet
    refine
      { behind := ?_, single := ?_, driverAvail := rfl, availIdx := ?_, taken := h.taken
        work := ?_, completed := ?_, outstanding := ?_, prepared := ?_, polling := ?_, events := ?_ }
    all_goals dsimp only [Machine.note]
    · rw [length_append]
      omega
    · rw [length_append, length_singleton]
      omega
    · rw [h.driverAvail, h.availIdx, length_append, length_singleton]
      simp [u16]
    · simp [hidle]
    · intro k hk
      obtain ⟨p, hp, hc⟩ := h.completed k hk
      exact ⟨p, by rw [List.getElem?_append_left (by omega), hp], hc⟩
    · intro p hp
      rw [hlast, Option.mem_some_iff] at hp
      subst hp
      exact ⟨rfl, hchain⟩
    · simp
    · intro n r' hr'
      obtain ⟨rfl, rfl⟩ : s.published.length = n ∧ r = r' := by simpa using hr'
      exact ⟨s.prepares, by simp⟩
    · intro e he
      rcases List.mem_cons.1 he with rfl | he
      · exact hend
      · exact h.events e he
  all_goals exact h

theorem returns {number : Nat} {r : Request} {status : Status} (used : Nat)
    (hsafe : status = .ok → s.completed[number]? = some r.chain) :
    Inv { s.note (.returned number r status s.completed) with
      driverUsed := used, caller := .none } := by
  refine ⟨h.behind, h.single, h.driverAvail, h.availIdx, h.taken, h.work, h.completed, h.outstanding,
    by simp, by simp, fun e he => ?_⟩
  rcases List.mem_cons.1 he with rfl | he
  · exact hsafe
  · exact h.events e he

theorem poll (hquiet : Settled s .poll) : Inv (s.next .poll) := by
  simp only [Machine.next]
  split
  case h_1 number r hcaller =>
    by_cases hchange : s.usedIdx ≠ s.driverUsed
    · rw [if_pos hchange]
      refine h.returns s.usedIdx fun _ => ?_
      obtain ⟨k, hk⟩ := h.polling number r hcaller
      have hlt := (List.getElem?_eq_some_iff.1 hk).1
      have hbehind : s.completed.length = s.published.length := hquiet hchange
      obtain ⟨p, hp, hc⟩ := h.completed number (by omega)
      rw [hk] at hp
      cases hp
      exact hc
    · rwa [if_neg hchange]
  all_goals exact h

theorem giveUp : Inv (s.next .giveUp) := by
  simp only [Machine.next]
  split
  case h_1 number r hcaller => exact h.returns s.driverUsed (by simp)
  all_goals exact h

/-! ## Steps of the device -/

theorem fetch : Inv (s.next .fetch) := by
  simp only [Machine.next]
  split_ifs with hready
  · obtain ⟨hidle, hnew⟩ := hready
    have hbehind := h.behind
    have hsingle := h.single
    have htaken := h.taken
    have havail := h.availIdx
    rw [if_pos hidle, Nat.add_zero] at htaken
    have hlt : s.completed.length < s.published.length := by
      by_contra hle
      have heq : s.completed.length = s.published.length := by omega
      rw [htaken, havail, heq] at hnew
      exact hnew rfl
    obtain ⟨p, hp⟩ : ∃ p, s.published[s.completed.length]? = some p :=
      ⟨_, List.getElem?_eq_getElem hlt⟩
    refine ⟨hbehind, hsingle, h.driverAvail, h.availIdx, ?_, ?_, h.completed, h.outstanding, h.prepared,
      h.polling, h.events⟩
    · simp [htaken, u16]
    · rintro c hc
      obtain rfl : s.chain = c := by simpa [Work.chain?] using hc
      exact ⟨p, hp, (h.outstanding p hp).2⟩
  · exact h

/-- The device goes on with the same request. -/
theorem works {work : Work} (status : Nat) (hchain : work.chain? = s.work.chain?) :
    Inv { s with work, status } := by
  have hidle : work = .idle ↔ s.work = .idle := by
    cases work <;> cases hwork : s.work <;> simp [Work.chain?, hwork] at hchain ⊢
  refine ⟨h.behind, h.single, h.driverAvail, h.availIdx, ?_, ?_, h.completed, h.outstanding, h.prepared,
    h.polling, h.events⟩
  · simpa only [hidle] using h.taken
  · simpa only [hchain] using h.work

theorem move (success : Bool) : Inv (s.next (.move success)) := by
  simp only [Machine.next]
  split
  case h_1 chain hwork => exact h.works s.status (by simp [Work.chain?, hwork])
  all_goals exact h

theorem report : Inv (s.next .report) := by
  simp only [Machine.next]
  split
  case h_1 chain success hwork => exact h.works _ (by simp [Work.chain?, hwork])
  all_goals exact h

theorem finish : Inv (s.next .finish) := by
  simp only [Machine.next]
  split
  case h_1 chain hwork =>
    obtain ⟨p, hp, hc⟩ := h.work chain (by simp [Work.chain?, hwork])
    have hlt := (List.getElem?_eq_some_iff.1 hp).1
    have hsingle := h.single
    have htaken := h.taken
    rw [hwork, if_neg (by simp)] at htaken
    refine
      { behind := ?_, single := ?_, driverAvail := h.driverAvail, availIdx := h.availIdx, taken := ?_
        work := ?_, completed := ?_, outstanding := ?_, prepared := ?_, polling := h.polling
        events := h.events }
    all_goals dsimp only
    · rw [length_append, length_singleton]
      omega
    · rw [length_append, length_singleton]
      omega
    · rw [htaken, length_append, length_singleton]
      simp
    · simp [Work.chain?]
    · intro k hk
      rw [length_append, length_singleton] at hk
      rcases Nat.lt_succ_iff_lt_or_eq.1 hk with hold | rfl
      · obtain ⟨q, hq, hqc⟩ := h.completed k hold
        exact ⟨q, hq, by rw [List.getElem?_append_left hold, hqc]⟩
      · exact ⟨p, hp, by simp [hc]⟩
    · intro q hq
      have hend := (List.getElem?_eq_some_iff.1 hq).1
      rw [length_append, length_singleton] at hend
      omega
    · intro r hr
      have hquiet : s.completed.length = s.published.length := (h.prepared r hr).2.1
      omega
  all_goals exact h

theorem next (a : Action) (ha : Settled s a) : Inv (s.next a) := by
  cases a with
  | call r => exact h.call r ha
  | publish => exact h.publish
  | poll => exact h.poll ha
  | giveUp => exact h.giveUp
  | fetch => exact h.fetch
  | move success => exact h.move success
  | report => exact h.report
  | finish => exact h.finish

end

end Inv

def readSector (sector : UInt64) (buffer : Nat) : Request := ⟨typeIn, sector, 1, buffer⟩

end RadKernel.Virtio
