import Mathlib.Tactic.Common

/-!
# Runs of a system

A system takes steps from a state to a state, each labelled with what happened: a call, an
interrupt, a choice of the scheduler. `Run` collects the states that some sequence of steps
leads to. A condition on the steps is part of the step relation.
-/

namespace RadKernel

variable {σ κ : Type*} {next next' : σ → κ → σ → Prop} {start : σ → Prop} {s t : σ}

/-- The states reached from a start state. -/
inductive Run (next : σ → κ → σ → Prop) (start : σ → Prop) : σ → Prop
  | start {s : σ} : start s → Run next start s
  | step {s t : σ} {k : κ} : Run next start s → next s k t → Run next start t

namespace Run

/-- What holds at the start and is kept by every step holds in every state reached. -/
theorem invariant {J : σ → Prop} (h : Run next start t) (hstart : ∀ s, start s → J s)
    (hstep : ∀ s k t, J s → next s k t → J t) : J t := by
  induction h with
  | start hs => exact hstart _ hs
  | step _ hn ih => exact hstep _ _ _ ih hn

/-- A run is also one of a system that has more steps. -/
theorem mono (h : Run next start s) (hnext : ∀ s k t, next s k t → next' s k t) :
    Run next' start s := by
  induction h with
  | start hs => exact .start hs
  | step _ hn ih => exact ih.step (hnext _ _ _ hn)

end Run

/-- The steps of the function `f` that meet `ok`. -/
def Obeys (f : σ → κ → σ) (ok : σ → κ → Prop) (s : σ) (k : κ) (t : σ) : Prop :=
  ok s k ∧ t = f s k

/-- The events meet `ok`, each in the state the earlier ones lead to. -/
def Along (f : σ → κ → σ) (ok : σ → κ → Prop) : σ → List κ → Prop
  | _, [] => True
  | s, k :: ks => ok s k ∧ Along f ok (f s k) ks

instance Along.decidable (f : σ → κ → σ) (ok : σ → κ → Prop) [∀ s k, Decidable (ok s k)] :
    ∀ (s : σ) (ks : List κ), Decidable (Along f ok s ks)
  | _, [] => isTrue trivial
  | s, k :: ks =>
    have := Along.decidable f ok (f s k) ks
    inferInstanceAs (Decidable (ok s k ∧ Along f ok (f s k) ks))

variable {f : σ → κ → σ} {ok : σ → κ → Prop}

theorem Along.append {ks ks' : List κ} :
    Along f ok s (ks ++ ks') ↔ Along f ok s ks ∧ Along f ok (ks.foldl f s) ks' := by
  induction ks generalizing s with
  | nil => exact (and_iff_right trivial).symm
  | cons k ks ih => simp only [List.cons_append, Along, List.foldl_cons, ih, and_assoc]

theorem Run.along (ks : List κ) (hs : Run (Obeys f ok) start s)
    (h : Along f ok s ks) : Run (Obeys f ok) start (ks.foldl f s) := by
  induction ks generalizing s with
  | nil => exact hs
  | cons k ks ih =>
    obtain ⟨hk, hks⟩ := h
    exact ih (hs.step ⟨hk, rfl⟩) hks

/-- The property holds in every state that the events lead to, in turn. -/
def Throughout (f : σ → κ → σ) (P : σ → Prop) (s : σ) (ks : List κ) : Prop :=
  ∀ done, done <+: ks → P (done.foldl f s)

section Throughout

variable {f : σ → κ → σ} {P J : σ → Prop} {ok : σ → κ → Prop} {k : κ} {ks : List κ}

theorem throughout_nil : Throughout f P s [] ↔ P s := by
  constructor
  · intro h
    exact h [] List.prefix_rfl
  · intro h done hdone
    rw [List.prefix_nil.1 hdone]
    exact h

theorem throughout_cons : Throughout f P s (k :: ks) ↔ P s ∧ Throughout f P (f s k) ks := by
  constructor
  · intro h
    exact ⟨h [] List.nil_prefix, fun done hdone =>
      h (k :: done) (List.cons_prefix_cons.2 ⟨rfl, hdone⟩)⟩
  · rintro ⟨hfirst, hrest⟩ done hdone
    cases done with
    | nil => exact hfirst
    | cons k' done =>
      obtain ⟨rfl, hprefix⟩ := List.cons_prefix_cons.1 hdone
      exact hrest done hprefix

/-- The invariant gives the property, and an event that meets the condition keeps it; one that does
not breaks the property at once. -/
theorem throughout_iff_along (hgood : ∀ s, J s → P s) (hkeep : ∀ s k, J s → ok s k → J (f s k))
    (hbreak : ∀ s k, J s → ¬ ok s k → ¬ P (f s k)) (hs : J s) :
    Throughout f P s ks ↔ Along f ok s ks := by
  induction ks generalizing s with
  | nil => exact throughout_nil.trans (iff_of_true (hgood s hs) trivial)
  | cons k ks ih =>
    rw [throughout_cons, Along, and_iff_right (hgood s hs)]
    by_cases hok : ok s k
    · exact (ih (hkeep s k hs hok)).trans (and_iff_right hok).symm
    · exact iff_of_false (fun h => hbreak s k hs hok (h [] List.nil_prefix)) fun h => hok h.1

end Throughout

theorem Run.foldl (ks : List κ) (hs : Run (Obeys f fun _ _ => True) start s) :
    Run (Obeys f fun _ _ => True) start (ks.foldl f s) := by
  induction ks generalizing s with
  | nil => exact hs
  | cons k ks ih => exact ih (hs.step ⟨trivial, rfl⟩)

end RadKernel
