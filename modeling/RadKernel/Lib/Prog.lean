import Mathlib.Tactic.Common

/-!
# Programs that fail, change a state, or never return

A program over a state `σ` that can fail with `ε` is a function to `Option`: `none` is a
run that never returns, and every run that does return leaves a state, also when it
fails. `Query` is the same without the new state: what it reads it cannot change. Loops
of the verified program are ordinary recursion in these monads.
-/

namespace RadKernel

/-- A computation that only reads the state. -/
def Query (ε σ α : Type) : Type := σ → Option (Except ε α)

/-- A computation that may change the state. -/
def Prog (ε σ α : Type) : Type := σ → Option (Except ε α × σ)

variable {ε σ τ α β : Type}

namespace Query

instance : Monad (Query ε σ) where
  pure a := fun _ => some (.ok a)
  bind x f := fun s =>
    match x s with
    | none => none
    | some (.error e) => some (.error e)
    | some (.ok a) => f a s

def fail (e : ε) : Query ε σ α := fun _ => some (.error e)
def diverge : Query ε σ α := fun _ => none
def read : Query ε σ σ := fun s => some (.ok s)

/-- Run a query and hand back its outcome instead of failing with it. -/
def attempt (x : Query ε σ α) : Query ε σ (Except ε α) := fun s => (x s).map .ok

@[simp] theorem pure_apply (a : α) (s : σ) : (pure a : Query ε σ α) s = some (.ok a) := rfl

@[simp] theorem fail_apply (e : ε) (s : σ) : (fail e : Query ε σ α) s = some (.error e) := rfl

@[simp] theorem diverge_apply (s : σ) : (diverge : Query ε σ α) s = none := rfl

@[simp] theorem read_apply (s : σ) : (read : Query ε σ σ) s = some (.ok s) := rfl

theorem bind_apply (x : Query ε σ α) (f : α → Query ε σ β) (s : σ) :
    (x >>= f) s =
      match x s with
      | none => none
      | some (.error e) => some (.error e)
      | some (.ok a) => f a s := rfl

variable {x : Query ε σ α} {f : α → Query ε σ β} {s : σ}

theorem bind_eq_ok {b : β} :
    (x >>= f) s = some (.ok b) ↔ ∃ a, x s = some (.ok a) ∧ f a s = some (.ok b) := by
  rw [bind_apply]
  split <;> simp_all

theorem bind_of_ok {a : α} (h : x s = some (.ok a)) : (x >>= f) s = f a s := by
  rw [bind_apply, h]

theorem bind_of_error {e : ε} (h : x s = some (.error e)) : (x >>= f) s = some (.error e) := by
  rw [bind_apply, h]

theorem bind_of_none (h : x s = none) : (x >>= f) s = none := by
  rw [bind_apply, h]

end Query

namespace Prog

instance : Monad (Prog ε σ) where
  pure a := fun s => some (.ok a, s)
  bind x f := fun s =>
    match x s with
    | none => none
    | some (.error e, s') => some (.error e, s')
    | some (.ok a, s') => f a s'

def fail (e : ε) : Prog ε σ α := fun s => some (.error e, s)
def diverge : Prog ε σ α := fun _ => none
def read : Prog ε σ σ := fun s => some (.ok s, s)
def modify (f : σ → σ) : Prog ε σ Unit := fun s => some (.ok (), f s)

def query (q : Query ε σ α) : Prog ε σ α := fun s => (q s).map fun r => (r, s)

/-- Run a program and hand back its outcome instead of failing with it. -/
def attempt (x : Prog ε σ α) : Prog ε σ (Except ε α) :=
  fun s => (x s).map fun out => (.ok out.1, out.2)

/-- Run a program on the part of a larger state that `get` reads and `set` replaces. -/
def focus (get : τ → σ) (set : σ → τ → τ) (x : Prog ε σ α) : Prog ε τ α :=
  fun t => (x (get t)).map fun out => (out.1, set out.2 t)

@[simp] theorem pure_apply (a : α) (s : σ) : (pure a : Prog ε σ α) s = some (.ok a, s) := rfl

@[simp] theorem fail_apply (e : ε) (s : σ) : (fail e : Prog ε σ α) s = some (.error e, s) := rfl

@[simp] theorem read_apply (s : σ) : (read : Prog ε σ σ) s = some (.ok s, s) := rfl

@[simp] theorem modify_apply (f : σ → σ) (s : σ) :
    (modify f : Prog ε σ Unit) s = some (.ok (), f s) := rfl

theorem bind_apply (x : Prog ε σ α) (f : α → Prog ε σ β) (s : σ) :
    (x >>= f) s =
      match x s with
      | none => none
      | some (.error e, s') => some (.error e, s')
      | some (.ok a, s') => f a s' := rfl

variable {x : Prog ε σ α} {f : α → Prog ε σ β} {s t : σ} {b : β} {a : α} {e : ε} {r : Except ε α}
  {l : List β}

theorem bind_eq_ok :
    (x >>= f) s = some (.ok b, t) ↔
      ∃ a s', x s = some (.ok a, s') ∧ f a s' = some (.ok b, t) := by
  rw [bind_apply]
  split <;> simp_all

theorem bind_of_ok (h : x s = some (.ok a, t)) : (x >>= f) s = f a t := by
  rw [bind_apply, h]

theorem bind_of_error (h : x s = some (.error e, t)) : (x >>= f) s = some (.error e, t) := by
  rw [bind_apply, h]

theorem attempt_of (h : x s = some (r, t)) : attempt x s = some (.ok r, t) := by
  rw [attempt, h]
  rfl

theorem ite_apply {c : Prop} [Decidable c] (x y : Prog ε σ α) (s : σ) :
    (if c then x else y) s = if c then x s else y s := by
  split <;> rfl

theorem query_eq_ok {q : Query ε σ α} :
    query q s = some (.ok a, t) ↔ q s = some (.ok a) ∧ s = t := by
  unfold query
  cases q s <;> simp

theorem attempt_eq_ok : attempt x s = some (.ok r, t) ↔ x s = some (r, t) := by
  unfold attempt
  cases x s with
  | none => simp
  | some out => simp [Prod.ext_iff]

/-- From a state with `P` the run, if it returns, ends with `Q` of its value or with `E`
of its error. -/
def Triple (P : σ → Prop) (x : Prog ε σ α) (Q : α → σ → Prop) (E : ε → σ → Prop) : Prop :=
  ∀ s, P s → ∀ r s', x s = some (r, s') →
    match r with
    | .ok a => Q a s'
    | .error e => E e s'

namespace Triple

variable {P P' : σ → Prop} {Q Q' : α → σ → Prop} {R : β → σ → Prop} {E E' : ε → σ → Prop}

theorem ok {x : Prog ε σ α} (h : Triple P x Q E) {s s' : σ} {a : α} (hs : P s)
    (hx : x s = some (.ok a, s')) : Q a s' := h s hs _ _ hx

variable {x : Prog ε σ α} {s s' : σ} {e : ε} {q : Query ε σ α} {f : α → Prog ε σ β}

theorem error (h : Triple P x Q E) (hs : P s)
    (hx : x s = some (.error e, s')) : E e s' := h s hs _ _ hx

/-- What holds after a program whether it fails or not. -/
theorem keeps (h : Triple P x (fun _ => P') fun _ => P') (hs : P s) (hx : x s = some (r, s')) :
    P' s' := by
  cases r with
  | ok a => exact h.ok hs hx
  | error e => exact h.error hs hx

theorem pure (h : ∀ s, P s → Q a s) : Triple P (Pure.pure a : Prog ε σ α) Q E := by
  intro s hs r s' hx
  cases hx
  exact h s hs

theorem fail (h : ∀ s, P s → E e s) : Triple P (Prog.fail e : Prog ε σ α) Q E := by
  intro s hs r s' hx
  cases hx
  exact h s hs

theorem diverge : Triple P (Prog.diverge : Prog ε σ α) Q E := by
  intro s hs r s' hx
  cases hx

theorem modify {f : σ → σ} {Q : Unit → σ → Prop} (h : ∀ s, P s → Q () (f s)) :
    Triple P (Prog.modify f : Prog ε σ Unit) Q E := by
  intro s hs r s' hx
  cases hx
  exact h s hs

theorem query (hQ : ∀ s a, P s → q s = some (.ok a) → Q a s)
    (hE : ∀ s e, P s → q s = some (.error e) → E e s) : Triple P (Prog.query q) Q E := by
  intro s hs r s' hx
  unfold Prog.query at hx
  cases hq : q s with
  | none => simp [hq] at hx
  | some out =>
    simp only [hq, Option.map_some, Option.some.injEq, Prod.mk.injEq] at hx
    obtain ⟨rfl, rfl⟩ := hx
    cases out with
    | ok a => exact hQ s a hs hq
    | error e => exact hE s e hs hq

theorem bind (hx : Triple P x Q E) (hf : ∀ a, Triple (Q a) (f a) R E) : Triple P (x >>= f) R E := by
  intro s hs r s' hrun
  rw [bind_apply] at hrun
  split at hrun
  · cases hrun
  case h_2 e t hxs =>
    cases hrun
    exact hx.error hs hxs
  case h_3 a t hxs => exact hf a t (hx.ok hs hxs) r s' hrun

section
variable (h : Triple P x Q E) (hP : ∀ s, P' s → P s)
include h hP

theorem mono (hQ : ∀ a s, Q a s → Q' a s) (hE : ∀ e s, E e s → E' e s) : Triple P' x Q' E' := by
  intro s hs r s' hx
  cases r with
  | ok a => exact hQ a s' (h.ok (hP s hs) hx)
  | error e => exact hE e s' (h.error (hP s hs) hx)

theorem pre : Triple P' x Q E :=
  h.mono hP (fun _ _ hq => hq) fun _ _ he => he

end

theorem post (h : Triple P x Q E) (hQ : ∀ a s, Q a s → Q' a s)
    (hE : ∀ e s, E e s → E' e s) : Triple P x Q' E' :=
  h.mono (fun _ hp => hp) hQ hE

/-- It is enough to start from one state at a time. -/
theorem of_forall (h : ∀ s, P s → Triple (· = s) x Q E) : Triple P x Q E :=
  fun s hs => h s hs s rfl

/-- What a query found is known of the state it was asked in. -/
theorem bind_query (hE : ∀ s e, P s → q s = some (.error e) → E e s)
    (hf : ∀ a, Triple (fun s => P s ∧ q s = some (.ok a)) (f a) R E) :
    Triple P (Prog.query q >>= f) R E :=
  bind (query (fun _ _ hs hq => ⟨hs, hq⟩) hE) hf

/-- The state read is the state the rest starts in. -/
theorem bind_read {f : σ → Prog ε σ β} (hf : ∀ s, P s → Triple (· = s) (f s) R E) :
    Triple P (Prog.read >>= f) R E :=
  fun s hs => hf s hs s rfl

theorem ite {c : Prop} [Decidable c] {y : Prog ε σ α} (hx : c → Triple P x Q E)
    (hy : ¬c → Triple P y Q E) : Triple P (if c then x else y) Q E := by
  split
  case isTrue h => exact hx h
  case isFalse h => exact hy h

theorem attempt {S : Except ε α → σ → Prop}
    (h : Triple P x (fun a => S (.ok a)) fun e => S (.error e)) :
    Triple P (Prog.attempt x) S E := by
  intro s hs r s' hx
  unfold Prog.attempt at hx
  cases hxs : x s with
  | none => simp [hxs] at hx
  | some out =>
    obtain ⟨out, t⟩ := out
    simp only [hxs, Option.map_some, Option.some.injEq, Prod.mk.injEq] at hx
    obtain ⟨rfl, rfl⟩ := hx
    cases out with
    | ok a => exact h.ok hs hxs
    | error e => exact h.error hs hxs

theorem focus {get : τ → σ} {set : σ → τ → τ} {P' : τ → Prop}
    {Q' : α → τ → Prop} {E' : ε → τ → Prop} (h : ∀ t, P' t →
      Triple (· = get t) x (fun a s => Q' a (set s t)) fun e s => E' e (set s t)) :
    Triple P' (Prog.focus get set x) Q' E' := by
  intro t ht r t' hx
  unfold Prog.focus at hx
  cases hxs : x (get t) with
  | none => simp [hxs] at hx
  | some out =>
    obtain ⟨out, s⟩ := out
    simp only [hxs, Option.map_some, Option.some.injEq, Prod.mk.injEq] at hx
    obtain ⟨rfl, rfl⟩ := hx
    cases out with
    | ok a => exact (h t ht).ok rfl hxs
    | error e => exact (h t ht).error rfl hxs

end Triple

/-- The program returns with `I`, with a value or an error. -/
def Keeps (I : σ → Prop) (x : Prog ε σ α) : Prop := ∀ s, I s → ∃ r t, x s = some (r, t) ∧ I t

namespace Keeps

variable {I : σ → Prop}

theorem pure (a : α) : Keeps I (Pure.pure a : Prog ε σ α) := fun s hs => ⟨_, s, rfl, hs⟩

variable {x : Prog ε σ α}

theorem bind (hx : Keeps I x) (hf : ∀ a, Keeps I (f a)) : Keeps I (x >>= f) := by
  intro s hs
  obtain ⟨r, t, hr, ht⟩ := hx s hs
  rw [bind_apply, hr]
  cases r with
  | error e => exact ⟨_, t, rfl, ht⟩
  | ok a => exact hf a t ht

theorem ite {c : Prop} [Decidable c] {y : Prog ε σ α} (hx : c → Keeps I x)
    (hy : ¬c → Keeps I y) : Keeps I (if c then x else y) := by
  split
  case isTrue h => exact hx h
  case isFalse h => exact hy h

theorem forM {f : β → Prog ε σ PUnit} (h : ∀ b ∈ l, Keeps I (f b)) : Keeps I (l.forM f) := by
  induction l with
  | nil => exact Keeps.pure _
  | cons b l ih => exact Keeps.bind (h b (by simp)) fun _ => ih fun c hc => h c (by simp [hc])

end Keeps

theorem forM_cons_of_ok {f : β → Prog ε σ PUnit}
    (h : f b s = some (.ok ⟨⟩, t)) : (b :: l).forM f s = l.forM f t := by
  have hrun : (b :: l).forM f s = (f b >>= fun _ => l.forM f) s := rfl
  rw [hrun, bind_of_ok h]

theorem forM_cons_of_error {f : β → Prog ε σ PUnit}
    (h : f b s = some (.error e, t)) : (b :: l).forM f s = some (.error e, t) := by
  have hrun : (b :: l).forM f s = (f b >>= fun _ => l.forM f) s := rfl
  rw [hrun, bind_of_error h]

theorem forM_singleton (f : β → Prog ε σ PUnit) (b : β) (s : σ) : [b].forM f s = f b s := by
  have hrun : [b].forM f s = (f b >>= fun _ => pure ⟨⟩) s := rfl
  rw [hrun, bind_apply]
  cases f b s with
  | none => rfl
  | some out =>
    obtain ⟨r, t⟩ := out
    cases r <;> rfl

/-- A loop returns, with what holds of the rounds that it made. -/
theorem forM_spec {f : β → Prog ε σ PUnit} {I : List β → σ → Prop} {E : ε → σ → Prop}
    (h : ∀ l₁ b l₂, l = l₁ ++ b :: l₂ → ∀ s, I l₁ s →
      (∃ t, f b s = some (.ok ⟨⟩, t) ∧ I (l₁ ++ [b]) t) ∨
        ∃ e t, f b s = some (.error e, t) ∧ E e t) (hs : I [] s) :
    (∃ t, l.forM f s = some (.ok ⟨⟩, t) ∧ I l t) ∨
      ∃ e t, l.forM f s = some (.error e, t) ∧ E e t := by
  suffices hfrom : ∀ l₂ l₁, l = l₁ ++ l₂ → ∀ s, I l₁ s →
      (∃ t, l₂.forM f s = some (.ok ⟨⟩, t) ∧ I l t) ∨
        ∃ e t, l₂.forM f s = some (.error e, t) ∧ E e t from hfrom l [] rfl s hs
  intro l₂
  induction l₂ with
  | nil =>
    intro l₁ hl s hs
    rw [List.append_nil] at hl
    exact .inl ⟨s, rfl, hl ▸ hs⟩
  | cons b l₂ ih =>
    intro l₁ hl s hs
    obtain ⟨t, hb, ht⟩ | ⟨e, t, hb, ht⟩ := h l₁ b l₂ hl s hs
    · rw [forM_cons_of_ok hb]
      exact ih (l₁ ++ [b]) (by simp [hl]) t ht
    · exact .inr ⟨e, t, forM_cons_of_error hb, ht⟩

/-- The program returns from every state, with a value or an error. -/
def Returns (x : Prog ε σ α) : Prop := ∀ s, ∃ r s', x s = some (r, s')

namespace Returns

theorem pure (a : α) : Returns (Pure.pure a : Prog ε σ α) := fun s => ⟨_, s, rfl⟩

theorem fail (e : ε) : Returns (Prog.fail e : Prog ε σ α) := fun s => ⟨_, s, rfl⟩

theorem read : Returns (Prog.read : Prog ε σ σ) := fun s => ⟨_, s, rfl⟩

theorem modify (f : σ → σ) : Returns (Prog.modify f : Prog ε σ Unit) := fun s => ⟨_, f s, rfl⟩

theorem query {q : Query ε σ α} (h : ∀ s, q s ≠ none) : Returns (Prog.query q) := by
  intro s
  obtain ⟨r, hr⟩ := Option.ne_none_iff_exists'.1 (h s)
  exact ⟨r, s, by rw [Prog.query, hr]; rfl⟩

variable {x : Prog ε σ α}

theorem bind (hx : Returns x) (hf : ∀ a, Returns (f a)) : Returns (x >>= f) := by
  intro s
  obtain ⟨r, s', hr⟩ := hx s
  rw [bind_apply, hr]
  cases r with
  | error e => exact ⟨_, _, rfl⟩
  | ok a => exact hf a s'

theorem ite {c : Prop} [Decidable c] {y : Prog ε σ α} (hx : Returns x) (hy : Returns y) :
    Returns (if c then x else y) := by
  split
  · exact hx
  · exact hy

theorem focus {get : τ → σ} {set : σ → τ → τ} (hx : Returns x) :
    Returns (Prog.focus get set x) := by
  intro t
  obtain ⟨r, s', hr⟩ := hx (get t)
  exact ⟨r, set s' t, by rw [Prog.focus, hr]; rfl⟩

end Returns

end Prog

end RadKernel
