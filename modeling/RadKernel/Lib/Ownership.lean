import Mathlib.Data.List.Nodup

/-!
# Exclusive ownership of marked resources

Owners `ι` refer to resources `β` at positions `π`: `refs i p b` says that owner `i`
names `b` at position `p`. Ownership is exclusive when every resource an owner names is
marked as taken and is named at one position of one owner only. A working copy of one
owner's references is `Held` when it could be put in the owner's place.

Both notions are about all references, so they survive losing references and marking more
(`mono`); `replace` puts a working copy in its owner's place.
-/

namespace RadKernel.Ownership

variable {ι π β : Type*} {marked marked' : β → Prop} {refs refs' : ι → π → β → Prop}
  {S S' : ι → Prop} {own own' other : π → β → Prop} {i j m : ι}

/-- The owners in `S` share nothing and name marked resources only. -/
structure Exclusive (marked : β → Prop) (refs : ι → π → β → Prop) (S : ι → Prop) : Prop where
  isMarked : ∀ ⦃i p b⦄, S i → refs i p b → marked b
  unique : ∀ ⦃i j p q b⦄, S i → S j → refs i p b → refs j q b → i = j ∧ p = q

/-- A copy of the references of one owner. -/
structure Held (marked : β → Prop) (refs : ι → π → β → Prop) (i : ι) (own : π → β → Prop) :
    Prop where
  isMarked : ∀ ⦃p b⦄, own p b → marked b
  unique : ∀ ⦃p q b⦄, own p b → own q b → p = q
  apart : ∀ ⦃j p q b⦄, j ≠ i → own p b → ¬refs j q b

theorem Exclusive.mono (h : Exclusive marked refs S)
    (hsub : ∀ i p b, S' i → refs' i p b → S i ∧ refs i p b)
    (hmark : ∀ i p b, S' i → refs' i p b → marked b → marked' b) :
    Exclusive marked' refs' S' where
  isMarked i p b hi hr :=
    have ⟨hS, hold⟩ := hsub i p b hi hr
    hmark i p b hi hr (h.isMarked hS hold)
  unique i j p q b hi hj hr hq :=
    have ⟨hS, hold⟩ := hsub i p b hi hr
    have ⟨hS', hold'⟩ := hsub j q b hj hq
    h.unique hS hS' hold hold'

theorem Held.mono (h : Held marked refs i own) (hown : ∀ p b, own' p b → own p b)
    (hrefs : ∀ j p b, j ≠ i → refs' j p b → refs j p b)
    (hmark : ∀ p b, own' p b → marked b → marked' b) : Held marked' refs' i own' where
  isMarked p b hr := hmark p b hr (h.isMarked (hown p b hr))
  unique p q b hp hq := h.unique (hown p b hp) (hown q b hq)
  apart j p q b hj hp hq := h.apart hj (hown p b hp) (hrefs j q b hj hq)

/-- The references of an owner are a held copy of themselves. -/
theorem Exclusive.held (h : Exclusive marked refs fun _ => True) (i : ι) :
    Held marked refs i (refs i) where
  isMarked _ _ hr := h.isMarked trivial hr
  unique _ _ _ hp hq := (h.unique trivial trivial hp hq).2
  apart _ _ _ _ hj hp hq := hj (h.unique trivial trivial hq hp).1

/-- A held copy takes the place of its owner's references, which need not have been
exclusive themselves. -/
theorem Exclusive.replace (h : Exclusive marked refs S) (hS : ∀ j, j ≠ i → S j)
    (ho : Held marked refs i own) (hself : ∀ p b, refs' i p b → own p b)
    (hrest : ∀ j p b, j ≠ i → refs' j p b → refs j p b) :
    Exclusive marked refs' fun _ => True where
  isMarked j p b _ hr := by
    by_cases hj : j = i
    · subst hj
      exact ho.isMarked (hself p b hr)
    · exact h.isMarked (hS j hj) (hrest j p b hj hr)
  unique j k p q b _ _ hp hq := by
    by_cases hj : j = i <;> by_cases hk : k = i
    · subst hj hk
      exact ⟨rfl, ho.unique (hself p b hp) (hself q b hq)⟩
    · subst hj
      exact absurd (hrest k q b hk hq) (ho.apart hk (hself p b hp))
    · subst hk
      exact absurd (hrest j p b hj hp) (ho.apart hj (hself q b hq))
    · exact h.unique (hS j hj) (hS k hk) (hrest j p b hj hp) (hrest k q b hk hq)

/-- Another held copy stays held when the first takes its owner's place, as long as the
two copies name different resources or have the same owner. -/
theorem Held.replace (h : Held marked refs m other) (hself : ∀ p b, refs' i p b → own p b)
    (hrest : ∀ j p b, j ≠ i → refs' j p b → refs j p b)
    (hapart : i ≠ m → ∀ p q b, own p b → ¬other q b) : Held marked refs' m other where
  isMarked := h.isMarked
  unique := h.unique
  apart j p q b hj hp hq := by
    by_cases hi : j = i
    · subst hi
      exact hapart hj q p b (hself q b hq) hp
    · exact h.apart hj hp (hrest j q b hi hq)

/-- The references of an owner that keeps its resources in a list. -/
def ofList (l : List β) (p : List Nat) (b : β) : Prop := ∃ j, p = [j] ∧ l[j]? = some b

variable {l : List β} {b : β}

theorem mem_of_ofList {p : List Nat} (h : ofList l p b) : b ∈ l := by
  obtain ⟨j, rfl, hj⟩ := h
  exact List.mem_of_getElem? hj

theorem exists_ofList (h : b ∈ l) : ∃ p, ofList l p b := by
  obtain ⟨j, hj⟩ := List.mem_iff_getElem?.1 h
  exact ⟨[j], j, rfl, hj⟩

variable {refs : ι → List Nat → β → Prop}

/-- Holding a list: no resource twice, all marked, none with another owner. -/
theorem held_ofList : Held marked refs i (ofList l) ↔
    l.Nodup ∧ (∀ b ∈ l, marked b) ∧ ∀ b ∈ l, ∀ j q, j ≠ i → ¬refs j q b := by
  constructor
  · intro h
    refine ⟨?_, fun b hb => ?_, fun b hb j q hj => ?_⟩
    · rw [List.nodup_iff_getElem?_ne_getElem?]
      intro j k hjk hk heq
      have hb : l[k]? = some l[k] := List.getElem?_eq_getElem hk
      have : [j] = [k] := h.unique ⟨j, rfl, heq.trans hb⟩ ⟨k, rfl, hb⟩
      simp only [List.cons.injEq, and_true] at this
      omega
    · obtain ⟨p, hp⟩ := exists_ofList hb
      exact h.isMarked hp
    · obtain ⟨p, hp⟩ := exists_ofList hb
      exact h.apart hj hp
  · rintro ⟨hnodup, hmarked, hapart⟩
    refine ⟨fun p b hp => hmarked b (mem_of_ofList hp), ?_,
      fun j p q b hj hp => hapart b (mem_of_ofList hp) j q hj⟩
    rintro p q b ⟨j, rfl, hj⟩ ⟨k, rfl, hk⟩
    have hjl := (List.getElem?_eq_some_iff.1 hj).1
    rw [(List.getElem?_inj hjl hnodup).1 (hj.trans hk.symm)]

end RadKernel.Ownership
