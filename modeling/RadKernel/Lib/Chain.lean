import Mathlib.Data.List.Nodup

/-!
# Chains of links in a table

A table holds one link for each node: the next node of its chain, a mark that ends the chain, or
0 for a node not in use. Owners hold chains by their first nodes, 0 standing for none, and no two
owners share a node. Some nodes are kept: they are in use and belong to no owner.
-/

namespace RadKernel

open Function

variable {α ι κ : Type*} {stop dom kept : α → Prop} {next next' : α → α} {a b c : α}
  {l l' : List α} {first : ι → α} {o : ι}

/-- The nodes from `a` on, up to the one whose link is a mark. -/
inductive Chain (stop : α → Prop) (next : α → α) : α → List α → Prop
  | last {a : α} : stop (next a) → Chain stop next a [a]
  | link {a : α} {l : List α} : ¬stop (next a) → Chain stop next (next a) l →
      Chain stop next a (a :: l)

namespace Chain

section
variable (h : Chain stop next a l)
include h

theorem unique (h' : Chain stop next a l') : l = l' := by
  induction h generalizing l' with
  | last hstop =>
    cases h' with
    | last => rfl
    | link hgo => exact absurd hstop hgo
  | link hgo _ ih =>
    cases h' with
    | last hstop => exact absurd hstop hgo
    | link _ h' => rw [ih h']

theorem head_mem : a ∈ l := by
  cases h <;> simp

/-- What is left of a chain from one of its nodes on. -/
theorem rest (hc : c ∈ l) : ∃ before after, l = before ++ after ∧ Chain stop next c after := by
  induction h with
  | last hstop =>
    obtain rfl := List.mem_singleton.1 hc
    exact ⟨[], _, rfl, .last hstop⟩
  | @link a l hgo h ih =>
    rcases List.mem_cons.1 hc with rfl | hc
    · exact ⟨[], _, rfl, .link hgo h⟩
    · obtain ⟨before, after, rfl, hafter⟩ := ih hc
      exact ⟨a :: before, after, rfl, hafter⟩

/-- A chain does not come back to a node. -/
theorem nodup : l.Nodup := by
  induction h with
  | last => simp
  | @link a l hgo h ih =>
    refine List.nodup_cons.2 ⟨fun ha => ?_, ih⟩
    -- a second chain from `a` on would be shorter than itself
    obtain ⟨before, after, rfl, hafter⟩ := h.rest ha
    have hlength := congrArg List.length (hafter.unique (.link hgo h))
    simp only [List.length_cons, List.length_append] at hlength
    omega

theorem congr (hsame : ∀ c ∈ l, next' c = next c) : Chain stop next' a l := by
  induction h with
  | @last a hstop =>
    refine .last ?_
    rwa [hsame a (by simp)]
  | @link a l hgo _ ih =>
    have ha := hsame a (by simp)
    refine .link (by rwa [ha]) ?_
    rw [ha]
    exact ih fun c hc => hsame c (by simp [hc])

/-- The node after one that is not the last. -/
theorem next_mem (hc : c ∈ l) (hgo : ¬stop (next c)) : next c ∈ l := by
  obtain ⟨before, after, rfl, hafter⟩ := h.rest hc
  cases hafter with
  | last hstop => exact absurd hstop hgo
  | link _ hafter => simp [hafter.head_mem]

theorem getElem?_zero : l[0]? = some a := by
  cases h <;> rfl

/-- A node is the last one, or the next node is behind it. -/
theorem getElem?_succ {k : Nat} (hk : l[k]? = some c) :
    stop (next c) ∧ l.length = k + 1 ∨ ¬stop (next c) ∧ l[k + 1]? = some (next c) := by
  induction h generalizing k with
  | last hstop =>
    cases k with
    | zero =>
      cases hk
      exact .inl ⟨hstop, rfl⟩
    | succ k => cases hk
  | link hgo h ih =>
    cases k with
    | zero =>
      cases hk
      exact .inr ⟨hgo, h.getElem?_zero⟩
    | succ k =>
      simpa using ih hk

/-- A node with a mark linked after the last one. -/
theorem grow [DecidableEq α] (hb : b ∈ l) (hlast : stop (next b))
    (hc : c ∉ l) (hgo : ¬stop c) (hnext : ∀ x ∈ l, x ≠ b → next' x = next x) (hlink : next' b = c)
    (hmark : stop (next' c)) : Chain stop next' a (l ++ [c]) := by
  induction h with
  | @last a hstop =>
    obtain rfl := List.mem_singleton.1 hb
    refine .link (by rwa [hlink]) ?_
    rw [hlink]
    exact .last hmark
  | @link a l hcontinue h ih =>
    have hab : a ≠ b := by
      rintro rfl
      exact hcontinue hlast
    have ha := hnext a (by simp) hab
    refine .link (by rwa [ha]) ?_
    rw [ha]
    refine ih ?_ (by simp_all) fun x hx => hnext x (by simp [hx])
    rcases List.mem_cons.1 hb with rfl | hb
    · exact absurd rfl hab
    · exact hb

end

end Chain

variable [Zero α]

/-- Every owner with a first node has a chain of nodes in use, apart from the others. -/
structure HeldChains (stop dom kept : α → Prop) (next : α → α) (first : ι → α) : Prop where
  chain : ∀ o, first o ≠ 0 → ∃ l, Chain stop next (first o) l ∧
    ∀ c ∈ l, dom c ∧ ¬kept c ∧ next c ≠ 0
  apart : ∀ o o', o ≠ o' → first o ≠ 0 → first o' ≠ 0 → ∀ l l',
    Chain stop next (first o) l → Chain stop next (first o') l' → l.Disjoint l'
  used : ∀ c, kept c → next c ≠ 0

namespace HeldChains

section
variable (h : HeldChains stop dom kept next first)
include h

theorem mem (ho : first o ≠ 0)
    (hl : Chain stop next (first o) l) (hc : c ∈ l) : dom c ∧ ¬kept c ∧ next c ≠ 0 := by
  obtain ⟨l', hl', hmem⟩ := h.chain o ho
  obtain rfl := hl.unique hl'
  exact hmem c hc

/-- Chains change hands, or are left behind. -/
theorem reindex {first' : κ → α} (f : κ → ι) (hfirst : ∀ k, first' k ≠ 0 → first' k = first (f k))
    (hinj : ∀ k k', first' k ≠ 0 → first' k' ≠ 0 → f k = f k' → k = k') :
    HeldChains stop dom kept next first' where
  chain k hk := by
    have hsame := hfirst k hk
    rw [hsame]
    exact h.chain (f k) (hsame ▸ hk)
  apart k k' hne hk hk' l l' hl hl' := by
    have hsame := hfirst k hk
    have hsame' := hfirst k' hk'
    refine h.apart (f k) (f k') (fun heq => hne (hinj k k' hk hk' heq)) (hsame ▸ hk)
      (hsame' ▸ hk') l l' (hsame ▸ hl) (hsame' ▸ hl')
  used := h.used

theorem congr (hsame : ∀ o l, first o ≠ 0 → Chain stop next (first o) l → ∀ c ∈ l, next' c = next c)
    (hused : ∀ c, kept c → next' c ≠ 0) : HeldChains stop dom kept next' first := by
  have hchain : ∀ o l, first o ≠ 0 → Chain stop next' (first o) l → Chain stop next (first o) l := by
    intro o l ho hl
    obtain ⟨l', hl', -⟩ := h.chain o ho
    rwa [hl.unique (hl'.congr (hsame o l' ho hl'))]
  refine ⟨fun o ho => ?_, fun o o' hne ho ho' l l' hl hl' => ?_, hused⟩
  · obtain ⟨l, hl, hmem⟩ := h.chain o ho
    refine ⟨l, hl.congr (hsame o l ho hl), fun c hc => ?_⟩
    rw [hsame o l ho hl c hc]
    exact hmem c hc
  · exact h.apart o o' hne ho ho' l l' (hchain o l ho hl) (hchain o' l' ho' hl')

end

variable [DecidableEq α] [DecidableEq ι] {mark : α}

section
variable (h : HeldChains stop dom kept next first)
include h

/-- A node not in use becomes the chain of an owner that had none. -/
theorem start (hfree : next c = 0) (hdom : dom c)
    (hc : c ≠ 0) (hstop : stop mark) (hmark : mark ≠ 0) (ho : first o = 0) :
    HeldChains stop dom kept (update next c mark) (update first o c) := by
  have hne : ∀ x, next x ≠ 0 → x ≠ c := by
    rintro x hx rfl
    exact hx hfree
  have hother : HeldChains stop dom kept (update next c mark) first := by
    refine h.congr (fun o l ho hl x hx => ?_) fun x hx => ?_
    · rw [update_of_ne (hne x (h.mem ho hl hx).2.2)]
    · rw [update_of_ne (hne x (h.used x hx))]
      exact h.used x hx
  have hown : Chain stop (update next c mark) c [c] := .last (by simpa using hstop)
  have hapart : ∀ o' l, first o' ≠ 0 → Chain stop (update next c mark) (first o') l →
      c ∉ l := by
    intro o' l ho' hl hmem
    obtain ⟨l', hl', hall⟩ := h.chain o' ho'
    have hsame := hl'.congr fun x hx => update_of_ne (hne x (hall x hx).2.2) mark next
    rw [hl.unique hsame] at hmem
    exact (hall c hmem).2.2 hfree
  refine ⟨fun o' ho' => ?_, fun o₁ o₂ hne₁₂ ho₁ ho₂ l₁ l₂ hl₁ hl₂ => ?_, hother.used⟩
  · by_cases hoo : o' = o
    · subst hoo
      rw [update_self]
      refine ⟨[c], hown, ?_⟩
      simp only [List.mem_singleton, forall_eq, update_self]
      exact ⟨hdom, fun hkept => h.used c hkept hfree, hmark⟩
    · rw [update_of_ne hoo] at ho' ⊢
      exact hother.chain o' ho'
  · by_cases h₁ : o₁ = o
    · subst h₁
      rw [update_self] at hl₁
      rw [update_of_ne (Ne.symm hne₁₂)] at ho₂ hl₂
      rw [hl₁.unique hown, List.singleton_disjoint]
      exact hapart o₂ l₂ ho₂ hl₂
    · rw [update_of_ne h₁] at ho₁ hl₁
      by_cases h₂ : o₂ = o
      · subst h₂
        rw [update_self] at hl₂
        rw [hl₂.unique hown, List.disjoint_singleton]
        exact hapart o₁ l₁ ho₁ hl₁
      · rw [update_of_ne h₂] at ho₂ hl₂
        exact hother.apart o₁ o₂ hne₁₂ ho₁ ho₂ l₁ l₂ hl₁ hl₂

/-- A node not in use is linked after the last one of a chain. -/
theorem grow (ho : first o ≠ 0)
    (hl : Chain stop next (first o) l) (ha : a ∈ l) (hlast : stop (next a)) (hfree : next c = 0)
    (hdom : dom c) (hc : c ≠ 0) (hgo : ¬stop c) (hstop : stop mark) (hmark : mark ≠ 0) :
    HeldChains stop dom kept (update (update next c mark) a c) first ∧
      Chain stop (update (update next c mark) a c) (first o) (l ++ [c]) := by
  set next' := update (update next c mark) a c with hnext'
  have hca : c ≠ a := by
    rintro rfl
    exact (h.mem ho hl ha).2.2 hfree
  have hlink : next' a = c := by simp [hnext']
  have hend : next' c = mark := by simp [hnext', update_of_ne hca]
  have hsame : ∀ x, next x ≠ 0 → x ≠ a → next' x = next x := by
    intro x hx hxa
    have hxc : x ≠ c := by
      rintro rfl
      exact hx hfree
    rw [hnext', update_of_ne hxa, update_of_ne hxc]
  have hnot : ∀ o' l', first o' ≠ 0 → Chain stop next (first o') l' → c ∉ l' := by
    intro o' l' ho' hl' hmem
    exact (h.mem ho' hl' hmem).2.2 hfree
  have hgrown : Chain stop next' (first o) (l ++ [c]) :=
    hl.grow ha hlast (hnot o l ho hl) hgo
      (fun x hx hxa => hsame x (h.mem ho hl hx).2.2 hxa) hlink (by rwa [hend])
  have hothers : ∀ o' l', o' ≠ o → first o' ≠ 0 → Chain stop next (first o') l' →
      Chain stop next' (first o') l' := by
    intro o' l' hoo ho' hl'
    refine hl'.congr fun x hx => hsame x (h.mem ho' hl' hx).2.2 ?_
    rintro rfl
    exact h.apart o' o hoo ho' ho l' l hl' hl hx ha
  have hused : ∀ x, next x ≠ 0 → next' x ≠ 0 := by
    intro x hx
    by_cases hxa : x = a
    · rw [hxa, hlink]
      exact hc
    · rw [hsame x hx hxa]
      exact hx
  refine ⟨⟨fun o' ho' => ?_, fun o₁ o₂ hne ho₁ ho₂ l₁ l₂ hl₁ hl₂ => ?_, fun x hx =>
    hused x (h.used x hx)⟩, hgrown⟩
  · by_cases hoo : o' = o
    · subst hoo
      refine ⟨l ++ [c], hgrown, fun x hx => ?_⟩
      rcases List.mem_append.1 hx with hx | hx
      · obtain ⟨hxdom, hxkept, hxused⟩ := h.mem ho hl hx
        exact ⟨hxdom, hxkept, hused x hxused⟩
      · obtain rfl := List.mem_singleton.1 hx
        exact ⟨hdom, fun hkept => h.used x hkept hfree, by rwa [hend]⟩
    · obtain ⟨l', hl', hall⟩ := h.chain o' ho'
      refine ⟨l', hothers o' l' hoo ho' hl', fun x hx => ?_⟩
      exact ⟨(hall x hx).1, (hall x hx).2.1, hused x (hall x hx).2.2⟩
  · -- the chain of an owner before the step, and that it is the same but for `o`
    have hbefore : ∀ o' l', first o' ≠ 0 → Chain stop next' (first o') l' →
        ∃ l'', Chain stop next (first o') l'' ∧ (l' = l'' ∨ o' = o ∧ l' = l'' ++ [c]) := by
      intro o' l' ho' hl'
      by_cases hoo : o' = o
      · subst hoo
        exact ⟨l, hl, .inr ⟨rfl, hl'.unique hgrown⟩⟩
      · obtain ⟨l'', hl'', -⟩ := h.chain o' ho'
        exact ⟨l'', hl'', .inl (hl'.unique (hothers o' l'' hoo ho' hl''))⟩
    obtain ⟨m₁, hm₁, hl₁⟩ := hbefore o₁ l₁ ho₁ hl₁
    obtain ⟨m₂, hm₂, hl₂⟩ := hbefore o₂ l₂ ho₂ hl₂
    have happart := h.apart o₁ o₂ hne ho₁ ho₂ m₁ m₂ hm₁ hm₂
    have hc₁ := hnot o₁ m₁ ho₁ hm₁
    have hc₂ := hnot o₂ m₂ ho₂ hm₂
    rcases hl₁ with rfl | ⟨rfl, rfl⟩ <;> rcases hl₂ with rfl | ⟨rfl, rfl⟩
    · exact happart
    · exact List.disjoint_append_right.2 ⟨happart, by simpa using hc₁⟩
    · exact List.disjoint_append_left.2 ⟨happart, by simpa using hc₂⟩
    · exact absurd rfl hne

/-- The first node of a chain is given back; the owner keeps the rest. -/
theorem release [DecidablePred stop] (ho : first o ≠ 0)
    {rest : α} (hrest : rest = if stop (next (first o)) then 0 else next (first o)) :
    HeldChains stop dom kept (update next (first o) 0) (update first o rest) := by
  obtain ⟨l, hl, hall⟩ := h.chain o ho
  have hnode : ¬kept (first o) := (hall _ hl.head_mem).2.1
  -- with the old links, the chains are as before but for the first node of `o`
  have hafter : ∀ o', update first o rest o' ≠ 0 → ∃ l' l'', first o' ≠ 0 ∧
      Chain stop next (first o') l' ∧ Chain stop next (update first o rest o') l'' ∧
      l'' ⊆ l' ∧ first o ∉ l'' := by
    intro o' ho'
    by_cases hoo : o' = o
    · subst hoo
      rw [update_self] at ho' ⊢
      have hnodup := hl.nodup
      generalize hfirst : first o' = a at hl hrest hnodup ho
      cases hl with
      | last hstop =>
        rw [if_pos hstop] at hrest
        exact absurd hrest ho'
      | @link _ tail hgo htail =>
        rw [if_neg hgo] at hrest
        subst hrest
        exact ⟨a :: tail, tail, ho, .link hgo htail, htail, List.subset_cons_self a tail,
          (List.nodup_cons.1 hnodup).1⟩
    · rw [update_of_ne hoo] at ho' ⊢
      obtain ⟨l', hl', -⟩ := h.chain o' ho'
      refine ⟨l', l', ho', hl', hl', List.Subset.refl l', fun hmem => ?_⟩
      exact h.apart o' o hoo ho' ho l' l hl' hl hmem hl.head_mem
  have hshort : HeldChains stop dom kept next (update first o rest) := by
    refine ⟨fun o' ho' => ?_, fun o₁ o₂ hne ho₁ ho₂ l₁ l₂ hl₁ hl₂ => ?_, h.used⟩
    · obtain ⟨l', l'', hfirst, hl', hl'', hsub, -⟩ := hafter o' ho'
      exact ⟨l'', hl'', fun c hc => h.mem hfirst hl' (hsub hc)⟩
    · obtain ⟨m₁, m₁', hfirst₁, hm₁, hm₁', hsub₁, -⟩ := hafter o₁ ho₁
      obtain ⟨m₂, m₂', hfirst₂, hm₂, hm₂', hsub₂, -⟩ := hafter o₂ ho₂
      rw [hl₁.unique hm₁', hl₂.unique hm₂']
      intro x hx₁ hx₂
      exact h.apart o₁ o₂ hne hfirst₁ hfirst₂ m₁ m₂ hm₁ hm₂ (hsub₁ hx₁) (hsub₂ hx₂)
  refine hshort.congr (fun o' l' ho' hl' x hx => ?_) fun x hx => ?_
  · obtain ⟨-, l'', -, -, hl'', -, hnot⟩ := hafter o' ho'
    rw [hl'.unique hl''] at hx
    have hne : x ≠ first o := by
      rintro rfl
      exact hnot hx
    rw [update_of_ne hne]
  · have hne : x ≠ first o := by
      rintro rfl
      exact hnode hx
    rw [update_of_ne hne]
    exact h.used x hx

end

end HeldChains

end RadKernel
